/-
Assembling packages.

A draft grows by directives: declarations, which are numbered in the order in
which they come, and instructions, whose word operands may be symbolic. A
symbolic operand is written as its number in the package and recorded as a
relocation. A label may be used before it is defined; its uses are filled in
when the draft is finished.

* `Operand`, `SymbolicInstruction`: instructions before linking;
* `Draft`, `Directive`, `Draft.apply`: drafts and their growth;
* `Draft.finish`: the package of a draft, if every label that is used has been
  defined;
* `assemble`: the package of a list of directives.
-/
import EffectMachine.Instruction
import EffectMachine.Package

namespace EffectMachine

/-! ### Symbolic instructions -/

/-- A global as a package sees it. -/
inductive GlobalRef where
  /-- One of the package's own. -/
  | own (index : UInt32)
  /-- The object of an imported package. -/
  | imported (index : UInt32)
deriving DecidableEq

/-- A word operand. -/
inductive Operand where
  /-- A number that linking leaves alone. -/
  | fixed (n : Int32)
  | cls (index : UInt32)
  | method (index : UInt32)
  | global (g : GlobalRef)
  | label (index : Nat)
deriving DecidableEq

/-- An instruction whose word operand may be symbolic. -/
inductive SymbolicInstruction where
  | load (register : UInt8)
  | store (register : UInt8)
  | natural (operand : Operand)
  | globalLoad (g : GlobalRef)
  | globalStore (g : GlobalRef)
  | create (operand : Operand) (base : UInt8)
  | field (index : UInt32)
  | ret
  | call (method : UInt32) (base : UInt8)
deriving DecidableEq

/-! ### Drafts -/

/-- Why a draft cannot go on or be finished. -/
inductive AssemblyError where
  /-- A label is used and never defined. -/
  | undefinedLabel (index : Nat)
  /-- A label is defined a second time. -/
  | duplicateLabel (index : Nat)
deriving DecidableEq

/-- The wording of an assembly error. -/
def AssemblyError.message : AssemblyError → String
  | .undefinedLabel index => s!"Label {index} referenced but never defined"
  | .duplicateLabel index => s!"Label {index} defined twice"

/-- A package that is being written. -/
structure Draft where
  package : Package := {}
  /-- The code position of each label that has been defined. -/
  labels : Array (Option UInt32) := #[]
  /-- The labels used so far, each with the position of the word that waits
  for it. -/
  uses : Array (Nat × Nat) := #[]
  globalCount : UInt32 := 0

/-- One step in writing a package. -/
inductive Directive where
  | importPackage (name : String)
  | declareGlobal
  | declareClass (name : String) (kind : ClassKind) (fieldCount : UInt32)
  | declareMethod (name : String)
  /-- The method is implemented by the code that follows. -/
  | implement (cls method : UInt32)
  /-- The method is implemented by a native. -/
  | implementExternal (cls method : UInt32) (native : String)
  | declareLabel
  /-- The label is the current code position. -/
  | defineLabel (index : Nat)
  | emit (instruction : SymbolicInstruction)
deriving DecidableEq

/-- What a directive gives back. -/
inductive Answer where
  /-- A way to refer to a global. -/
  | global (g : GlobalRef)
  /-- The number of what has been declared, or the code position reached. -/
  | number (n : Nat)
deriving DecidableEq

namespace Draft

/-- The current code position. -/
def position (d : Draft) : Nat := d.package.code.size

/-! ### Declarations -/

/-- Imports a package; a package already imported keeps its number. -/
def importPackage (name : String) (d : Draft) : Nat × Draft :=
  match d.package.imports.findIdx? (· = name) with
  | some index => (index, d)
  | none =>
    (d.package.imports.size,
      { d with package := { d.package with imports := d.package.imports.push name } })

/-- Declares a class. -/
def declareClass (decl : ClassDecl) (d : Draft) : Nat × Draft :=
  (d.package.classes.size,
    { d with package := { d.package with classes := d.package.classes.push decl } })

/-- Declares a method; a method already declared keeps its number. -/
def declareMethod (name : String) (d : Draft) : Nat × Draft :=
  match d.package.methods.findIdx? (·.name = name) with
  | some index => (index, d)
  | none =>
    (d.package.methods.size,
      { d with package := { d.package with methods := d.package.methods.push ⟨name⟩ } })

/-- Names a native; a native already named keeps its number. -/
def nameNative (name : String) (d : Draft) : Nat × Draft :=
  match d.package.externals.findIdx? (· = name) with
  | some index => (index, d)
  | none =>
    (d.package.externals.size,
      { d with package := { d.package with externals := d.package.externals.push name } })

/-- Adds an implementation of a method for a class. -/
def addImplementation (cls method : UInt32) (kind : ImplKind) (entry : Nat) (d : Draft) : Draft :=
  let i : Implementation := ⟨⟨cls.toInt32⟩, ⟨method⟩, kind, UInt32.ofNat entry⟩
  { d with package := { d.package with implementations := d.package.implementations.push i } }

/-- Defines a label to be the current code position. -/
def defineLabel (index : Nat) (d : Draft) : Except AssemblyError Draft :=
  match d.labels[index]? with
  | some (some _) => .error (.duplicateLabel index)
  | _ => .ok { d with labels := d.labels.setIfInBounds index (some (UInt32.ofNat d.position)) }

/-! ### Code -/

/-- Appends bytes to the code. -/
def append (bytes : List UInt8) (d : Draft) : Draft :=
  { d with package := { d.package with code := d.package.code ++ bytes } }

/-- Appends a word that refers to something of the package, with its
relocation. -/
def appendRelocated (kind : RelocationKind) (id : Int32) (d : Draft) : Draft :=
  let r : Relocation := ⟨kind, id, UInt32.ofNat d.position⟩
  let d := d.append (Word.bytes id.toUInt32)
  { d with package := { d.package with relocations := d.package.relocations.push r } }

/-- Appends a word operand. -/
def appendOperand (operand : Operand) (d : Draft) : Draft :=
  match operand with
  | .fixed n => d.append (Word.bytes n.toUInt32)
  | .cls index => d.appendRelocated .cls index.toInt32
  | .method index => d.appendRelocated .method index.toInt32
  | .global (.own index) => d.appendRelocated .global index.toInt32
  | .global (.imported index) => d.appendRelocated .imported index.toInt32
  | .label index =>
    appendRelocated .code 0 { d with uses := d.uses.push (index, d.position) }

/-- Appends an instruction. -/
def emit (instruction : SymbolicInstruction) (d : Draft) : Draft :=
  match instruction with
  | .load r => d.append (Instruction.load r).encode
  | .store r => d.append (Instruction.store r).encode
  | .natural operand => (d.append [Opcode.natural.byte]).appendOperand operand
  | .globalLoad g => (d.append [Opcode.globalLoad.byte]).appendOperand (.global g)
  | .globalStore g => (d.append [Opcode.globalStore.byte]).appendOperand (.global g)
  | .create operand base =>
    ((d.append [Opcode.create.byte]).appendOperand operand).append [base]
  | .field index => d.append (Instruction.field index).encode
  | .ret => d.append Instruction.ret.encode
  | .call method base =>
    ((d.append [Opcode.call.byte]).appendOperand (.method method)).append [base]

/-! ### Growth and finish -/

/-- Carries out a directive. -/
def apply (directive : Directive) (d : Draft) : Except AssemblyError (Answer × Draft) :=
  match directive with
  | .importPackage name =>
    let (index, d) := d.importPackage name
    .ok (.global (.imported (UInt32.ofNat index)), d)
  | .declareGlobal =>
    .ok (.global (.own d.globalCount), { d with globalCount := d.globalCount + 1 })
  | .declareClass name kind fieldCount =>
    let (index, d) := d.declareClass ⟨name, kind, fieldCount⟩
    .ok (.number index, d)
  | .declareMethod name =>
    let (index, d) := d.declareMethod name
    .ok (.number index, d)
  | .implement cls method =>
    let d := d.addImplementation cls method .standard d.position
    .ok (.number d.position, d)
  | .implementExternal cls method native =>
    let (index, d) := d.nameNative native
    let d := d.addImplementation cls method .external index
    .ok (.number d.position, d)
  | .declareLabel => .ok (.number d.labels.size, { d with labels := d.labels.push none })
  | .defineLabel index =>
    match d.defineLabel index with
    | .ok d => .ok (.number d.position, d)
    | .error e => .error e
  | .emit instruction =>
    let d := d.emit instruction
    .ok (.number d.position, d)

/-- Carries out directives in order, up to the first error. -/
def applyAll : List Directive → Draft → Except AssemblyError Draft
  | [], d => .ok d
  | directive :: rest, d =>
    match d.apply directive with
    | .ok (_, d) => applyAll rest d
    | .error e => .error e

/-- Gives the first relocation at a position a new number. -/
def renumber (pos : Nat) (id : Int32) : List Relocation → List Relocation
  | [] => []
  | r :: rest =>
    if r.pos.toNat = pos then { r with id } :: rest else r :: renumber pos id rest

/-- Fills in the uses of labels. -/
def fillUses (labels : Array (Option UInt32)) :
    List (Nat × Nat) → Package → Except AssemblyError Package
  | [], p => .ok p
  | (label, pos) :: rest, p =>
    match labels[label]? with
    | some (some target) =>
      fillUses labels rest { p with
        code := (Word.patch? p.code pos target).getD p.code
        relocations := (renumber pos target.toInt32 p.relocations.toList).toArray }
    | _ => .error (.undefinedLabel label)

/-- The package of a draft. -/
def finish (d : Draft) : Except AssemblyError Package :=
  fillUses d.labels d.uses.toList d.package

end Draft

/-- The package that a list of directives writes. -/
def assemble (directives : List Directive) : Except AssemblyError Package :=
  match Draft.applyAll directives {} with
  | .ok d => d.finish
  | .error e => .error e

end EffectMachine
