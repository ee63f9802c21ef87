/-
The linker's state.

Linking fills the tables of a program package by package. What has been linked
is only appended to, so an identifier once given stays valid.

* `Linker`: the tables so far, the packages linked, and those whose imports are
  being linked;
* `Linker.fresh`: the three reserved classes, the code that starts a program,
  and the method that enters closures;
* `Linker.internMethod`: methods of one name get one identifier.
-/
import EffectMachine.DispatchTable
import EffectMachine.Journal

namespace EffectMachine

/-- Where a package has been linked. -/
structure LinkedPackage where
  name : String
  /-- The global that holds the object of the package. -/
  global : Nat
  /-- The class on which the package is initialised. -/
  cls : ClassId
deriving DecidableEq

/-- The tables of a program that is being linked. -/
structure Linker where
  classes : Array ClassDecl := #[]
  methods : Array MethodRow := #[]
  externals : Array String := #[]
  code : Code := #[]
  globalCount : Nat := 0
  /-- The packages linked so far, in the order of their completion. -/
  completed : Array LinkedPackage := #[]
  /-- The packages whose imports are being linked, the outermost first. -/
  inProgress : List String := []
  journal : Journal := {}

namespace Linker

/-- The name of the method that enters closures and initialisers. -/
def callName : String := "call"

/-- The name of the method that a program starts with. -/
def mainName : String := "main"

/-- The code in front of all packages: it calls the object that starts the
program. -/
def entryCode : List UInt8 :=
  (Instruction.create .programInit 0).encode ++ (Instruction.call .call 0).encode

/-- The state before any package has been linked. -/
def fresh (journal : Journal) : Linker where
  classes := #[⟨"Empty", .user, 0⟩, ⟨"ProgramInit", .user, 0⟩, ⟨"Continuation", .continuation, 1⟩]
  methods := #[{ name := callName }]
  code := entryCode.toArray
  journal := journal

/-- The package of a name, if it has been linked. -/
def linked? (l : Linker) (name : String) : Option LinkedPackage :=
  l.completed.find? (·.name = name)

/-- The identifier of the method of a name, if there is one. -/
def methodId? (l : Linker) (name : String) : Option MethodId :=
  (l.methods.findIdx? (·.name = name)).map fun i => ⟨UInt32.ofNat i⟩

/-- The identifier of the method of a name, which is new if there was none. -/
def internMethod (name : String) (l : Linker) : MethodId × Linker :=
  match l.methodId? name with
  | some m => (m, l)
  | none => (⟨UInt32.ofNat l.methods.size⟩, { l with methods := l.methods.push { name } })

/-- The identifiers of the methods of a list of names. -/
def internMethods : List String → Linker → List MethodId × Linker
  | [], l => ([], l)
  | name :: names, l =>
    let (m, l) := l.internMethod name
    let (ms, l) := internMethods names l
    (m :: ms, l)

/-- Adds an implementation to the method it implements. -/
def addImplementation (i : Implementation) (l : Linker) : Linker :=
  { l with
    methods := l.methods.modify i.method.index.toNat fun row =>
      { row with implementations := row.implementations.push i } }

/-- Adds a report to the journal. -/
def record (e : Entry) (l : Linker) : Linker := { l with journal := l.journal.record e }

end Linker

end EffectMachine
