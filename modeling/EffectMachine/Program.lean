/-
Linked programs and method dispatch.

A program holds its classes, methods, code and the names of its natives in
tables that global identifiers index. All methods share one sparse dispatch
table: an implementation of a method for class `c` stands in slot
`c + offset`, the offset being the method's own.

* `Implementation`: one implementation of a method for a class, or an empty
  slot;
* `Program.fieldCount`: the number of fields of the objects of a class;
* `Program.methodId?`: the method of a name;
* `Program.dispatch`: the implementation that a receiver's class selects.
-/
import EffectMachine.ClassId
import EffectMachine.Word

namespace EffectMachine

/-! ### Implementations -/

/-- How an implementation is entered. -/
inductive ImplKind where
  /-- The entry is a code position. -/
  | standard
  /-- The entry is an index into the list of natives. -/
  | external
  /-- A handler binding, which cannot be entered. -/
  | handler
deriving DecidableEq

namespace ImplKind

/-- The written name of an entry kind. -/
def name : ImplKind → String
  | standard => "Standard"
  | external => "External"
  | handler => "Handler"

/-- The entry kind of a written name. -/
def ofName? : String → Option ImplKind
  | "Standard" => some standard
  | "External" => some external
  | "Handler" => some handler
  | _ => none

@[simp] theorem ofName?_name (k : ImplKind) : ofName? k.name = some k := by
  cases k <;> rfl

end ImplKind

/-- One implementation of a method for a class. -/
structure Implementation where
  cls : ClassId
  method : MethodId
  kind : ImplKind
  entry : UInt32
deriving DecidableEq

namespace Implementation

/-- The content of an unoccupied slot. -/
def empty : Implementation := ⟨.absent, ⟨0⟩, .standard, 0⟩

instance : Inhabited Implementation := ⟨empty⟩

/-- Whether a slot is unoccupied. -/
def isEmpty (i : Implementation) : Bool := i.cls = .absent

end Implementation

/-! ### Programs -/

/-- A linked method: its name and its offset in the dispatch table. -/
structure Method where
  name : String
  offset : Int32
deriving DecidableEq

/-- A linked program. -/
structure Program where
  globalCount : UInt32 := 0
  classes : Array ClassDecl := #[]
  methods : Array Method := #[]
  implementations : Array Implementation := #[]
  externals : Array String := #[]
  code : Code := #[]
  builtins : BuiltinTable := {}
deriving DecidableEq

namespace Program

/-- The number of fields of the objects of a class: the length for an array
class, the declared number for a class of the table, and none otherwise. -/
def fieldCount (P : Program) (c : ClassId) : Nat :=
  match c.arrayLength? with
  | some length => length
  | none =>
    match c.index? with
    | none => 0
    | some i =>
      match P.classes[i]? with
      | none => 0
      | some decl => decl.fieldCount.toNat

/-- The first method of a name. -/
def methodId? (P : Program) (name : String) : Option MethodId :=
  (P.methods.findIdx? (·.name = name)).map fun i => ⟨UInt32.ofNat i⟩

/-- The class on which receivers of class `c` dispatch: all arrays share the
one declared for them. -/
def dispatchClass? (P : Program) (c : ClassId) : Option ClassId :=
  if c.isArray then P.builtins.get? .array else some c

/-- The implementation in a slot of the dispatch table; a negative slot holds
none. -/
def slot? (P : Program) (slot : Int) : Option Implementation :=
  if 0 ≤ slot then P.implementations[slot.toNat]? else none

/-- The implementation of a method for receivers of class `c`. Methods may
share an offset, so the slot has to name both the class and the method. -/
def dispatch (P : Program) (c : ClassId) (m : MethodId) : Option Implementation := do
  let owner ← P.dispatchClass? c
  let method ← P.methods[m.index.toNat]?
  let found ← P.slot? (owner.code.toInt + method.offset.toInt)
  if found.cls = owner ∧ found.method = m then some found else none

end Program

end EffectMachine
