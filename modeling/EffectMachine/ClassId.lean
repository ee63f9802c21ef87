/-
Classes and methods, as the machine names them.

* `ClassId`: a signed 32-bit code. The codes from zero up index the class
  table; a negative code `c` is the class of arrays of length `-c - 1`, so that
  arrays of every length exist without a table entry of their own.
* `MethodId`: an unsigned index into the method table.
* `ClassKind` and `BuiltinTable`: the representations that the machine itself
  builds and inspects, and the class that stands for each of them.
* `ClassDecl`: one entry of the class table.
-/

namespace EffectMachine

/-! ### Class identifiers -/

/-- The identifier of a class. -/
structure ClassId where
  code : Int32
deriving DecidableEq

namespace ClassId

/-- The class with no fields and no methods; its values are markers. -/
def empty : ClassId := ⟨0⟩

/-- The class of the object on which a program is started. -/
def programInit : ClassId := ⟨1⟩

/-- The class of captured continuations. -/
def continuation : ClassId := ⟨2⟩

/-- The identifier of no class: it marks what is unoccupied. -/
def absent : ClassId := ⟨Int32.minValue⟩

/-- The marker that a collection leaves in the first field of an object it has
moved. -/
def forwarded : ClassId := ⟨Int32.maxValue⟩

/-- The class of arrays with `length` elements. -/
def array (length : Nat) : ClassId := ⟨Int32.ofInt (-(length : Int) - 1)⟩

/-- Whether the identifier is that of an array class. -/
def isArray (c : ClassId) : Bool := c.code < 0 && c ≠ absent

/-- The length of the arrays of this class, if it is an array class. -/
def arrayLength? (c : ClassId) : Option Nat :=
  if c.isArray then some (-(c.code.toInt + 1)).toNat else none

/-- The position in the class table, for the identifiers that have one. -/
def index? (c : ClassId) : Option Nat :=
  if 0 ≤ c.code then some c.code.toInt.toNat else none

/-- The identifier of the class at a position of the class table. -/
def ofIndex (index : Nat) : ClassId := ⟨Int32.ofNat index⟩

/-- The name under which messages mention a class. -/
def text (c : ClassId) : String :=
  match c.arrayLength? with
  | some length => s!"array[{length}]"
  | none => s!"class#{c.code.toInt}"

end ClassId

/-! ### Method identifiers -/

/-- The identifier of a method: its position in a method table. -/
structure MethodId where
  index : UInt32
deriving DecidableEq

namespace MethodId

/-- The method that enters closures and initialisers. -/
def call : MethodId := ⟨0⟩

/-- The name under which messages mention a method. -/
def text (m : MethodId) : String := s!"method#{m.index.toNat}"

end MethodId

/-! ### Builtin representations -/

/-- What a class stands for in the eyes of the machine. -/
inductive ClassKind where
  /-- An ordinary class. -/
  | user
  /-- Integers, held inline. -/
  | int
  /-- The boolean `true`. -/
  | truth
  /-- The boolean `false`. -/
  | falsehood
  /-- The class on which all arrays dispatch. -/
  | array
  /-- Strings, whose first field is an array of bytes. -/
  | string
  /-- Captured continuations. -/
  | continuation
deriving DecidableEq

namespace ClassKind

/-- The written name of a kind. -/
def name : ClassKind → String
  | user => "User"
  | int => "Int"
  | truth => "True"
  | falsehood => "False"
  | array => "Array"
  | string => "String"
  | continuation => "Continuation"

/-- The kind of a written name. -/
def ofName? : String → Option ClassKind
  | "User" => some user
  | "Int" => some int
  | "True" => some truth
  | "False" => some falsehood
  | "Array" => some array
  | "String" => some string
  | "Continuation" => some continuation
  | _ => none

@[simp] theorem ofName?_name (k : ClassKind) : ofName? k.name = some k := by
  cases k <;> rfl

end ClassKind

/-- The class chosen for each builtin kind; `ClassId.absent` where there is
none. -/
structure BuiltinTable where
  int : ClassId := .absent
  truth : ClassId := .absent
  falsehood : ClassId := .absent
  array : ClassId := .absent
  string : ClassId := .absent
  continuation : ClassId := .absent
deriving DecidableEq

namespace BuiltinTable

/-- What the table holds for a kind, `absent` included; ordinary classes have
no entry. -/
def entry (t : BuiltinTable) : ClassKind → ClassId
  | .user => .absent
  | .int => t.int
  | .truth => t.truth
  | .falsehood => t.falsehood
  | .array => t.array
  | .string => t.string
  | .continuation => t.continuation

/-- The class chosen for a kind. -/
def get? (t : BuiltinTable) (kind : ClassKind) : Option ClassId :=
  if t.entry kind = .absent then none else some (t.entry kind)

/-- The table with `c` chosen for a kind. -/
def set (t : BuiltinTable) (kind : ClassKind) (c : ClassId) : BuiltinTable :=
  match kind with
  | .user => t
  | .int => { t with int := c }
  | .truth => { t with truth := c }
  | .falsehood => { t with falsehood := c }
  | .array => { t with array := c }
  | .string => { t with string := c }
  | .continuation => { t with continuation := c }

/-- The six entries in the order in which they are written. -/
def toList (t : BuiltinTable) : List ClassId :=
  [t.int, t.truth, t.falsehood, t.array, t.string, t.continuation]

/-- The table with the given six entries. -/
def ofList? : List ClassId → Option BuiltinTable
  | [int, truth, falsehood, array, string, continuation] =>
    some { int, truth, falsehood, array, string, continuation }
  | _ => none

theorem ofList?_toList (t : BuiltinTable) : ofList? t.toList = some t := rfl

end BuiltinTable

/-! ### Class declarations -/

/-- An entry of the class table. -/
structure ClassDecl where
  name : String
  kind : ClassKind := .user
  fieldCount : UInt32
deriving DecidableEq

end EffectMachine
