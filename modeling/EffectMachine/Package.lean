/-
Packages, the units that are compiled apart and linked together.

A package numbers its own classes, methods, imports and globals from zero. Its
relocations say which words of its code hold such numbers, so that linking can
replace them.

* `Relocation`: a word of the code that refers to something of the package;
* `Package`: everything that one package declares.
-/
import EffectMachine.Program

namespace EffectMachine

/-- What the word at a relocation refers to. -/
inductive RelocationKind where
  /-- One of the package's own globals. -/
  | global
  /-- An entry of the import list. -/
  | imported
  /-- One of the package's own classes. -/
  | cls
  /-- An entry of the method list. -/
  | method
  /-- A position in the package's own code. -/
  | code
deriving DecidableEq

namespace RelocationKind

/-- The written name of a relocation kind. -/
def name : RelocationKind → String
  | global => "Global"
  | imported => "Import"
  | cls => "Class"
  | method => "Method"
  | code => "Code"

/-- The relocation kind of a written name. -/
def ofName? : String → Option RelocationKind
  | "Global" => some global
  | "Import" => some imported
  | "Class" => some cls
  | "Method" => some method
  | "Code" => some code
  | _ => none

@[simp] theorem ofName?_name (k : RelocationKind) : ofName? k.name = some k := by
  cases k <;> rfl

end RelocationKind

/-- A word of the code, at byte position `pos`, that refers to the thing
numbered `id` in the package. -/
structure Relocation where
  kind : RelocationKind
  id : Int32
  pos : UInt32
deriving DecidableEq

/-- A method as a package declares it. Methods of one name are one method in
all packages. -/
structure MethodDecl where
  name : String
deriving DecidableEq

/-- A compiled package. -/
structure Package where
  /-- The names of the imported packages; `"."` is the package itself. -/
  imports : Array String := #[]
  externals : Array String := #[]
  classes : Array ClassDecl := #[]
  methods : Array MethodDecl := #[]
  implementations : Array Implementation := #[]
  relocations : Array Relocation := #[]
  code : Code := #[]
deriving DecidableEq

namespace Package

/-- The import by which a package refers to itself. -/
def self : String := "."

end Package

end EffectMachine
