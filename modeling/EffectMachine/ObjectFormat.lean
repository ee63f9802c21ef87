/-
The written form of packages and programs.

Records are JSON objects with their fields in a fixed order, identifiers are
plain numbers, and alternatives are written by name. Reading also takes a
record written as a list of its fields. All fields of a package may be left
out, and so may the kind of a class; every other field is required.

* `Package.toJson`, `Package.ofJson?`: packages;
* `Program.toJson`, `Program.ofJson?`: programs;
* `Package.print`, `Package.parse?`: the text of a package file.
-/
import EffectMachine.Json.Decode
import EffectMachine.Json.Printer
import EffectMachine.Json.Reader
import EffectMachine.Package

namespace EffectMachine

/-- A list as a JSON array. -/
def Json.ofArray {α : Type} (toJson : α → Json) (items : Array α) : Json :=
  .array (items.toList.map toJson)

/-! ### Identifiers -/

/-- A class identifier is written as its code. -/
def ClassId.toJson (c : ClassId) : Json := .integer c.code.toInt

/-- The class identifier of a code. -/
def ClassId.ofJson? (j : Json) : Option ClassId := j.toInt32?.map ClassId.mk

/-- A method identifier is written as its index. -/
def MethodId.toJson (m : MethodId) : Json := .ofNat m.index.toNat

/-- The method identifier of an index. -/
def MethodId.ofJson? (j : Json) : Option MethodId := j.toUInt32?.map MethodId.mk

/-! ### Table entries -/

/-- A class declaration as an object. -/
def ClassDecl.toJson (c : ClassDecl) : Json :=
  .ofMembers [("name", .ofString c.name), ("kind", .ofString c.kind.name),
    ("field_count", .ofNat c.fieldCount.toNat)]

/-- The class declaration of a record; the kind may be left out. -/
def ClassDecl.ofJson? (j : Json) : Option ClassDecl := do
  match ← j.fields? ["name", "kind", "field_count"] with
  | [name, kind, fieldCount] =>
    return {
      name := ← Json.required Json.toString? name
      kind := ← Json.optional (Json.variant? ClassKind.ofName?) .user kind
      fieldCount := ← Json.required Json.toUInt32? fieldCount }
  | _ => none

/-- A method declaration as an object. -/
def MethodDecl.toJson (m : MethodDecl) : Json := .ofMembers [("name", .ofString m.name)]

/-- The method declaration of a record. -/
def MethodDecl.ofJson? (j : Json) : Option MethodDecl := do
  match ← j.fields? ["name"] with
  | [name] => return { name := ← Json.required Json.toString? name }
  | _ => none

/-- A linked method as an object. -/
def Method.toJson (m : Method) : Json :=
  .ofMembers [("name", .ofString m.name), ("offset", .integer m.offset.toInt)]

/-- The linked method of a record. -/
def Method.ofJson? (j : Json) : Option Method := do
  match ← j.fields? ["name", "offset"] with
  | [name, offset] =>
    return {
      name := ← Json.required Json.toString? name
      offset := ← Json.required Json.toInt32? offset }
  | _ => none

/-- An implementation as an object. -/
def Implementation.toJson (i : Implementation) : Json :=
  .ofMembers [("class", i.cls.toJson), ("method", i.method.toJson),
    ("kind", .ofString i.kind.name), ("entry_point", .ofNat i.entry.toNat)]

/-- The implementation of a record. -/
def Implementation.ofJson? (j : Json) : Option Implementation := do
  match ← j.fields? ["class", "method", "kind", "entry_point"] with
  | [cls, method, kind, entry] =>
    return {
      cls := ← Json.required ClassId.ofJson? cls
      method := ← Json.required MethodId.ofJson? method
      kind := ← Json.required (Json.variant? ImplKind.ofName?) kind
      entry := ← Json.required Json.toUInt32? entry }
  | _ => none

/-- A relocation as an object. -/
def Relocation.toJson (r : Relocation) : Json :=
  .ofMembers [("kind", .ofString r.kind.name), ("id", .integer r.id.toInt),
    ("pos", .ofNat r.pos.toNat)]

/-- The relocation of a record. -/
def Relocation.ofJson? (j : Json) : Option Relocation := do
  match ← j.fields? ["kind", "id", "pos"] with
  | [kind, id, pos] =>
    return {
      kind := ← Json.required (Json.variant? RelocationKind.ofName?) kind
      id := ← Json.required Json.toInt32? id
      pos := ← Json.required Json.toUInt32? pos }
  | _ => none

/-- Code as a list of bytes. -/
def Code.toJson (code : Code) : Json := .ofArray (fun b => .ofNat b.toNat) code

/-- The code of a list of bytes. -/
def Code.ofJson? (j : Json) : Option Code := j.toArray? Json.toUInt8?

/-- The builtin table as the list of its six entries. -/
def BuiltinTable.toJson (t : BuiltinTable) : Json := .array (t.toList.map ClassId.toJson)

/-- The builtin table of a list of six entries. -/
def BuiltinTable.ofJson? (j : Json) : Option BuiltinTable := do
  BuiltinTable.ofList? (← j.toArray? ClassId.ofJson?).toList

/-! ### Packages -/

/-- A list of names. -/
def namesOfJson? (j : Json) : Option (Array String) := j.toArray? Json.toString?

/-- A package as an object. -/
def Package.toJson (p : Package) : Json :=
  .ofMembers [("imports", .ofArray .ofString p.imports),
    ("external_methods", .ofArray .ofString p.externals),
    ("classes", .ofArray ClassDecl.toJson p.classes),
    ("methods", .ofArray MethodDecl.toJson p.methods),
    ("implementations", .ofArray Implementation.toJson p.implementations),
    ("relocations", .ofArray Relocation.toJson p.relocations),
    ("code", Code.toJson p.code)]

/-- The package of a record; every field may be left out. -/
def Package.ofJson? (j : Json) : Option Package := do
  match ← j.fields? ["imports", "external_methods", "classes", "methods", "implementations",
    "relocations", "code"] with
  | [imports, externals, classes, methods, implementations, relocations, code] =>
    return {
      imports := ← Json.optional namesOfJson? #[] imports
      externals := ← Json.optional namesOfJson? #[] externals
      classes := ← Json.optional (·.toArray? ClassDecl.ofJson?) #[] classes
      methods := ← Json.optional (·.toArray? MethodDecl.ofJson?) #[] methods
      implementations :=
        ← Json.optional (·.toArray? Implementation.ofJson?) #[] implementations
      relocations := ← Json.optional (·.toArray? Relocation.ofJson?) #[] relocations
      code := ← Json.optional Code.ofJson? #[] code }
  | _ => none

/-- The text of a package file. -/
def Package.print (p : Package) : String := p.toJson.indented

/-- The package that a text denotes. -/
def Package.parse? (text : String) : Option Package := do
  Package.ofJson? (← Json.parse? text)

/-! ### Programs -/

/-- A program as an object. -/
def Program.toJson (P : Program) : Json :=
  .ofMembers [("global_count", .ofNat P.globalCount.toNat),
    ("classes", .ofArray ClassDecl.toJson P.classes),
    ("methods", .ofArray Method.toJson P.methods),
    ("implementations", .ofArray Implementation.toJson P.implementations),
    ("external_methods", .ofArray .ofString P.externals),
    ("code", Code.toJson P.code),
    ("builtins", P.builtins.toJson)]

/-- The program of a record. -/
def Program.ofJson? (j : Json) : Option Program := do
  match ← j.fields? ["global_count", "classes", "methods", "implementations",
    "external_methods", "code", "builtins"] with
  | [globalCount, classes, methods, implementations, externals, code, builtins] =>
    return {
      globalCount := ← Json.required Json.toUInt32? globalCount
      classes := ← Json.required (·.toArray? ClassDecl.ofJson?) classes
      methods := ← Json.required (·.toArray? Method.ofJson?) methods
      implementations := ← Json.required (·.toArray? Implementation.ofJson?) implementations
      externals := ← Json.required namesOfJson? externals
      code := ← Json.required Code.ofJson? code
      builtins := ← Json.required BuiltinTable.ofJson? builtins }
  | _ => none

end EffectMachine
