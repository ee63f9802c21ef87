/-
Appending a package to the tables of a program.

* `Bases`: where the parts of a package come to lie;
* `Bases.resolve`: the linked number that the word at a relocation has to hold;
* `relocate`: the code of a package with all its relocations applied, in the
  order of the table;
* `Linker.append`: a package added to what has been linked.
-/
import EffectMachine.Link.Linker

namespace EffectMachine

/-- Where the parts of a package come to lie, and what its numbers mean. -/
structure Bases where
  /-- The number of classes linked before. -/
  classes : Nat
  /-- The number of code bytes linked before. -/
  code : Nat
  /-- The number of natives named before. -/
  externals : Nat
  /-- The first of the package's own globals. -/
  globals : Nat
  /-- The global of the package's object. -/
  packageGlobal : Nat
  /-- The linked methods of the package's method list. -/
  methods : Array MethodId
  /-- The globals of the packages linked before, by name. -/
  packages : String → Option Nat

/-- An identifier as an index, if it is not negative. -/
def indexOf? (id : Int32) : Option Nat := if 0 ≤ id then some id.toInt.toNat else none

namespace Bases

/-- The linked number that the word at a relocation has to hold. -/
def resolve (b : Bases) (p : Package) (r : Relocation) : Except InvalidReference Int32 :=
  match r.kind with
  | .cls =>
    match indexOf? r.id with
    | some i =>
      if i < p.classes.size then .ok (r.id + Int32.ofNat b.classes)
      else .error (.cls r.id.toInt)
    | none => .error (.cls r.id.toInt)
  | .code => .ok (r.id + Int32.ofNat b.code)
  | .global => .ok (r.id + Int32.ofNat b.globals)
  | .imported =>
    match (indexOf? r.id).bind (p.imports[·]?) with
    | none => .error (.imported r.id.toInt)
    | some name =>
      if name = Package.self then .ok (Int32.ofNat b.packageGlobal)
      else
        match b.packages name with
        | some global => .ok (Int32.ofNat global)
        | none => .error (.notLinked name)
  | .method =>
    match (indexOf? r.id).bind (b.methods[·]?) with
    | some m => .ok m.index.toInt32
    | none => .error (.method r.id.toInt)

end Bases

/-- The code with the words at a list of relocations replaced by their linked
numbers. -/
def relocate (b : Bases) (p : Package) : List Relocation → Code → Except InvalidReference Code
  | [], code => .ok code
  | r :: rest, code =>
    match b.resolve p r with
    | .error e => .error e
    | .ok n =>
      match Word.patch? code r.pos.toNat n.toUInt32 with
      | none => .error (.relocation r.pos.toNat)
      | some code => relocate b p rest code

/-- The number of globals that a package uses: one more than the highest number
among its relocations, and none if all of them are negative. -/
def ownGlobalCount (rs : List Relocation) : Nat :=
  rs.foldl (fun n r => if r.kind = .global then max n (r.id.toInt + 1).toNat else n) 0

/-- An implementation of a package with linked numbers. -/
def relocateImplementation (b : Bases) (p : Package) (i : Implementation) :
    Except InvalidReference Implementation :=
  match b.methods[i.method.index.toNat]? with
  | none => .error (.method i.method.index.toNat)
  | some method =>
    match i.cls.index? with
    | some index =>
      if index < p.classes.size then
        .ok {
          cls := ⟨i.cls.code + Int32.ofNat b.classes⟩
          method := method
          kind := i.kind
          entry := i.entry + UInt32.ofNat
            (match i.kind with
            | .external => b.externals
            | .standard | .handler => b.code) }
      else .error (.cls i.cls.code.toInt)
    | none => .error (.cls i.cls.code.toInt)

namespace Linker

/-- Adds the implementations of a package. -/
def addImplementations (b : Bases) (p : Package) :
    List Implementation → Linker → Except InvalidReference Linker
  | [], l => .ok l
  | i :: rest, l =>
    match relocateImplementation b p i with
    | .error e => .error e
    | .ok i => addImplementations b p rest (l.addImplementation i)

/-- Adds a package to what has been linked, the global of its object being
given. -/
def append (p : Package) (packageGlobal : Nat) (l : Linker) : Except InvalidReference Linker :=
  let (methods, l) := l.internMethods (p.methods.toList.map (·.name))
  let b : Bases := {
    classes := l.classes.size
    code := l.code.size
    externals := l.externals.size
    globals := l.globalCount
    packageGlobal := packageGlobal
    methods := methods.toArray
    packages := fun name => (l.linked? name).map (·.global) }
  match relocate b p p.relocations.toList p.code with
  | .error e => .error e
  | .ok code =>
    match addImplementations b p p.implementations.toList l with
    | .error e => .error e
    | .ok l =>
      .ok { l with
        globalCount := l.globalCount + ownGlobalCount p.relocations.toList
        externals := l.externals ++ p.externals
        classes := l.classes ++ p.classes
        code := l.code ++ code }

end Linker

end EffectMachine
