/-
Linking the closure of imports.

Packages are linked depth first: all imports of a package before the package
itself, and each package once. A package met again while its own imports are
being linked closes a circle.

* `Source`: where packages come from, with a bound on how deep imports can be
  nested. Nested imports are different packages, so the bound only has to exceed
  the number of different packages that can be loaded;
* `Linker.linkPackage`: one package, its imports being linked;
* `Linker.importPackage`: a package with everything that it imports.
-/
import EffectMachine.Link.Relocation

namespace EffectMachine

/-- Where packages come from. -/
structure Source where
  /-- The package of a name. -/
  load : String → Except LinkError Package
  /-- What loading a package reports. -/
  reports : String → List Entry
  /-- More than the number of packages of different names that can be loaded. -/
  bound : Nat

/-- An operation on the linker's state. -/
abbrev LinkM := EStateM LinkError Linker

namespace Linker

/-- The circle that importing `name` again closes. -/
def cycle (inProgress : List String) (name : String) : List String :=
  inProgress.dropWhile (· ≠ name) ++ [name]

/-- Links a package whose imports have been linked: a global for its object, a
class to initialise it, whose code is the code of the package, and the package
itself. -/
def linkPackage (name : String) (p : Package) (l : Linker) : Except LinkError Linker :=
  let global := l.globalCount
  let cls := ClassId.ofIndex l.classes.size
  let start : Implementation := ⟨cls, .call, .standard, UInt32.ofNat l.code.size⟩
  let l := { l with
    globalCount := global + 1
    classes := l.classes.push ⟨"PackageInit", .user, 0⟩ }
  match (l.addImplementation start).append p global with
  | .error reason => .error (.invalidPackage name reason)
  | .ok l =>
    let l := { l with
      completed := l.completed.push ⟨name, global, cls⟩
      inProgress := l.inProgress.dropLast }
    .ok (l.record (.linkedPackage name global cls))

/-- Marks a package as one whose imports are being linked. -/
def enter (name : String) (l : Linker) : Linker :=
  { l with inProgress := l.inProgress ++ [name] }

/-- Links a package and everything that it imports, unless that has been done.
Imports nested deeper than allowed cannot be loaded. -/
def importPackage (source : Source) : Nat → String → LinkM Unit
  | depth, name => do
    let l ← get
    if (l.linked? name).isSome then return
    if l.inProgress.contains name then throw (.circularImport (cycle l.inProgress name))
    match depth with
    | 0 => throw (.missingPackage name)
    | depth + 1 =>
      set ((source.reports name).foldl (fun l e => l.record e) (l.enter name))
      match source.load name with
      | .error e => throw e
      | .ok p =>
        (p.imports.toList.filter (· ≠ Package.self)).forM (importPackage source depth)
        match (← get).linkPackage name p with
        | .error e => throw e
        | .ok l => set l

end Linker

end EffectMachine
