/-
Why packages cannot be linked.

* `InvalidReference`: something in a package refers to what is not there;
* `LinkError`: every way in which linking can fail, with its wording.
-/
import EffectMachine.Package

namespace EffectMachine

/-- Something in a package that refers to what is not there. -/
inductive InvalidReference where
  | cls (id : Int)
  | imported (id : Int)
  | method (id : Int)
  /-- An import that has not been linked. -/
  | notLinked (name : String)
  /-- A relocation whose word does not lie inside the code. -/
  | relocation (pos : Nat)
deriving DecidableEq

/-- The wording of an invalid reference. -/
def InvalidReference.message : InvalidReference → String
  | .cls id => s!"class {id} out of range"
  | .imported id => s!"import {id} out of range"
  | .method id => s!"method {id} out of range"
  | .notLinked name => s!"import {name} not linked"
  | .relocation pos => s!"relocation at {pos} outside code"

/-- Why packages cannot be linked. -/
inductive LinkError where
  /-- Packages import each other in a circle, listed from the first to the
  first again. -/
  | circularImport (cycle : List String)
  | missingPackage (name : String)
  /-- No package declares the main method. -/
  | missingMainMethod
  | duplicateBuiltin (kind : ClassKind) (first second : ClassId)
  | duplicateImplementation (method : String) (cls : ClassId)
  | invalidPackage (package : String) (reason : InvalidReference)
  /-- The file of a package cannot be read or written. -/
  | unreadable (package : String)
  /-- The file of a package holds no package. -/
  | malformed (package : String)
deriving DecidableEq

/-- The wording of a link error. -/
def LinkError.message : LinkError → String
  | .circularImport cycle => "Circular import: " ++ " -> ".intercalate cycle
  | .missingPackage name => s!"Missing package: {name}"
  | .missingMainMethod => "Missing main method"
  | .duplicateBuiltin kind first second =>
    s!"Builtin kind {kind.name} declared by both {first.text} and {second.text}"
  | .duplicateImplementation method cls =>
    s!"Method {method} implemented twice for {cls.text}"
  | .invalidPackage package reason => s!"Invalid package {package}: {reason.message}"
  | .unreadable package => s!"Cannot read package {package}"
  | .malformed package => s!"Cannot decode package {package}"

end EffectMachine
