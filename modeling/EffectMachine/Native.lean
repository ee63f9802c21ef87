/-
Natives: methods that are implemented outside the program.

* `Native`: what a native does, given the program and the receiver. It has to
  hand control on before it ends;
* `Registry`: natives by name;
* `Natives`: the natives that a program names, in the order of its list, so
  that an implementation can refer to one by index.
-/
import EffectMachine.Machine
import EffectMachine.Sorting
import EffectMachine.Text.Quoted

namespace EffectMachine

/-- What a native does, given the program and the receiver. -/
abbrev Native := Program → Value → MachineM Unit

/-! ### Registries -/

/-- Natives by name. -/
structure Registry where
  entries : List (String × Native) := []

namespace Registry

/-- The native of a name. -/
def get? (r : Registry) (name : String) : Option Native :=
  (r.entries.find? (·.1 = name)).map (·.2)

/-- Whether there is a native of a name. -/
def contains (r : Registry) (name : String) : Bool := (r.get? name).isSome

/-- The registry with a native of a name, in place of any former one. -/
def insert (r : Registry) (name : String) (native : Native) : Registry :=
  ⟨(name, native) :: r.entries.filter (·.1 ≠ name)⟩

/-- The registry with further natives, later ones taking the place of former
ones. -/
def insertAll (r : Registry) (entries : List (String × Native)) : Registry :=
  entries.foldl (fun r (name, native) => r.insert name native) r

/-- The number of natives. -/
def size (r : Registry) : Nat := r.entries.length

/-- The names in order. -/
def names (r : Registry) : List String :=
  sortBy (· ≤ ·) (r.entries.map (·.1))

/-- The printed form of a registry. -/
def text (r : Registry) : String :=
  "NativeRegistry \x7b names: " ++ Text.quotedList r.names ++ " \x7d"

end Registry

/-! ### Resolved natives -/

/-- The natives that a program names, in the order of its list. -/
structure Natives where
  entries : Array (String × Native) := #[]

namespace Natives

/-- The natives of a list of names. -/
def resolveList (r : Registry) : List String → Except Fault (List (String × Native))
  | [] => .ok []
  | name :: names =>
    match r.get? name with
    | none => .error (.unknownNative name)
    | some native =>
      match resolveList r names with
      | .ok rest => .ok ((name, native) :: rest)
      | .error e => .error e

/-- The natives of a list of names; the first name without one is a fault. -/
def resolve (r : Registry) (names : Array String) : Except Fault Natives :=
  match resolveList r names.toList with
  | .ok entries => .ok ⟨entries.toArray⟩
  | .error e => .error e

/-- The native at an index. -/
def get (ns : Natives) (index : UInt32) : Except Fault Native :=
  match ns.entries[index.toNat]? with
  | some (_, native) => .ok native
  | none => .error (.invalidNative index)

/-- The name of the native at an index. -/
def name (ns : Natives) (index : UInt32) : String :=
  match ns.entries[index.toNat]? with
  | some (name, _) => name
  | none => "<unknown>"

/-- The number of natives. -/
def size (ns : Natives) : Nat := ns.entries.size

/-- The printed form of resolved natives. -/
def text (ns : Natives) : String :=
  "ResolvedNatives \x7b names: " ++ Text.quotedList (ns.entries.toList.map (·.1)) ++ " \x7d"

end Natives

end EffectMachine
