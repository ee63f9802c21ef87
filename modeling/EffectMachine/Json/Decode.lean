/-
Reading typed data out of JSON values.

* `Json.toInt32?`, `Json.toUInt32?`, `Json.toUInt8?`: integer literals inside
  the range of a word;
* `Json.variant?`: a named alternative, written as its name or as an object
  with the name for its only key and `null` for its value;
* `Json.fields?`: the fields of a record, written as an object or as a list in
  the order of the fields. An object may have further keys; a key of the record
  may occur once only.
-/
import EffectMachine.Json.Basic

namespace EffectMachine

namespace Json

/-! ### Scalars -/

/-- A signed word. -/
def toInt32? : Json → Option Int32
  | integer n => if -2147483648 ≤ n ∧ n ≤ 2147483647 then some (Int32.ofInt n) else none
  | _ => none

/-- An unsigned word. -/
def toUInt32? : Json → Option UInt32
  | integer n => if 0 ≤ n ∧ n ≤ 4294967295 then some (UInt32.ofNat n.toNat) else none
  | _ => none

/-- A byte. -/
def toUInt8? : Json → Option UInt8
  | integer n => if 0 ≤ n ∧ n ≤ 255 then some (UInt8.ofNat n.toNat) else none
  | _ => none

/-- A text. -/
def toString? : Json → Option String
  | string text => text
  | _ => none

/-! ### Composite data -/

/-- A list of data of one type. -/
def toArray? {α : Type} (item? : Json → Option α) : Json → Option (Array α)
  | array items => (items.mapM item?).map List.toArray
  | _ => none

/-- A named alternative. -/
def variant? {α : Type} (ofName? : String → Option α) : Json → Option α
  | string (some name) => ofName? name
  | object [(some name, null)] => ofName? name
  | _ => none

/-- The value of each named field of a record, `none` for a field that is not
written. -/
def fields? (names : List String) : Json → Option (List (Option Json))
  | object members =>
    if members.all (·.1.isSome) && names.all fun name => members.countP (·.1 = some name) ≤ 1 then
      some (names.map fun name => (members.find? (·.1 = some name)).map (·.2))
    else none
  | array items =>
    if items.length ≤ names.length then
      some (items.map some ++ List.replicate (names.length - items.length) none)
    else none
  | _ => none

/-- A field that has to be written. -/
def required {α : Type} (read? : Json → Option α) : Option Json → Option α
  | some j => read? j
  | none => none

/-- A field that may be left out. -/
def optional {α : Type} (read? : Json → Option α) (default : α) : Option Json → Option α
  | some j => read? j
  | none => some default

end Json

end EffectMachine
