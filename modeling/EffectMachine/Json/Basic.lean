/-
JSON values.

A value keeps what its reader may want to tell apart: the members of an object
stay in written order, repeated keys included, and an integer literal is not
the same as a number written with a fraction or an exponent.

* `Json`: the values;
* `Json.Text`: what a string literal denotes. A literal whose escapes leave a
  surrogate without its partner is well formed and denotes no text.
* `Json.digits` and `Json.ofDigits`: decimal numerals.
-/

namespace EffectMachine

namespace Json

/-- The text that a string literal denotes; `none` when its escapes leave a
surrogate without its partner. -/
abbrev Text := Option String

end Json

/-- A JSON value. -/
inductive Json where
  | null
  | bool (value : Bool)
  /-- A number written as an integer literal other than `-0`. -/
  | integer (value : Int)
  /-- Any other number, as written. -/
  | decimal (literal : String)
  | string (text : Json.Text)
  | array (items : List Json)
  | object (members : List (Json.Text × Json))

namespace Json

instance : Inhabited Json := ⟨null⟩

/-- The string value of a text. -/
def ofString (s : String) : Json := string (some s)

/-- The integer value of a natural number. -/
def ofNat (n : Nat) : Json := integer n

/-- An object from keys and values in written order. -/
def ofMembers (members : List (String × Json)) : Json :=
  object (members.map fun (key, value) => (some key, value))

/-- The first value under a key of an object. -/
def get? (j : Json) (key : String) : Option Json :=
  match j with
  | object members => (members.find? (·.1 = some key)).map (·.2)
  | _ => none

/-! ### Decimal numerals -/

/-- The character of a digit below ten. -/
def digitChar (d : Nat) : Char := Char.ofNat (48 + d)

/-- The value of a decimal digit. -/
def digitValue (c : Char) : Nat := c.toNat - 48

/-- Whether a character is a decimal digit. -/
def isDigit (c : Char) : Bool := '0' ≤ c && c ≤ '9'

/-- The decimal numeral of a natural number, without leading zeros. -/
def digits (n : Nat) : List Char :=
  if n < 10 then [digitChar n] else digits (n / 10) ++ [digitChar (n % 10)]

/-- The number that a decimal numeral denotes. -/
def ofDigits (cs : List Char) : Nat :=
  cs.foldl (fun n c => 10 * n + digitValue c) 0

end Json

end EffectMachine
