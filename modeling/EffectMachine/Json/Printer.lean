/-
Writing JSON.

Two layouts share the writing of scalars. The compact one has no blanks. The
indented one puts every item and member on a line of its own, two blanks
deeper than what encloses it, a blank after each colon, and writes an empty
array or object as a pair of brackets.

* `Json.stringLiteral`: quotes, backslashes and control characters are
  escaped, everything else stands as it is;
* `Json.compact` and `Json.indented`: the two layouts.
-/
import EffectMachine.Json.Basic

namespace EffectMachine

namespace Json

/-! ### Scalars -/

/-- The hexadecimal digit of a number below sixteen, in lower case. -/
def hexDigit (d : Nat) : Char :=
  if d < 10 then Char.ofNat (48 + d) else Char.ofNat (87 + d)

/-- A character inside a string literal. -/
def escape (c : Char) : List Char :=
  match c with
  | '"' => ['\\', '"']
  | '\\' => ['\\', '\\']
  | '\n' => ['\\', 'n']
  | '\r' => ['\\', 'r']
  | '\t' => ['\\', 't']
  | c =>
    if c.toNat = 8 then ['\\', 'b']
    else if c.toNat = 12 then ['\\', 'f']
    else if c.toNat < 32 then
      ['\\', 'u', '0', '0', hexDigit (c.toNat / 16), hexDigit (c.toNat % 16)]
    else [c]

/-- The literal of a text. -/
def stringLiteral (s : String) : List Char :=
  '"' :: s.toList.flatMap escape ++ ['"']

/-- A literal for what a string denotes: a lone surrogate stands for no
text. -/
def textLiteral : Text → List Char
  | some s => stringLiteral s
  | none => ['"', '\\', 'u', 'd', '8', '0', '0', '"']

/-- The numeral of an integer. -/
def integerLiteral : Int → List Char
  | .ofNat n => digits n
  | .negSucc n => '-' :: digits (n + 1)

/-- The literal of a truth value. -/
def boolLiteral (b : Bool) : List Char :=
  if b then ['t', 'r', 'u', 'e'] else ['f', 'a', 'l', 's', 'e']

/-! ### The compact layout -/

mutual

/-- The characters of a value without blanks. -/
def compactChars : Json → List Char
  | null => ['n', 'u', 'l', 'l']
  | bool b => boolLiteral b
  | integer n => integerLiteral n
  | decimal literal => literal.toList
  | string text => textLiteral text
  | array items => '[' :: compactItems items ++ [']']
  | object members => '{' :: compactMembers members ++ ['}']

/-- The items of an array, divided by commas. -/
def compactItems : List Json → List Char
  | [] => []
  | [item] => compactChars item
  | item :: rest => compactChars item ++ ',' :: compactItems rest

/-- The members of an object, divided by commas. -/
def compactMembers : List (Text × Json) → List Char
  | [] => []
  | [(key, value)] => textLiteral key ++ ':' :: compactChars value
  | (key, value) :: rest =>
    textLiteral key ++ ':' :: (compactChars value ++ ',' :: compactMembers rest)

end

/-- A value in the compact layout. -/
def compact (j : Json) : String := String.ofList j.compactChars

/-! ### The indented layout -/

/-- The end of a line and the indentation of the next. -/
def newline (depth : Nat) : List Char := '\n' :: List.replicate (2 * depth) ' '

mutual

/-- The characters of a value that starts at a depth of nesting. -/
def indentedChars (depth : Nat) : Json → List Char
  | null => ['n', 'u', 'l', 'l']
  | bool b => boolLiteral b
  | integer n => integerLiteral n
  | decimal literal => literal.toList
  | string text => textLiteral text
  | array [] => ['[', ']']
  | array (item :: rest) =>
    '[' :: indentedItems (depth + 1) (item :: rest) ++ newline depth ++ [']']
  | object [] => ['{', '}']
  | object (member :: rest) =>
    '{' :: indentedMembers (depth + 1) (member :: rest) ++ newline depth ++ ['}']

/-- The items of an array, each on a line of its own. -/
def indentedItems (depth : Nat) : List Json → List Char
  | [] => []
  | [item] => newline depth ++ indentedChars depth item
  | item :: rest =>
    newline depth ++ indentedChars depth item ++ ',' :: indentedItems depth rest

/-- The members of an object, each on a line of its own. -/
def indentedMembers (depth : Nat) : List (Text × Json) → List Char
  | [] => []
  | [(key, value)] =>
    newline depth ++ textLiteral key ++ ':' :: ' ' :: indentedChars depth value
  | (key, value) :: rest =>
    newline depth ++ textLiteral key ++ ':' :: ' ' ::
      (indentedChars depth value ++ ',' :: indentedMembers depth rest)

end

/-- A value in the indented layout. -/
def indented (j : Json) : String := String.ofList (j.indentedChars 0)

end Json

end EffectMachine
