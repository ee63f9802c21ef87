/-
Reading JSON.

The grammar is the strict one: no trailing commas, comments or leading zeros,
no raw control characters in strings, and nothing but blanks after the value.

* `Json.readString`: the units of a string literal, an escape giving one
  UTF-16 unit and any other character its code point;
* `Json.pairUnits`: the text of such units, if every surrogate has its partner;
* `Json.readNumber`: a number literal;
* `Json.parse?`: a whole text. Reading a value takes at least one character
  off the text for every two calls, which bounds the nesting of the calls.
-/
import EffectMachine.Json.Basic

namespace EffectMachine

namespace Json

/-- Whether a character may stand between tokens. -/
def isBlank (c : Char) : Bool :=
  c = ' ' || c = '\t' || c = '\n' || c = '\r'

/-- The text after the blanks at its front. -/
def skipBlanks (cs : List Char) : List Char := cs.dropWhile isBlank

/-! ### Strings -/

/-- The value of a hexadecimal digit. -/
def hexValue? (c : Char) : Option Nat :=
  if '0' ≤ c && c ≤ '9' then some (c.toNat - 48)
  else if 'a' ≤ c && c ≤ 'f' then some (c.toNat - 87)
  else if 'A' ≤ c && c ≤ 'F' then some (c.toNat - 55)
  else none

/-- The unit that four hexadecimal digits denote. -/
def hexUnit? (a b c d : Char) : Option Nat := do
  return (← hexValue? a) * 4096 + (← hexValue? b) * 256 + (← hexValue? c) * 16 + (← hexValue? d)

/-- The unit of an escape of one character. -/
def escapeUnit? : Char → Option Nat
  | '"' => some 34
  | '\\' => some 92
  | '/' => some 47
  | 'b' => some 8
  | 'f' => some 12
  | 'n' => some 10
  | 'r' => some 13
  | 't' => some 9
  | _ => none

/-- The units of a string literal whose opening quote has been read, and the
text behind its closing quote. -/
def readString : List Char → Option (List Nat × List Char)
  | [] => none
  | '"' :: rest => some ([], rest)
  | '\\' :: 'u' :: a :: b :: c :: d :: rest =>
    match hexUnit? a b c d, readString rest with
    | some unit, some (units, rest) => some (unit :: units, rest)
    | _, _ => none
  | '\\' :: c :: rest =>
    match escapeUnit? c, readString rest with
    | some unit, some (units, rest) => some (unit :: units, rest)
    | _, _ => none
  | c :: rest =>
    if c.toNat < 32 || c = '\\' then none
    else
      match readString rest with
      | some (units, rest) => some (c.toNat :: units, rest)
      | none => none

/-- Whether a unit opens a surrogate pair. -/
def isHighSurrogate (unit : Nat) : Bool := 0xD800 ≤ unit && unit ≤ 0xDBFF

/-- Whether a unit closes a surrogate pair. -/
def isLowSurrogate (unit : Nat) : Bool := 0xDC00 ≤ unit && unit ≤ 0xDFFF

/-- The characters of a list of units, if every surrogate has its partner. -/
def pairUnits : List Nat → Option (List Char)
  | [] => some []
  | high :: low :: rest =>
    if isHighSurrogate high then
      if isLowSurrogate low then
        (pairUnits rest).map
          (Char.ofNat (0x10000 + (high - 0xD800) * 0x400 + (low - 0xDC00)) :: ·)
      else none
    else if isLowSurrogate high then none
    else (pairUnits (low :: rest)).map (Char.ofNat high :: ·)
  | [unit] =>
    if isHighSurrogate unit || isLowSurrogate unit then none else some [Char.ofNat unit]

/-- The text of a list of units. -/
def textOfUnits (units : List Nat) : Text := (pairUnits units).map String.ofList

/-! ### Numbers -/

/-- One or more digits at the front of a text, and what follows them. -/
def readDigits (cs : List Char) : Option (List Char × List Char) :=
  match cs.takeWhile isDigit with
  | [] => none
  | d :: ds => some (d :: ds, cs.dropWhile isDigit)

/-- The whole part of a number: a single zero, or digits that do not start
with one. -/
def readWhole : List Char → Option (List Char × List Char)
  | '0' :: rest => some (['0'], rest)
  | cs => readDigits cs

/-- The fraction of a number, which may be missing. -/
def readFraction : List Char → Option (List Char × List Char)
  | '.' :: rest => (readDigits rest).map fun (ds, rest) => ('.' :: ds, rest)
  | cs => some ([], cs)

/-- The exponent of a number, which may be missing. -/
def readExponent : List Char → Option (List Char × List Char)
  | [] => some ([], [])
  | e :: cs =>
    if e = 'e' || e = 'E' then
      match cs with
      | '+' :: rest => (readDigits rest).map fun (ds, rest) => (e :: '+' :: ds, rest)
      | '-' :: rest => (readDigits rest).map fun (ds, rest) => (e :: '-' :: ds, rest)
      | _ => (readDigits cs).map fun (ds, rest) => (e :: ds, rest)
    else some ([], e :: cs)

/-- A number without its sign, and what follows it. -/
def readUnsigned (negative : Bool) (cs : List Char) : Option (Json × List Char) := do
  let (whole, rest) ← readWhole cs
  let (fraction, rest) ← readFraction rest
  let (exponent, rest) ← readExponent rest
  let tail := fraction ++ exponent
  if tail.isEmpty && !(negative && whole == ['0']) then
    let n : Int := ofDigits whole
    return (integer (if negative then -n else n), rest)
  else
    let sign := if negative then ['-'] else []
    return (decimal (String.ofList (sign ++ whole ++ tail)), rest)

/-- A number, and what follows it. -/
def readNumber : List Char → Option (Json × List Char)
  | '-' :: rest => readUnsigned true rest
  | cs => readUnsigned false cs

/-! ### Values -/

mutual

/-- A value at the front of a text, after any blanks, and what follows it. -/
def readValue : Nat → List Char → Option (Json × List Char)
  | 0, _ => none
  | fuel + 1, cs =>
    match skipBlanks cs with
    | 'n' :: 'u' :: 'l' :: 'l' :: rest => some (null, rest)
    | 't' :: 'r' :: 'u' :: 'e' :: rest => some (bool true, rest)
    | 'f' :: 'a' :: 'l' :: 's' :: 'e' :: rest => some (bool false, rest)
    | '"' :: rest => (readString rest).map fun (units, rest) => (string (textOfUnits units), rest)
    | '[' :: rest =>
      match skipBlanks rest with
      | ']' :: rest => some (array [], rest)
      | rest => (readItems fuel rest).map fun (items, rest) => (array items, rest)
    | '{' :: rest =>
      match skipBlanks rest with
      | '}' :: rest => some (object [], rest)
      | rest => (readMembers fuel rest).map fun (members, rest) => (object members, rest)
    | rest => readNumber rest

/-- The items of an array up to and with its closing bracket. -/
def readItems : Nat → List Char → Option (List Json × List Char)
  | 0, _ => none
  | fuel + 1, cs =>
    match readValue fuel cs with
    | none => none
    | some (item, rest) =>
      match skipBlanks rest with
      | ']' :: rest => some ([item], rest)
      | ',' :: rest => (readItems fuel rest).map fun (items, rest) => (item :: items, rest)
      | _ => none

/-- The members of an object up to and with its closing brace. -/
def readMembers : Nat → List Char → Option (List (Text × Json) × List Char)
  | 0, _ => none
  | fuel + 1, cs =>
    match skipBlanks cs with
    | '"' :: rest =>
      match readString rest with
      | none => none
      | some (units, rest) =>
        match skipBlanks rest with
        | ':' :: rest =>
          match readValue fuel rest with
          | none => none
          | some (value, rest) =>
            match skipBlanks rest with
            | '}' :: rest => some ([(textOfUnits units, value)], rest)
            | ',' :: rest =>
              (readMembers fuel rest).map fun (members, rest) =>
                ((textOfUnits units, value) :: members, rest)
            | _ => none
        | _ => none
    | _ => none

end

/-- The value that a text denotes, if it is well formed. -/
def parse? (text : String) : Option Json :=
  match readValue (2 * text.length + 2) text.toList with
  | some (value, rest) => if (skipBlanks rest).isEmpty then some value else none
  | none => none

end Json

end EffectMachine
