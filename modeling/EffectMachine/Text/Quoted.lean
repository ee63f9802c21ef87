/-
Quoted text, as lists of names are printed.

* `Text.quoted`: a text between quotes, with everything escaped that would not
  show as itself;
* `Text.quotedList`: a list of texts between brackets.
-/
import EffectMachine.Text.Invisible

namespace EffectMachine

namespace Text

/-- A character as its code point in hexadecimal. -/
def codePoint (c : Char) : List Char :=
  ['\\', 'u', '\x7b'] ++ Nat.toDigits 16 c.toNat ++ ['\x7d']

/-- A character inside quotes. The quote, the backslash and the usual control
characters have short escapes; any other character that does not show on its
own is written as its code point. -/
def quoteChar (c : Char) : List Char :=
  match c with
  | '"' => ['\\', '"']
  | '\\' => ['\\', '\\']
  | '\n' => ['\\', 'n']
  | '\r' => ['\\', 'r']
  | '\t' => ['\\', 't']
  | '\x00' => ['\\', '0']
  | c => if isInvisible c then codePoint c else [c]

/-- A text between quotes. -/
def quoted (s : String) : String :=
  String.ofList ('"' :: s.toList.flatMap quoteChar ++ ['"'])

/-- A list of texts between brackets. -/
def quotedList (texts : List String) : String :=
  "[" ++ ", ".intercalate (texts.map quoted) ++ "]"

end Text

end EffectMachine
