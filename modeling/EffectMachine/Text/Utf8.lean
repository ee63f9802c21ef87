/-
UTF-8.

* `Utf8.encode`: the bytes of a text;
* `Utf8.decode`: the text of bytes, or where and how they stop being UTF-8;
* `Utf8.Error`: an error names the first byte of the offending sequence. A
  sequence is incomplete when the bytes end inside it with nothing wrong so
  far; otherwise its length is that of the longest part that could still have
  become a character, and at least one.
-/

namespace EffectMachine

namespace Utf8

/-- Why bytes are not UTF-8. -/
inductive Error where
  /-- The `length` bytes from `index` on belong to no character. -/
  | invalid (length index : Nat)
  /-- The bytes end inside the character that starts at `index`. -/
  | incomplete (index : Nat)
deriving DecidableEq

/-- The wording of an error. -/
def Error.message : Error → String
  | .invalid length index => s!"invalid utf-8 sequence of {length} bytes from index {index}"
  | .incomplete index => s!"incomplete utf-8 byte sequence from index {index}"

/-- The bytes of a text. -/
def encode (s : String) : List UInt8 := s.toList.flatMap String.utf8EncodeChar

/-- The number of bytes of a character by its first byte; zero for a byte that
starts none. -/
def width (first : UInt8) : Nat :=
  if first < 0x80 then 1
  else if first < 0xC2 then 0
  else if first < 0xE0 then 2
  else if first < 0xF0 then 3
  else if first < 0xF5 then 4
  else 0

/-- Whether a byte may follow the first byte of a character. -/
def isTail (b : UInt8) : Bool := 0x80 ≤ b && b ≤ 0xBF

/-- Whether a byte may stand second, after the given first byte. The bounds
shut out overlong forms, surrogates and code points past the last. -/
def isSecond (first b : UInt8) : Bool :=
  (if first = 0xE0 then 0xA0 else if first = 0xF0 then 0x90 else 0x80) ≤ b &&
    b ≤ (if first = 0xED then 0x9F else if first = 0xF4 then 0x8F else 0xBF)

/-- The six bits that a byte after the first contributes. -/
def tailBits (b : UInt8) : Nat := b.toNat - 0x80

/-- The characters of bytes that start at position `index` of the whole. -/
def decodeFrom (index : Nat) : List UInt8 → Except Error (List Char)
  | [] => .ok []
  | first :: rest =>
    match width first with
    | 1 =>
      match decodeFrom (index + 1) rest with
      | .ok cs => .ok (Char.ofNat first.toNat :: cs)
      | .error e => .error e
    | 2 =>
      match rest with
      | [] => .error (.incomplete index)
      | b :: rest =>
        if !isSecond first b then .error (.invalid 1 index)
        else
          match decodeFrom (index + 2) rest with
          | .ok cs => .ok (Char.ofNat ((first.toNat - 0xC0) * 64 + tailBits b) :: cs)
          | .error e => .error e
    | 3 =>
      match rest with
      | [] => .error (.incomplete index)
      | b :: rest =>
        if !isSecond first b then .error (.invalid 1 index)
        else
          match rest with
          | [] => .error (.incomplete index)
          | c :: rest =>
            if !isTail c then .error (.invalid 2 index)
            else
              match decodeFrom (index + 3) rest with
              | .ok cs =>
                .ok (Char.ofNat ((first.toNat - 0xE0) * 4096 + tailBits b * 64 + tailBits c) :: cs)
              | .error e => .error e
    | 4 =>
      match rest with
      | [] => .error (.incomplete index)
      | b :: rest =>
        if !isSecond first b then .error (.invalid 1 index)
        else
          match rest with
          | [] => .error (.incomplete index)
          | c :: rest =>
            if !isTail c then .error (.invalid 2 index)
            else
              match rest with
              | [] => .error (.incomplete index)
              | d :: rest =>
                if !isTail d then .error (.invalid 3 index)
                else
                  match decodeFrom (index + 4) rest with
                  | .ok cs =>
                    .ok (Char.ofNat ((first.toNat - 0xF0) * 262144 + tailBits b * 4096 +
                      tailBits c * 64 + tailBits d) :: cs)
                  | .error e => .error e
    | _ => .error (.invalid 1 index)

/-- The text of bytes. -/
def decode (bytes : List UInt8) : Except Error String :=
  match decodeFrom 0 bytes with
  | .ok cs => .ok (String.ofList cs)
  | .error e => .error e

end Utf8

end EffectMachine
