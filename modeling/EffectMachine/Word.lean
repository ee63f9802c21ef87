/-
Little-endian words inside code.

* `Word.bytes`: the four bytes of a 32-bit word, lowest first;
* `Word.ofBytes`: the word of four bytes, with `ofBytes_bytes`;
* `Word.read?` and `Word.patch?`: reading and overwriting the word at a byte
  position, refused when its four bytes do not lie inside the code.
-/

namespace EffectMachine

/-- Machine code, byte by byte. -/
abbrev Code := Array UInt8

namespace Word

/-- The four bytes of a word, lowest first. -/
def bytes (w : UInt32) : List UInt8 :=
  [w.toUInt8, (w >>> 8).toUInt8, (w >>> 16).toUInt8, (w >>> 24).toUInt8]

/-- The word whose bytes, lowest first, are the four given ones. -/
def ofBytes (b₀ b₁ b₂ b₃ : UInt8) : UInt32 :=
  b₀.toUInt32 + b₁.toUInt32 * 256 + b₂.toUInt32 * 65536 + b₃.toUInt32 * 16777216

/-- The word stored at `pos`, if its four bytes lie inside the code. -/
def read? (code : Code) (pos : Nat) : Option UInt32 := do
  let b₀ ← code[pos]?
  let b₁ ← code[pos + 1]?
  let b₂ ← code[pos + 2]?
  let b₃ ← code[pos + 3]?
  return ofBytes b₀ b₁ b₂ b₃

/-- The code with the word at `pos` replaced by `w`, if the four bytes to
overwrite lie inside it. -/
def patch? (code : Code) (pos : Nat) (w : UInt32) : Option Code :=
  if pos + 4 ≤ code.size then
    some ((((code.setIfInBounds pos w.toUInt8).setIfInBounds (pos + 1) (w >>> 8).toUInt8)
      |>.setIfInBounds (pos + 2) (w >>> 16).toUInt8)
      |>.setIfInBounds (pos + 3) (w >>> 24).toUInt8)
  else none

@[simp] theorem ofBytes_bytes (w : UInt32) :
    ofBytes w.toUInt8 (w >>> 8).toUInt8 (w >>> 16).toUInt8 (w >>> 24).toUInt8 = w := by
  have hw := w.toNat_lt
  -- In the naturals the four bytes are the digits of `w` to the base 256.
  refine UInt32.toNat_inj.mp ?_
  simp [ofBytes, Nat.shiftRight_eq_div_pow]
  omega

@[simp] theorem length_bytes (w : UInt32) : (bytes w).length = 4 := rfl

end Word

end EffectMachine
