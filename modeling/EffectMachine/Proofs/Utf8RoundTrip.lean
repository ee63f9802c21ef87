/-
Texts are read back from their bytes.

* `Utf8.decodeFrom_encodeChar`: the bytes of one character are read as that character, whatever
  follows them. The cases are the four lengths of an encoding;
* `Utf8.decode_encode`: **every text is read back from its bytes**.
-/
import EffectMachine.Text.Utf8
import Mathlib.Order.Basic

namespace EffectMachine

namespace Utf8

/-! ### Bytes by their numbers -/

lemma toNat_ofNat {n : Nat} (hn : n < 256) : (UInt8.ofNat n).toNat = n :=
  UInt8.toNat_ofNat_of_lt' hn

lemma lt_iff_of_lt {n : Nat} (hn : n < 256) (b : UInt8) : UInt8.ofNat n < b ↔ n < b.toNat := by
  rw [UInt8.lt_iff_toNat_lt, toNat_ofNat hn]

lemma width_ofNat {n : Nat} (hn : n < 256) :
    width (UInt8.ofNat n) = if n < 128 then 1 else if n < 194 then 0 else if n < 224 then 2
      else if n < 240 then 3 else if n < 245 then 4 else 0 := by
  simp only [width, lt_iff_of_lt hn]
  rfl

/-- The number of a byte after the first, which carries six bits. -/
lemma toNat_tail {n : Nat} (hn : n < 64) : (UInt8.ofNat (n + 128)).toNat = n + 128 :=
  toNat_ofNat (by omega)

lemma isTail_ofNat {n : Nat} (hn : n < 64) : isTail (UInt8.ofNat (n + 128)) = true := by
  simp only [isTail, UInt8.le_iff_toNat_le, toNat_tail hn, UInt8.reduceToNat, Bool.and_eq_true,
    decide_eq_true_eq]
  omega

lemma tailBits_ofNat {n : Nat} (hn : n < 64) : tailBits (UInt8.ofNat (n + 128)) = n := by
  have htail := toNat_tail hn
  unfold tailBits
  omega

lemma ofNat_eq_iff {m : Nat} (hm : m < 256) (b : UInt8) : UInt8.ofNat m = b ↔ m = b.toNat := by
  rw [← UInt8.toNat_inj, toNat_ofNat hm]

/-- The bytes that may stand second, by what the first two contribute. -/
lemma isSecond_ofNat {m n : Nat} (hm : m < 256) (hn : n < 64) (hlow : m = 224 → 32 ≤ n)
    (hlow' : m = 240 → 16 ≤ n) (hhigh : m = 237 → n < 32) (hhigh' : m = 244 → n < 16) :
    isSecond (UInt8.ofNat m) (UInt8.ofNat (n + 128)) = true := by
  simp only [isSecond, ofNat_eq_iff hm, UInt8.reduceToNat, Bool.and_eq_true, decide_eq_true_eq]
  constructor
  all_goals
    split_ifs <;> simp only [UInt8.le_iff_toNat_le, toNat_tail hn, UInt8.reduceToNat] at * <;> omega

/-! ### One character -/

section

variable {index : Nat} {rest : List UInt8} {m a b c : Nat}

lemma decodeFrom_one (hm : m < 128) :
    decodeFrom index (UInt8.ofNat m :: rest) =
      (decodeFrom (index + 1) rest).map (Char.ofNat m :: ·) := by
  have hwidth : width (UInt8.ofNat m) = 1 := by rw [width_ofNat (by omega), if_pos hm]
  rw [decodeFrom.eq_def]
  simp only [hwidth, toNat_ofNat (Nat.lt_trans hm (by decide))]
  cases decodeFrom (index + 1) rest <;> rfl

lemma decodeFrom_two (hm : 2 ≤ m) (hm' : m < 32) (ha : a < 64) :
    decodeFrom index (UInt8.ofNat (m + 192) :: UInt8.ofNat (a + 128) :: rest) =
      (decodeFrom (index + 2) rest).map (Char.ofNat (m * 64 + a) :: ·) := by
  have hwidth : width (UInt8.ofNat (m + 192)) = 2 := by
    rw [width_ofNat (by omega), if_neg (by omega), if_neg (by omega), if_pos (by omega)]
  have hnat : (UInt8.ofNat (m + 192)).toNat = m + 192 := toNat_ofNat (by omega)
  have hsecond : isSecond (UInt8.ofNat (m + 192)) (UInt8.ofNat (a + 128)) = true :=
    isSecond_ofNat (by omega) ha (by omega) (by omega) (by omega) (by omega)
  rw [decodeFrom.eq_def]
  simp only [hwidth, hnat, hsecond, tailBits_ofNat ha, Nat.add_sub_cancel]
  cases decodeFrom (index + 2) rest <;> rfl

lemma decodeFrom_three (hm : m < 16) (ha : a < 64) (hb : b < 64) (hlow : m = 0 → 32 ≤ a)
    (hhigh : m = 13 → a < 32) :
    decodeFrom index
        (UInt8.ofNat (m + 224) :: UInt8.ofNat (a + 128) :: UInt8.ofNat (b + 128) :: rest) =
      (decodeFrom (index + 3) rest).map (Char.ofNat (m * 4096 + a * 64 + b) :: ·) := by
  have hwidth : width (UInt8.ofNat (m + 224)) = 3 := by
    rw [width_ofNat (by omega), if_neg (by omega), if_neg (by omega), if_neg (by omega),
      if_pos (by omega)]
  have hnat : (UInt8.ofNat (m + 224)).toNat = m + 224 := toNat_ofNat (by omega)
  have hsecond : isSecond (UInt8.ofNat (m + 224)) (UInt8.ofNat (a + 128)) = true :=
    isSecond_ofNat (by omega) ha (by omega) (by omega) (by omega) (by omega)
  rw [decodeFrom.eq_def]
  simp only [hwidth, hnat, hsecond, isTail_ofNat hb, tailBits_ofNat ha, tailBits_ofNat hb,
    Nat.add_sub_cancel]
  cases decodeFrom (index + 3) rest <;> rfl

lemma decodeFrom_four (hm : m < 5) (ha : a < 64) (hb : b < 64) (hc : c < 64)
    (hlow : m = 0 → 16 ≤ a) (hhigh : m = 4 → a < 16) :
    decodeFrom index
        (UInt8.ofNat (m + 240) :: UInt8.ofNat (a + 128) :: UInt8.ofNat (b + 128) ::
          UInt8.ofNat (c + 128) :: rest) =
      (decodeFrom (index + 4) rest).map
        (Char.ofNat (m * 262144 + a * 4096 + b * 64 + c) :: ·) := by
  have hwidth : width (UInt8.ofNat (m + 240)) = 4 := by
    rw [width_ofNat (by omega), if_neg (by omega), if_neg (by omega), if_neg (by omega),
      if_neg (by omega), if_pos (by omega)]
  have hnat : (UInt8.ofNat (m + 240)).toNat = m + 240 := toNat_ofNat (by omega)
  have hsecond : isSecond (UInt8.ofNat (m + 240)) (UInt8.ofNat (a + 128)) = true :=
    isSecond_ofNat (by omega) ha (by omega) (by omega) (by omega) (by omega)
  rw [decodeFrom.eq_def]
  simp only [hwidth, hnat, hsecond, isTail_ofNat hb, isTail_ofNat hc, tailBits_ofNat ha,
    tailBits_ofNat hb, tailBits_ofNat hc, Nat.add_sub_cancel]
  cases decodeFrom (index + 4) rest <;> rfl

end

/-- **The bytes of a character are read as that character**, whatever follows them. -/
lemma decodeFrom_encodeChar (index : Nat) (c : Char) (rest : List UInt8) :
    decodeFrom index (String.utf8EncodeChar c ++ rest) =
      (decodeFrom (index + (String.utf8EncodeChar c).length) rest).map (c :: ·) := by
  have hvalid : c.val.toNat < 55296 ∨ 57343 < c.val.toNat ∧ c.val.toNat < 1114112 := c.valid
  have hchar : ∀ n, n = c.val.toNat → Char.ofNat n = c := fun n hn => hn ▸ c.ofNat_toNat
  unfold String.utf8EncodeChar
  dsimp only
  split_ifs with hone htwo hthree
  · rw [List.singleton_append, decodeFrom_one (by omega), hchar _ rfl]
    rfl
  · rw [List.cons_append, List.singleton_append, decodeFrom_two (by omega) (by omega) (by omega),
      hchar _ (by omega)]
    rfl
  · rw [List.cons_append, List.cons_append, List.singleton_append,
      decodeFrom_three (by omega) (by omega) (by omega) (by omega) (by omega), hchar _ (by omega)]
    rfl
  · rw [List.cons_append, List.cons_append, List.cons_append, List.singleton_append,
      decodeFrom_four (by omega) (by omega) (by omega) (by omega) (by omega) (by omega),
      hchar _ (by omega)]
    rfl

lemma decodeFrom_flatMap (index : Nat) (cs : List Char) :
    decodeFrom index (cs.flatMap String.utf8EncodeChar) = .ok cs := by
  induction cs generalizing index with
  | nil => rfl
  | cons c cs ih => rw [List.flatMap_cons, decodeFrom_encodeChar, ih]; rfl

/-- **Every text is read back from its bytes.** -/
lemma decode_encode (s : String) : decode (encode s) = .ok s := by
  rw [decode, encode, decodeFrom_flatMap]
  exact congrArg Except.ok s.ofList_toList

end Utf8

end EffectMachine
