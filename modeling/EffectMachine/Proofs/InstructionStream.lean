/-
Instructions one after the other.

Encoded instructions can be read back wherever they stand, whatever stands around them. So a code
that is made of encoded instructions decodes into them, each at the position at which those
before it end.

* `Stands`: bytes stand in a code at a position;
* `Word.read?_of_stands`, `Word.patch?_middle`: reading and replacing a word that stands there;
* `Instruction.decode_of_stands`: **an encoded instruction is read back**;
* `Instruction.placed`: instructions with their positions, and `Instruction.mem_positions`: where
  instructions begin;
* `Instruction.decodeFrom_of_stands`: **encoded instructions are read back**, up to the end of the
  code.
-/
import EffectMachine.Instruction
import Mathlib.Algebra.Order.Ring.Nat
import Mathlib.Tactic.Common

namespace EffectMachine

/-! ### Bytes in code -/

/-- The bytes stand in the code, from a position on. -/
def Stands (code : Code) : Nat → List UInt8 → Prop
  | _, [] => True
  | pos, byte :: bytes => code[pos]? = some byte ∧ Stands code (pos + 1) bytes

namespace Stands

variable {code : Code} {pos : Nat} {bytes bytes' : List UInt8}

lemma append_iff : Stands code pos (bytes ++ bytes') ↔
    Stands code pos bytes ∧ Stands code (pos + bytes.length) bytes' := by
  induction bytes generalizing pos with
  | nil => simp [Stands]
  | cons byte bytes ih =>
      have hpos : pos + 1 + bytes.length = pos + (byte :: bytes).length := by
        rw [List.length_cons]
        omega
      simp only [List.cons_append, Stands, ih, hpos, and_assoc]

/-- Bytes stand where those before them end. -/
lemma of_toList {before after : List UInt8} (h : code.toList = before ++ bytes ++ after) :
    Stands code before.length bytes := by
  induction bytes generalizing before with
  | nil => trivial
  | cons byte bytes ih =>
      refine ⟨?_, ?_⟩
      · rw [← Array.getElem?_toList, h]
        simp
      · have hrest : Stands code (before ++ [byte]).length bytes := ih (by simpa using h)
        rwa [List.length_append, List.length_singleton] at hrest

/-- Bytes that stand in a part of a code stand in the code. -/
lemma of_part {part : Code} {before after : List UInt8} (h : Stands part pos bytes)
    (hcode : code.toList = before ++ part.toList ++ after) :
    Stands code (before.length + pos) bytes := by
  induction bytes generalizing pos with
  | nil => trivial
  | cons byte bytes ih =>
      obtain ⟨hbyte, hrest⟩ := h
      obtain ⟨hlt, -⟩ := Array.getElem?_eq_some_iff.mp hbyte
      refine ⟨?_, ih hrest⟩
      rw [← Array.getElem?_toList, hcode, List.append_assoc,
        List.getElem?_append_right (Nat.le_add_right _ _), Nat.add_sub_cancel_left,
        List.getElem?_append_left hlt, Array.getElem?_toList, hbyte]

lemma getElem? (h : Stands code pos bytes) {k : Nat} (hk : k < bytes.length) :
    code[pos + k]? = bytes[k]? := by
  induction bytes generalizing pos k with
  | nil => cases hk
  | cons byte bytes ih =>
      obtain ⟨hbyte, hrest⟩ := h
      cases k with
      | zero => exact hbyte
      | succ k =>
          rw [List.getElem?_cons_succ, ← ih hrest (Nat.lt_of_succ_lt_succ hk)]
          congr 1
          omega

end Stands

/-! ### Words -/

namespace Word

lemma read?_of_stands {code : Code} {pos : Nat} {w : UInt32} (h : Stands code pos (bytes w)) :
    read? code pos = some w := by
  obtain ⟨h₀, h₁, h₂, h₃, -⟩ := h
  simp only [read?, h₀, h₁, h₂, h₃, Option.bind_eq_bind, Option.bind_some, Option.pure_def,
    ofBytes_bytes]

lemma size_of_patch? {code code' : Code} {pos : Nat} {w : UInt32}
    (h : patch? code pos w = some code') : code'.size = code.size := by
  rw [patch?] at h
  split at h
  · cases h
    simp only [Array.size_setIfInBounds]
  · cases h

lemma stands_of_patch? {code code' : Code} {pos : Nat} {w : UInt32}
    (h : patch? code pos w = some code') : Stands code' pos (bytes w) := by
  rw [patch?] at h
  split at h
  · rename_i hroom
    cases h
    simp only [bytes, Stands, Array.getElem?_setIfInBounds, Array.size_setIfInBounds]
    grind
  · cases h

lemma getElem?_patch?_of_apart {code code' : Code} {pos j : Nat} {w : UInt32}
    (h : patch? code pos w = some code') (hj : j < pos ∨ pos + 4 ≤ j) : code'[j]? = code[j]? := by
  rw [patch?] at h
  split at h
  · cases h
    rw [Array.getElem?_setIfInBounds_ne (by omega), Array.getElem?_setIfInBounds_ne (by omega),
      Array.getElem?_setIfInBounds_ne (by omega), Array.getElem?_setIfInBounds_ne (by omega)]
  · cases h

lemma stands_of_patch?_of_apart {code code' : Code} {pos at' : Nat} {w : UInt32}
    {bs : List UInt8} (h : patch? code pos w = some code') (hstands : Stands code at' bs)
    (hapart : at' + bs.length ≤ pos ∨ pos + 4 ≤ at') : Stands code' at' bs := by
  induction bs generalizing at' with
  | nil => trivial
  | cons b bs ih =>
      obtain ⟨hb, hrest⟩ := hstands
      rw [List.length_cons] at hapart
      refine ⟨?_, ih hrest (by omega)⟩
      rw [getElem?_patch?_of_apart h (by omega), hb]

/-- A word in the middle of a code is replaced, and nothing else. -/
lemma patch?_middle (before after : List UInt8) (v w : UInt32) :
    patch? (before ++ bytes v ++ after).toArray before.length w =
      some (before ++ bytes w ++ after).toArray := by
  have hroom : before.length + 4 ≤ (before ++ bytes v ++ after).toArray.size := by
    simp
  rw [patch?, if_pos hroom, Option.some.injEq]
  simp only [bytes, List.setIfInBounds_toArray]
  congr 1
  simp

end Word

/-! ### Instructions -/

namespace Instruction

lemma ofOperands?_of_stands {code : Code} {pos : Nat} {i : Instruction}
    (h : Stands code pos i.operands) : ofOperands? i.opcode code pos = some i := by
  cases i with
  | load r =>
      obtain ⟨hr, -⟩ := h
      simp [opcode, ofOperands?, hr]
  | store r =>
      obtain ⟨hr, -⟩ := h
      simp [opcode, ofOperands?, hr]
  | natural n =>
      have hword := Word.read?_of_stands h
      simp [opcode, ofOperands?, hword]
  | globalLoad g =>
      have hword := Word.read?_of_stands h
      simp [opcode, ofOperands?, hword]
  | globalStore g =>
      have hword := Word.read?_of_stands h
      simp [opcode, ofOperands?, hword]
  | create cls base =>
      obtain ⟨hcls, hbase, -⟩ := Stands.append_iff.mp h
      have hword := Word.read?_of_stands hcls
      rw [Word.length_bytes] at hbase
      simp [opcode, ofOperands?, hword, hbase]
  | field index =>
      have hword := Word.read?_of_stands h
      simp [opcode, ofOperands?, hword]
  | ret => rfl
  | call method base =>
      obtain ⟨hmethod, hbase, -⟩ := Stands.append_iff.mp h
      have hword := Word.read?_of_stands hmethod
      rw [Word.length_bytes] at hbase
      simp [opcode, ofOperands?, hword, hbase]

/-- **An encoded instruction is read back** where it stands. -/
lemma decode_of_stands {code : Code} {pos : Nat} {i : Instruction}
    (h : Stands code pos i.encode) : decode code pos = .ok i := by
  obtain ⟨hbyte, hoperands⟩ := h
  rw [decode, hbyte]
  dsimp only
  rw [Opcode.ofByte?_byte]
  dsimp only
  rw [ofOperands?_of_stands hoperands]

/-- Instructions one after the other, from a position on, each with its own. -/
def placed (pos : Nat) : List Instruction → List (Nat × Instruction)
  | [] => []
  | i :: is => (pos, i) :: placed (pos + i.size) is

/-- The encodings of instructions, one after the other. -/
def encodeAll (is : List Instruction) : List UInt8 := is.flatMap encode

@[simp] lemma encodeAll_nil : encodeAll [] = [] := rfl

@[simp] lemma encodeAll_cons (i : Instruction) (is : List Instruction) :
    encodeAll (i :: is) = i.encode ++ encodeAll is := rfl

@[simp] lemma encodeAll_append (is js : List Instruction) :
    encodeAll (is ++ js) = encodeAll is ++ encodeAll js := List.flatMap_append

lemma length_encodeAll (is : List Instruction) :
    (encodeAll is).length = (is.map size).sum := by
  induction is with
  | nil => rfl
  | cons i is ih => simp [ih]

@[simp] lemma map_snd_placed (pos : Nat) (is : List Instruction) :
    (placed pos is).map Prod.snd = is := by
  induction is generalizing pos with
  | nil => rfl
  | cons i is ih => simp [placed, ih]

/-- An instruction begins where those before it end. -/
lemma mem_positions (pos : Nat) {front is back : List Instruction} (h : is = front ++ back)
    (hne : back ≠ []) : pos + (encodeAll front).length ∈ (placed pos is).map Prod.fst := by
  subst h
  induction front generalizing pos with
  | nil =>
      cases back with
      | nil => exact absurd rfl hne
      | cons i back => simp [placed]
  | cons i front ih =>
      have hrest := ih (pos + i.size)
      simp only [List.cons_append, placed, List.map_cons, encodeAll_cons, List.length_append,
        length_encode, ← Nat.add_assoc]
      exact List.mem_cons_of_mem _ hrest

/-- **Encoded instructions are read back**, up to the end of the code. -/
lemma decodeFrom_of_stands {code : Code} {pos : Nat} {is : List Instruction}
    (h : Stands code pos (encodeAll is)) (hend : code.size = pos + (encodeAll is).length) :
    decodeFrom code pos = .ok (placed pos is) := by
  induction is generalizing pos with
  | nil =>
      rw [decodeFrom, if_neg (by simp [hend])]
      rfl
  | cons i is ih =>
      rw [encodeAll_cons] at h hend
      obtain ⟨hfirst, hrest⟩ := Stands.append_iff.mp h
      rw [length_encode] at hrest
      rw [List.length_append, length_encode] at hend
      have hpos := i.size_pos
      rw [decodeFrom, if_pos (by omega), decode_of_stands hfirst]
      dsimp only
      rw [ih hrest (by omega)]
      rfl

end Instruction

end EffectMachine
