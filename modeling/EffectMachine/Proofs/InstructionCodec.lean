/-
Instructions and their bytes.

Reading an instruction undoes writing it, and nothing else: an instruction is read at a position
if and only if its bytes stand there. No encoding is the beginning of another, so the bytes of
instructions one after the other are those of no other instructions.

* `Instruction.decode_cases`: the four ways in which reading can end, and
  `Instruction.decode_eq_ok_iff`: an instruction is read where its bytes stand;
* `Instruction.decodeFrom_eq_ok_iff`, `Instruction.decodeFrom_eq_error_iff`: a code is read to its
  end, or up to a position at which no instruction can be read;
* `Instruction.Follows`: the way from one instruction to the next, which has an end;
* `Instruction.words`, `lineOf`: how a line reads, and `lineOf_inj`: what can be told from it;
* `linesOf`, `listing_eq_ok_iff`: a listing has one line for each instruction;
* `Instruction.Reads`, `code_reads_as_instructions`: **bytes and instructions determine each
  other**.
-/
import EffectMachine.Proofs.InstructionStream
import Mathlib.Data.List.Basic
import Mathlib.Order.WellFounded

namespace EffectMachine

/-! ### Bytes in code -/

lemma Stands.end_le {code : Code} {pos : Nat} {bs : List UInt8} (h : Stands code pos bs)
    (hpos : pos ≤ code.size) : pos + bs.length ≤ code.size := by
  induction bs generalizing pos with
  | nil => exact hpos
  | cons b bs ih =>
      obtain ⟨hb, hrest⟩ := h
      obtain ⟨hlt, -⟩ := Array.getElem?_eq_some_iff.mp hb
      have hend := ih hrest hlt
      rw [List.length_cons]
      omega

/-- Bytes stand at a position if and only if the code goes on with them there. -/
lemma stands_iff_prefix_drop {code : Code} {pos : Nat} {bs : List UInt8} :
    Stands code pos bs ↔ bs <+: code.toList.drop pos := by
  induction bs generalizing pos with
  | nil => simp [Stands]
  | cons b bs ih =>
      rw [Stands, ih]
      cases hdrop : code.toList.drop pos with
      | nil =>
          have hend : code.size ≤ pos := by simpa using hdrop
          simp [Array.getElem?_eq_none hend]
      | cons c rest =>
          have hrest : code.toList.drop (pos + 1) = rest := by
            rw [← List.tail_drop, hdrop, List.tail_cons]
          have hbyte : code[pos]? = some c := by
            rw [← Array.getElem?_toList, ← List.head?_drop, hdrop, List.head?_cons]
          rw [hrest, hbyte, List.cons_prefix_cons, Option.some.injEq, eq_comm]

/-- Bytes stand at a position if and only if the bytes there, as many of them, are these. -/
lemma stands_iff_extract {code : Code} {pos : Nat} {bs : List UInt8} (hpos : pos ≤ code.size) :
    Stands code pos bs ↔
      pos + bs.length ≤ code.size ∧ (code.extract pos (pos + bs.length)).toList = bs := by
  have htake : (code.extract pos (pos + bs.length)).toList =
      (code.toList.drop pos).take bs.length := by
    rw [Array.toList_extract, List.extract_eq_take_drop, Nat.add_sub_cancel_left]
  rw [htake, eq_comm, ← List.prefix_iff_eq_take, ← stands_iff_prefix_drop]
  exact ⟨fun h => ⟨h.end_le hpos, h⟩, And.right⟩

namespace Word

lemma bytes_ofBytes (b₀ b₁ b₂ b₃ : UInt8) : bytes (ofBytes b₀ b₁ b₂ b₃) = [b₀, b₁, b₂, b₃] := by
  have h₀ := b₀.toNat_lt
  have h₁ := b₁.toNat_lt
  have h₂ := b₂.toNat_lt
  have h₃ := b₃.toNat_lt
  simp only [bytes, List.cons.injEq, ← UInt8.toNat_inj]
  simp [ofBytes, Nat.shiftRight_eq_div_pow]
  omega

/-- A word is read at a position if and only if its bytes stand there. -/
lemma read?_eq_some_iff {code : Code} {pos : Nat} {w : UInt32} :
    read? code pos = some w ↔ Stands code pos (bytes w) := by
  refine ⟨fun h => ?_, read?_of_stands⟩
  simp only [read?, Option.bind_eq_bind, Option.bind_eq_some_iff, Option.pure_def,
    Option.some.injEq] at h
  obtain ⟨b₀, h₀, b₁, h₁, b₂, h₂, b₃, h₃, rfl⟩ := h
  rw [bytes_ofBytes]
  exact ⟨h₀, h₁, h₂, h₃, trivial⟩

/-- A word can be read where there are four bytes. -/
lemma exists_read?_iff {code : Code} {pos : Nat} :
    (∃ w, read? code pos = some w) ↔ pos + 4 ≤ code.size := by
  simp only [read?, Option.bind_eq_bind, Option.bind_eq_some_iff, Option.pure_def,
    Option.some.injEq]
  constructor
  · rintro ⟨w, b₀, -, b₁, -, b₂, -, b₃, h₃, rfl⟩
    obtain ⟨hlt, -⟩ := Array.getElem?_eq_some_iff.mp h₃
    omega
  · intro h
    exact ⟨_, _, Array.getElem?_eq_getElem (by omega), _, Array.getElem?_eq_getElem (by omega), _,
      Array.getElem?_eq_getElem (by omega), _, Array.getElem?_eq_getElem (by omega), rfl⟩

end Word

/-! ### One instruction -/

namespace Opcode

lemma ofByte?_eq_some_iff {b : UInt8} {op : Opcode} : ofByte? b = some op ↔ b = op.byte := by
  constructor
  · intro h
    unfold ofByte? at h
    split at h <;> cases h <;> rfl
  · rintro rfl
    exact ofByte?_byte op

/-- The bytes above eight are no opcodes. -/
lemma ofByte?_eq_none_iff {b : UInt8} : ofByte? b = none ↔ 8 < b.toNat := by
  have hall : ∀ n : Fin 256, ofByte? (UInt8.ofFin n) = none ↔ 8 < n.val := by decide +kernel
  exact hall b.toFin

end Opcode

namespace Instruction

variable {code : Code} {pos : Nat} {i : Instruction}

/-- Operands that are read stand where they are read. -/
lemma stands_of_ofOperands? {op : Opcode} (h : ofOperands? op code pos = some i) :
    i.opcode = op ∧ Stands code pos i.operands := by
  cases op with
  | load | store =>
      obtain ⟨r, hr, h⟩ := Option.bind_eq_some_iff.mp h
      cases h
      exact ⟨rfl, hr, trivial⟩
  | natural | globalLoad | globalStore | field =>
      obtain ⟨w, hw, h⟩ := Option.bind_eq_some_iff.mp h
      cases h
      exact ⟨rfl, by simpa [operands] using Word.read?_eq_some_iff.mp hw⟩
  | create | call =>
      obtain ⟨w, hw, h⟩ := Option.bind_eq_some_iff.mp h
      obtain ⟨base, hbase, h⟩ := Option.bind_eq_some_iff.mp h
      cases h
      refine ⟨rfl, Stands.append_iff.mpr ⟨?_, hbase, trivial⟩⟩
      simpa using Word.read?_eq_some_iff.mp hw
  | ret =>
      cases h
      exact ⟨rfl, trivial⟩

/-- Operands can be read where there are enough bytes for them. -/
lemma exists_ofOperands?_iff {op : Opcode} (hpos : pos ≤ code.size) :
    (∃ i, ofOperands? op code pos = some i) ↔ pos + op.operandSize ≤ code.size := by
  have hword : (∃ w, Word.read? code pos = some w) ↔ pos + 4 ≤ code.size := Word.exists_read?_iff
  have hbyte : ∀ n, (∃ b, code[n]? = some b) ↔ n < code.size := fun n => by
    rw [← Option.isSome_iff_exists, isSome_getElem?]
  cases op with
  | load | store =>
      rw [Opcode.operandSize, Nat.add_one_le_iff, ← hbyte]
      simp [ofOperands?, Option.bind_eq_some_iff]
  | natural | globalLoad | globalStore | field =>
      rw [Opcode.operandSize, ← hword]
      simp [ofOperands?, Option.bind_eq_some_iff]
  | create | call =>
      simp [ofOperands?, Opcode.operandSize, Option.bind_eq_some_iff, hbyte, hword]
      omega
  | ret => simp [ofOperands?, Opcode.operandSize, hpos]

/-- What stands at a position decides how reading there ends. -/
lemma decode_cases (code : Code) (pos : Nat) :
    (code.size ≤ pos ∧ decode code pos = .error (.outOfRange pos)) ∨
    (∃ b, code[pos]? = some b ∧ 8 < b.toNat ∧
      decode code pos = .error (.invalidOpcode b pos)) ∨
    (∃ op : Opcode, code[pos]? = some op.byte ∧ code.size < pos + 1 + op.operandSize ∧
      decode code pos = .error (.truncated op pos)) ∨
    ∃ i : Instruction, Stands code pos i.encode ∧ decode code pos = .ok i := by
  rw [decode]
  cases hbyte : code[pos]? with
  | none => exact .inl ⟨Array.getElem?_eq_none_iff.mp hbyte, rfl⟩
  | some b =>
      obtain ⟨hlt, -⟩ := Array.getElem?_eq_some_iff.mp hbyte
      dsimp only
      cases hop : Opcode.ofByte? b with
      | none => exact .inr (.inl ⟨b, rfl, Opcode.ofByte?_eq_none_iff.mp hop, rfl⟩)
      | some op =>
          cases Opcode.ofByte?_eq_some_iff.mp hop
          dsimp only
          cases hi : ofOperands? op code (pos + 1) with
          | none =>
              refine .inr (.inr (.inl ⟨op, rfl, ?_, rfl⟩))
              by_contra hroom
              obtain ⟨i, hi'⟩ := (exists_ofOperands?_iff hlt).mpr (Nat.le_of_not_lt hroom)
              rw [hi] at hi'
              cases hi'
          | some i =>
              obtain ⟨rfl, hstands⟩ := stands_of_ofOperands? hi
              exact .inr (.inr (.inr ⟨i, ⟨hbyte, hstands⟩, rfl⟩))

/-- **An instruction is read at a position if and only if its bytes stand there.** -/
lemma decode_eq_ok_iff : decode code pos = .ok i ↔ Stands code pos i.encode := by
  refine ⟨fun h => ?_, decode_of_stands⟩
  rcases decode_cases code pos with ⟨-, h'⟩ | ⟨b, -, -, h'⟩ | ⟨op, -, -, h'⟩ | ⟨j, hj, h'⟩
  · cases h.symm.trans h'
  · cases h.symm.trans h'
  · cases h.symm.trans h'
  · cases h.symm.trans h'
    exact hj

lemma end_le_of_decode (h : decode code pos = .ok i) : pos + i.size ≤ code.size := by
  have hstands := decode_eq_ok_iff.mp h
  obtain ⟨hlt, -⟩ := Array.getElem?_eq_some_iff.mp hstands.1
  rw [← length_encode]
  exact hstands.end_le hlt.le

/-- An instruction is read, with its length, if and only if so many bytes are its encoding. -/
lemma decode_eq_ok_iff_extract {len : Nat} : decode code pos = .ok i ∧ i.size = len ↔
    pos + len ≤ code.size ∧ (code.extract pos (pos + len)).toList = i.encode := by
  constructor
  · rintro ⟨h, rfl⟩
    have hend := end_le_of_decode h
    have hbytes := (stands_iff_extract (by omega)).mp (decode_eq_ok_iff.mp h)
    rwa [length_encode] at hbytes
  · rintro ⟨hend, hbytes⟩
    have hlen : i.size = len := by
      rw [← length_encode, ← hbytes, Array.length_toList, Array.size_extract]
      omega
    subst hlen
    refine ⟨decode_eq_ok_iff.mpr ((stands_iff_extract (by omega)).mpr ?_), rfl⟩
    rw [length_encode]
    exact ⟨hend, hbytes⟩

lemma decode_outOfRange_iff {p : Nat} :
    decode code pos = .error (.outOfRange p) ↔ p = pos ∧ code.size ≤ pos := by
  constructor
  · intro h
    rcases decode_cases code pos with ⟨hout, h'⟩ | ⟨b, -, -, h'⟩ | ⟨op, -, -, h'⟩ | ⟨j, -, h'⟩
    · cases h.symm.trans h'
      exact ⟨rfl, hout⟩
    all_goals cases h.symm.trans h'
  · rintro ⟨rfl, hout⟩
    rw [decode, Array.getElem?_eq_none hout]

lemma decode_invalidOpcode_iff {b : UInt8} {p : Nat} :
    decode code pos = .error (.invalidOpcode b p) ↔
      p = pos ∧ code[pos]? = some b ∧ 8 < b.toNat := by
  constructor
  · intro h
    rcases decode_cases code pos with ⟨-, h'⟩ | ⟨b, hb, hlarge, h'⟩ | ⟨op, -, -, h'⟩ | ⟨j, -, h'⟩
    case inr.inl =>
      cases h.symm.trans h'
      exact ⟨rfl, hb, hlarge⟩
    all_goals cases h.symm.trans h'
  · rintro ⟨rfl, hb, hlarge⟩
    rw [decode, hb]
    dsimp only
    rw [Opcode.ofByte?_eq_none_iff.mpr hlarge]

lemma decode_truncated_iff {op : Opcode} {p : Nat} :
    decode code pos = .error (.truncated op p) ↔
      p = pos ∧ code[pos]? = some op.byte ∧ code.size < pos + 1 + op.operandSize := by
  constructor
  · intro h
    rcases decode_cases code pos with ⟨-, h'⟩ | ⟨b, -, -, h'⟩ | ⟨op, hop, hshort, h'⟩ | ⟨j, -, h'⟩
    case inr.inr.inl =>
      cases h.symm.trans h'
      exact ⟨rfl, hop, hshort⟩
    all_goals cases h.symm.trans h'
  · rintro ⟨rfl, hop, hshort⟩
    obtain ⟨hlt, -⟩ := Array.getElem?_eq_some_iff.mp hop
    rw [decode, hop]
    dsimp only
    rw [Opcode.ofByte?_byte]
    dsimp only
    cases hi : ofOperands? op code (p + 1) with
    | none => rfl
    | some i =>
        have hroom := (exists_ofOperands?_iff hlt).mp ⟨i, hi⟩
        omega

/-! ### Whole codes -/

/-- The bytes from a position on are those of instructions if and only if reading comes to the end
of the code, and then it gives these instructions. -/
lemma decodeFrom_eq_ok_iff {lines : List (Nat × Instruction)} (hpos : pos ≤ code.size) :
    decodeFrom code pos = .ok lines ↔
      ∃ is, code.toList.drop pos = encodeAll is ∧ lines = placed pos is := by
  constructor
  · intro h
    fun_induction decodeFrom code pos generalizing lines with
    | case1 pos hlt e hdecode => cases h
    | case2 pos hlt i hdecode e hrest ih => cases h
    | case3 pos hlt i hdecode rest hrest ih =>
        cases h
        obtain ⟨is, hdrop, rfl⟩ := ih (end_le_of_decode hdecode) hrest
        refine ⟨i :: is, ?_, rfl⟩
        obtain ⟨tail, htail⟩ := stands_iff_prefix_drop.mp (decode_eq_ok_iff.mp hdecode)
        rw [encodeAll_cons, ← hdrop, ← List.drop_drop, ← htail, ← length_encode, List.drop_left]
    | case4 pos hge =>
        cases h
        exact ⟨[], List.drop_eq_nil_of_le (by simpa using hge), rfl⟩
  · rintro ⟨is, hdrop, rfl⟩
    refine decodeFrom_of_stands (stands_iff_prefix_drop.mpr (hdrop ▸ List.prefix_rfl)) ?_
    rw [← hdrop, List.length_drop, Array.length_toList]
    omega

lemma decodeAll_eq_ok_iff {lines : List (Nat × Instruction)} :
    decodeAll code = .ok lines ↔ ∃ is, code.toList = encodeAll is ∧ lines = placed 0 is := by
  rw [decodeAll, decodeFrom_eq_ok_iff (Nat.zero_le _), List.drop_zero]

/-- Reading ends with an error if and only if behind some instructions, before the end of the code,
no further one can be read. -/
lemma decodeFrom_eq_error_iff {e : DecodeError} :
    decodeFrom code pos = .error e ↔ ∃ is, Stands code pos (encodeAll is) ∧
      pos + (encodeAll is).length < code.size ∧
        decode code (pos + (encodeAll is).length) = .error e := by
  constructor
  · intro h
    fun_induction decodeFrom code pos with
    | case1 pos hlt e' hdecode =>
        cases h
        exact ⟨[], trivial, hlt, hdecode⟩
    | case2 pos hlt i hdecode e' hrest ih =>
        cases h
        obtain ⟨is, hstands, hlt', herror⟩ := ih hrest
        have hlength : pos + (encodeAll (i :: is)).length =
            pos + i.size + (encodeAll is).length := by
          rw [encodeAll_cons, List.length_append, length_encode, Nat.add_assoc]
        refine ⟨i :: is, ?_, hlength ▸ hlt', hlength ▸ herror⟩
        rw [encodeAll_cons, Stands.append_iff, length_encode]
        exact ⟨decode_eq_ok_iff.mp hdecode, hstands⟩
    | case3 pos hlt i hdecode rest hrest ih => cases h
    | case4 pos hge => cases h
  · rintro ⟨is, hstands, hlt, herror⟩
    induction is generalizing pos with
    | nil =>
        rw [encodeAll_nil, List.length_nil, Nat.add_zero] at hlt herror
        rw [decodeFrom, if_pos hlt, herror]
    | cons i is ih =>
        rw [encodeAll_cons, Stands.append_iff, length_encode] at hstands
        rw [encodeAll_cons, List.length_append, length_encode, ← Nat.add_assoc] at hlt herror
        rw [decodeFrom, if_pos (by omega), decode_of_stands hstands.1]
        dsimp only
        rw [ih hstands.2 hlt herror]

lemma encodeAll_injective : Function.Injective encodeAll := by
  intro is js h
  have hcode : ∀ {is : List Instruction}, encodeAll is = encodeAll js →
      decodeFrom (encodeAll js).toArray 0 = .ok (placed 0 is) := fun his =>
    (decodeFrom_eq_ok_iff (Nat.zero_le _)).mpr ⟨_, his.symm, rfl⟩
  have hplaced := Except.ok.inj ((hcode h).symm.trans (hcode rfl))
  rw [← map_snd_placed 0 is, hplaced, map_snd_placed]

lemma map_placed {α : Type} (f : Nat → Instruction → α) (pos : Nat) (is : List Instruction) :
    (placed pos is).map (fun x => f x.1 x.2) =
      is.mapIdx fun k i => f (pos + (encodeAll (is.take k)).length) i := by
  induction is generalizing pos with
  | nil => rfl
  | cons i is ih => simp [placed, ih, List.mapIdx_cons, Nat.add_assoc]

/-- The position `next` is where the instruction at the position `pos` ends. -/
def Follows (code : Code) (next pos : Nat) : Prop :=
  ∃ i, decode code pos = .ok i ∧ next = pos + i.size

/-- **Going from instruction to instruction has an end.** -/
lemma wellFounded_follows (code : Code) : WellFounded (Follows code) := by
  -- what is left of the code gets shorter
  refine Subrelation.wf (r := InvImage (· < ·) fun pos => code.size - pos) ?_
    (InvImage.wf _ Nat.lt_wfRel.wf)
  rintro next pos ⟨i, hdecode, rfl⟩
  have hend := end_le_of_decode hdecode
  have hpos := i.size_pos
  show code.size - (pos + i.size) < code.size - pos
  omega

end Instruction

/-! ### Lines -/

lemma toDigits_injective : Function.Injective (Nat.toDigits 10) := by
  intro m n h
  have hread := congrArg (fun ds => Nat.ofDigitChars 10 ds 0) h
  simpa only [Nat.ofDigitChars_ten_toDigits] using hread

lemma not_mem_toDigits {c : Char} (hc : c.isDigit = false) (n : Nat) : c ∉ Nat.toDigits 10 n := by
  intro h
  rw [Nat.isDigit_of_mem_toDigits (by decide) (by decide) h] at hc
  cases hc

/-- A number in decimal digits, with a sign in front if it is negative. -/
def decimal (n : Int) : List Char :=
  if n < 0 then '-' :: Nat.toDigits 10 n.natAbs else Nat.toDigits 10 n.natAbs

lemma decimal_injective : Function.Injective decimal := by
  intro m n h
  have hsign : ∀ k l, '-' :: Nat.toDigits 10 k ≠ Nat.toDigits 10 l := fun k l h =>
    not_mem_toDigits (c := '-') (by decide) l (h ▸ List.mem_cons_self)
  unfold decimal at h
  split at h <;> split at h
  · have habs := toDigits_injective (List.cons.inj h).2
    omega
  · exact absurd h (hsign _ _)
  · exact absurd h.symm (hsign _ _)
  · have habs := toDigits_injective h
    omega

lemma not_mem_decimal {c : Char} (hc : c.isDigit = false) (hsign : c ≠ '-') (n : Int) :
    c ∉ decimal n := by
  unfold decimal
  split <;> simp [hsign, not_mem_toDigits hc]

lemma toList_repr_eq_decimal (n : Int) : n.repr.toList = decimal n := by
  rw [Int.repr_eq_if, decimal]
  by_cases hn : n < 0
  · have habs : (-n).toNat = n.natAbs := by omega
    rw [if_neg (by omega), if_pos hn, habs, String.toList_append, Nat.toList_repr]
    rfl
  · have habs : n.toNat = n.natAbs := by omega
    rw [if_pos (by omega), if_neg hn, habs, Nat.toList_repr]

namespace Instruction

/-- An instruction in words: its mnemonic and then its operands, with letters in front of the
numbers of registers, globals and methods. -/
def words : Instruction → List (List Char)
  | load r => ["LOAD".toList, 'r' :: Nat.toDigits 10 r.toNat]
  | store r => ["STORE".toList, 'r' :: Nat.toDigits 10 r.toNat]
  | natural n => ["NATURAL".toList, decimal n.toInt]
  | globalLoad g => ["GLOBAL_LOAD".toList, 'g' :: Nat.toDigits 10 g.toNat]
  | globalStore g => ["GLOBAL_STORE".toList, 'g' :: Nat.toDigits 10 g.toNat]
  | create c base => ["CREATE".toList, decimal c.code.toInt, 'r' :: Nat.toDigits 10 base.toNat]
  | field index => ["FIELD".toList, Nat.toDigits 10 index.toNat]
  | ret => ["RET".toList]
  | call m base =>
    ["CALL".toList, 'm' :: Nat.toDigits 10 m.index.toNat, Nat.toDigits 10 base.toNat]

lemma words_ne_nil (i : Instruction) : i.words ≠ [] := by
  cases i <;> exact List.cons_ne_nil _ _

/-- What separates words, positions and lines is not part of a word. -/
lemma not_mem_of_mem_words {c : Char} (hc : c = ' ' ∨ c = ':' ∨ c = '\n') {i : Instruction} :
    ∀ w ∈ i.words, c ∉ w := by
  rcases hc with rfl | rfl | rfl <;> cases i <;>
    simp [words, not_mem_toDigits, not_mem_decimal]

lemma words_injective : Function.Injective words := by
  intro i j h
  cases i <;> cases j <;>
    simp [words, toDigits_injective.eq_iff, decimal_injective.eq_iff, UInt8.toNat_inj,
      UInt32.toNat_inj, Int32.toInt_inj] at h ⊢
  case create.create c b c' b' =>
    cases c
    cases c'
    exact ⟨congrArg ClassId.mk h.1, h.2⟩
  case call.call m b m' b' =>
    cases m
    cases m'
    exact ⟨congrArg MethodId.mk h.1, h.2⟩
  all_goals exact h

lemma toList_text (i : Instruction) : i.text.toList = [' '].intercalate i.words := by
  have htext : ∀ s : String, toString s = s := fun _ => rfl
  cases i <;> simp [text, words, opcode, Opcode.name, htext, toList_repr_eq_decimal]

end Instruction

open Instruction

/-- A line of a listing: the digits of the position, behind blanks that make them six columns wide,
a colon, and the instruction in words with blanks between them. -/
def lineOf (pos : Nat) (i : Instruction) : List Char :=
  List.replicate (6 - (Nat.toDigits 10 pos).length) ' ' ++ Nat.toDigits 10 pos ++
    ':' :: ' ' :: [' '].intercalate i.words

lemma toList_listingLine (pos : Nat) (i : Instruction) :
    (listingLine pos i).toList = lineOf pos i ++ ['\n'] := by
  have htext : ∀ s : String, toString s = s := fun _ => rfl
  simp [listingLine, lineOf, alignRight, List.leftpad, htext, toList_text]

lemma not_mem_intercalate_words {c : Char} (hc : c = ':' ∨ c = '\n') (i : Instruction) :
    c ∉ [' '].intercalate i.words := by
  rcases hc with rfl | rfl <;> cases i <;>
    simp [words, not_mem_toDigits, not_mem_decimal]

lemma newline_not_mem_lineOf (pos : Nat) (i : Instruction) : '\n' ∉ lineOf pos i := by
  simp [lineOf, not_mem_toDigits, not_mem_intercalate_words]

/-- **A line tells the position and the instruction.** -/
lemma lineOf_inj {pos pos' : Nat} {i i' : Instruction} (h : lineOf pos i = lineOf pos' i') :
    pos = pos' ∧ i = i' := by
  -- there is one colon, so the two sides of it are the same
  have hcolon : ':' ∉ List.replicate (6 - (Nat.toDigits 10 pos).length) ' ' ++
      Nat.toDigits 10 pos := by
    simp [not_mem_toDigits]
  have hcolon' : ':' ∉ ' ' :: [' '].intercalate i.words := by
    simp [not_mem_intercalate_words]
  obtain ⟨hdigits, -, htext⟩ := (List.append_cons_inj_of_notMem hcolon hcolon').mp h
  have hblank : ∀ n : Nat, (Nat.toDigits 10 n).filter (· ≠ ' ') = Nat.toDigits 10 n := fun n =>
    List.filter_eq_self.mpr fun c hc => by
      have hne : c ≠ ' ' := fun heq => not_mem_toDigits (by decide) n (heq ▸ hc)
      simpa using hne
  have hwords := congrArg (List.splitOn ' ') (List.cons.inj htext).2
  rw [List.splitOn_intercalate ' ' (not_mem_of_mem_words (.inl rfl)) i.words_ne_nil,
    List.splitOn_intercalate ' ' (not_mem_of_mem_words (.inl rfl)) i'.words_ne_nil] at hwords
  have hpos := congrArg (List.filter (· ≠ ' ')) hdigits
  simp only [List.filter_append, List.filter_replicate, hblank] at hpos
  exact ⟨toDigits_injective (by simpa using hpos), words_injective hwords⟩

/-! ### Listings -/

/-- Lines that end one after the other can be told apart. -/
lemma splitOn_flatMap_lines {lines : List (List Char)} (h : ∀ line ∈ lines, '\n' ∉ line) :
    (lines.flatMap (· ++ ['\n'])).splitOn '\n' = lines ++ [[]] := by
  have hjoin : lines.flatMap (· ++ ['\n']) = ['\n'].intercalate (lines ++ [[]]) := by
    clear h
    induction lines with
    | nil => simp
    | cons line lines ih =>
        have hne : lines ++ [[]] ≠ [] := by simp
        rw [List.cons_append, List.intercalate_cons_of_ne_nil hne, ← ih]
        simp
  rw [hjoin, List.splitOn_intercalate]
  · simpa [or_imp, forall_and] using h
  · simp

/-- The lines of instructions one after the other, each with the position that the bytes before it
give it. -/
def linesOf (is : List Instruction) : List (List Char) :=
  is.mapIdx fun k i => lineOf (encodeAll (is.take k)).length i

lemma listing_of_toList {code : Code} {is : List Instruction} (h : code.toList = encodeAll is) :
    ∃ text, listing code = .ok text ∧ text.toList = (linesOf is).flatMap (· ++ ['\n']) := by
  have hlines : (placed 0 is).map (fun x => lineOf x.1 x.2) = linesOf is := by
    rw [map_placed, linesOf]
    simp only [Nat.zero_add]
  refine ⟨_, by rw [listing, decodeAll_eq_ok_iff.mpr ⟨is, h, rfl⟩], ?_⟩
  rw [String.toList_join, List.flatMap_map, ← hlines, List.flatMap_map]
  exact List.flatMap_congr fun x _ => toList_listingLine x.1 x.2

lemma splitOn_flatMap_linesOf (is : List Instruction) :
    ((linesOf is).flatMap (· ++ ['\n'])).splitOn '\n' = linesOf is ++ [[]] := by
  refine splitOn_flatMap_lines fun line hline => ?_
  obtain ⟨k, hk, rfl⟩ := List.mem_mapIdx.mp hline
  exact newline_not_mem_lineOf _ _

/-- **A code has a listing if and only if it is made of encoded instructions**, and the listing has
one line for each of them, with its position. -/
lemma listing_eq_ok_iff {code : Code} {text : String} : listing code = .ok text ↔
    ∃ is, code.toList = encodeAll is ∧
      text.toList.splitOn '\n' = linesOf is ++ [[]] := by
  constructor
  · intro h
    cases hall : decodeAll code with
    | error e =>
        rw [listing, hall] at h
        cases h
    | ok lines =>
        obtain ⟨is, hcode, -⟩ := decodeAll_eq_ok_iff.mp hall
        obtain ⟨text', hlisting, htext⟩ := listing_of_toList hcode
        cases hlisting.symm.trans h
        exact ⟨is, hcode, by rw [htext, splitOn_flatMap_linesOf]⟩
  · rintro ⟨is, hcode, htext⟩
    -- a text is determined by its lines
    obtain ⟨text', hlisting, htext'⟩ := listing_of_toList hcode
    rw [← splitOn_flatMap_linesOf, ← htext'] at htext
    have hsame := congrArg (['\n'].intercalate ·) htext
    simp only [List.intercalate_splitOn] at hsame
    rw [hlisting, String.toList_inj.mp hsame]

lemma listing_eq_error_iff {code : Code} {e : DecodeError} : listing code = .error e ↔
    ∃ is, encodeAll is <+: code.toList ∧ (encodeAll is).length < code.size ∧
      decode code (encodeAll is).length = .error e := by
  have hread : listing code = .error e ↔ decodeAll code = .error e := by
    rw [listing]
    cases decodeAll code <;> simp
  rw [hread, decodeAll, decodeFrom_eq_error_iff]
  simp only [stands_iff_prefix_drop, List.drop_zero, Nat.zero_add]

/-! ### Codes and instructions -/

/-- What reading at a position of a code gives. -/
structure Instruction.Reads (code : Code) (pos : Nat) : Prop where
  /-- An instruction is read, with its length, if and only if so many bytes there are its
  encoding. -/
  instruction : ∀ i len, decode code pos = .ok i ∧ i.size = len ↔
    pos + len ≤ code.size ∧ (code.extract pos (pos + len)).toList = i.encode
  outOfRange : ∀ p, decode code pos = .error (.outOfRange p) ↔ p = pos ∧ code.size ≤ pos
  invalidOpcode : ∀ b p, decode code pos = .error (.invalidOpcode b p) ↔
    p = pos ∧ code[pos]? = some b ∧ 8 < b.toNat
  /-- The opcode is there, and its operands run past the end. -/
  truncated : ∀ op p, decode code pos = .error (.truncated op p) ↔
    p = pos ∧ code[pos]? = some op.byte ∧ code.size < pos + 1 + op.operandSize

/-- **Bytes and instructions determine each other.** Reading at a position tells what stands there.
Different lists of instructions have different bytes, and reading the bytes of a list gives it back.
A code has a listing if and only if it is made of such bytes, and the listing has one line for each
instruction, from which its position and the instruction can be told. Otherwise reading fails behind
some instructions, at a position where none stands. Going from instruction to instruction comes to
an end in every code. -/
theorem code_reads_as_instructions (code : Code) :
    (∀ pos, Reads code pos) ∧
    Function.Injective encodeAll ∧
    (∀ is, decodeAll code = .ok (placed 0 is) ↔ code.toList = encodeAll is) ∧
    (∀ text, listing code = .ok text ↔ ∃ is, code.toList = encodeAll is ∧
      text.toList.splitOn '\n' = linesOf is ++ [[]]) ∧
    (∀ pos pos' i i', lineOf pos i = lineOf pos' i' → pos = pos' ∧ i = i') ∧
    (∀ e, listing code = .error e ↔ ∃ is, encodeAll is <+: code.toList ∧
      (encodeAll is).length < code.size ∧ decode code (encodeAll is).length = .error e) ∧
    WellFounded (Follows code) := by
  refine ⟨fun pos => ⟨fun i len => decode_eq_ok_iff_extract, fun p => decode_outOfRange_iff,
    fun b p => decode_invalidOpcode_iff, fun op p => decode_truncated_iff⟩, encodeAll_injective,
    fun is => ?_, fun text => listing_eq_ok_iff, fun pos pos' i i' h => lineOf_inj h,
    fun e => listing_eq_error_iff, wellFounded_follows code⟩
  rw [decodeAll_eq_ok_iff]
  constructor
  · rintro ⟨js, hcode, hplaced⟩
    rw [hcode, ← map_snd_placed 0 is, hplaced, map_snd_placed]
  · exact fun hcode => ⟨is, hcode, rfl⟩

/-- The words of operands are signed for numbers and classes, and unsigned for globals. -/
example : Instruction.decode #[2, 249, 255, 255, 255] 0 = .ok (.natural (-7)) ∧
    Instruction.decode #[5, 252, 255, 255, 255, 3] 0 = .ok (.create (.array 3) 3) ∧
    Instruction.decode #[7, 3, 255, 255, 255, 255] 1 = .ok (.globalLoad 4294967295) := by
  decide

end EffectMachine
