/-
What the operations on effect handlers do.

Entering a context and triggering an effect lay a record under the return record
of their frame. Giving up a computation and returning to its trigger go back to a
record and leave through the return record above it. Making a continuation takes
two allocations, and resuming one lays its registers down.

* `Machine.laid`, `Machine.entered`, `Machine.triggered`: laying a record;
* `Machine.refocused`, `Machine.fastResume_eq`, `Machine.abort_eq`: going back to
  one;
* `Machine.capture`, `Machine.reify_eq_ok`: making a continuation;
* `Machine.grafted`, `Machine.resume_iff`: **resuming succeeds as far as the
  registers have room** and its trigger returns.
-/
import EffectMachine.Proofs.AlikeRegisters
import EffectMachine.Proofs.LinkedProgram
import EffectMachine.Proofs.Runs

namespace EffectMachine

lemma Program.signed_nat {P : Program} {n : Nat} (h : n < 2 ^ 31) :
    (P.nat n).signed.toInt = n := by
  rw [nat, int, Value.signed, Int32.toInt32_toUInt32]
  exact Int32.toInt_ofNat_of_lt h

lemma Program.signed_int (P : Program) (n : Int32) : (P.int n).signed = n := by
  rw [int, Value.signed, Int32.toInt32_toUInt32]

namespace Machine

variable {P : Program} {m m' : Machine} {u : Unit} {words : List Value}

/-! ### Integers of return records -/

/-- An integer that is read from a register is what the register holds. -/
lemma readInt_eq_ok {rs : Registers} {i : Nat} {n : Int32} :
    Context.readInt P rs i = .ok n ↔ i < rs.size ∧ rs.cell i = P.int n := by
  have hvalue : ∀ v : Value, v = P.int n ↔ v.tag = P.intClass ∧ v.signed = n := by
    rintro ⟨tag, data⟩
    rw [Program.int, Value.mk.injEq, Value.signed]
    refine and_congr_right fun _ => ⟨?_, ?_⟩
    · rintro rfl
      exact Int32.toInt32_toUInt32 n
    · rintro rfl
      exact (UInt32.toUInt32_toInt32 data).symm
  rw [Context.readInt, hvalue]
  by_cases hi : i < rs.size
  · rw [Registers.get_of_lt hi]
    dsimp only
    by_cases htag : (rs.cell i).tag = P.intClass
    · rw [if_pos htag, Except.ok.injEq]
      exact ⟨fun h => ⟨hi, htag, h⟩, fun h => h.2.2⟩
    · rw [if_neg htag]
      exact ⟨fun h => (by cases h), fun h => absurd h.2.1 htag⟩
  · rw [Registers.get_of_le (by omega)]
    exact ⟨fun h => (by cases h), fun h => absurd h.1 hi⟩

/-! ### Laying a record -/

/-- The registers of the thread in which a record with the given mark has been laid
at the frame, whose return record, of the given depth, has moved up. -/
def laid (P : Program) (t : Thread) (depth : Int32) (mark : Value) : Registers :=
  (((t.registers.setIfInBounds (t.frame + recordSize)
    (P.int (depth + Int32.ofNat recordSize))).setIfInBounds (t.frame + recordSize + 1)
    (t.registers.cell (t.frame + 1))).setIfInBounds t.frame
    (P.nat (t.frame - t.context))).setIfInBounds (t.frame + 1) mark

lemma size_laid (P : Program) (t : Thread) (depth : Int32) (mark : Value) :
    (laid P t depth mark).size = t.registers.size := by
  simp only [laid, Array.size_setIfInBounds]

/-- What is written to lay a record lies from the frame on. -/
lemma same_laid (P : Program) (t : Thread) (depth : Int32) (mark : Value) :
    t.registers.Same t.frame (laid P t depth mark) :=
  ((((Registers.Same.refl _ _).set (Nat.le_add_right _ _) _).set (by omega) _).set
    (Nat.le_refl _) _).set (Nat.le_succ _) _

/-- The four registers of the record and of the return record above it. -/
lemma cells_laid {t : Thread} (hroom : t.frame + recordSize + 1 < t.registers.size)
    (depth : Int32) (mark : Value) :
    Cells.cell (laid P t depth mark) t.frame = P.nat (t.frame - t.context) ∧
    Cells.cell (laid P t depth mark) (t.frame + 1) = mark ∧
    Cells.cell (laid P t depth mark) (t.frame + recordSize) =
      P.int (depth + Int32.ofNat recordSize) ∧
    Cells.cell (laid P t depth mark) (t.frame + recordSize + 1) =
      t.registers.cell (t.frame + 1) := by
  rw [recordSize] at *
  rw [laid, recordSize]
  refine ⟨?_, ?_, ?_, ?_⟩
  · rw [Cells.cell_setIfInBounds, if_neg (by omega), Cells.cell_setIfInBounds,
      if_pos ⟨rfl, by simp only [Array.size_setIfInBounds]; omega⟩]
  · rw [Cells.cell_setIfInBounds, if_pos ⟨rfl, by simp only [Array.size_setIfInBounds]; omega⟩]
  · rw [Cells.cell_setIfInBounds, if_neg (by omega), Cells.cell_setIfInBounds, if_neg (by omega),
      Cells.cell_setIfInBounds, if_neg (by omega), Cells.cell_setIfInBounds,
      if_pos ⟨rfl, by omega⟩]
  · rw [Cells.cell_setIfInBounds, if_neg (by omega), Cells.cell_setIfInBounds, if_neg (by omega),
      Cells.cell_setIfInBounds, if_pos ⟨rfl, by simp only [Array.size_setIfInBounds]; omega⟩]

lemma shiftRecord_eq_ok {frame : Nat} (h : shiftRecord P frame m = .ok u m') :
    ∃ depth, Context.readInt P m.thread.registers frame = .ok depth ∧
      frame + recordSize + 1 < m.thread.registers.size ∧
      m' = m.withRegisters ((m.thread.registers.setIfInBounds (frame + recordSize)
        (P.int (depth + Int32.ofNat recordSize))).setIfInBounds (frame + recordSize + 1)
        (m.thread.registers.cell (frame + 1))) := by
  simp only [shiftRecord, Machine.readInt, bind_eq_ok, query_eq_ok, register_eq_ok,
    setRegister_eq_ok] at h
  obtain ⟨depth, _, ⟨hdepth, rfl⟩, target, _, ⟨-, rfl, rfl⟩, _, _, ⟨-, rfl⟩, hroom, rfl⟩ := h
  refine ⟨depth, hdepth, ?_, rfl⟩
  rw [registers_withRegisters, Array.size_setIfInBounds] at hroom
  exact hroom

/-- The machine that has entered a context to call `body`, the return record being of the given
depth. -/
def entered (P : Program) (m : Machine) (depth : Int32) (handler body : Value) : Machine :=
  ⟨{ m.image with journal := m.image.journal.record (.enteredContext m.thread.frame handler) },
    { m.thread with
      context := m.thread.frame, frame := m.thread.frame + recordSize, frameEnd := recordSize,
      value := body, registers := laid P m.thread depth handler },
    some (.call .call)⟩

lemma same_entered (P : Program) (m : Machine) (depth : Int32) (handler body : Value) :
    m.thread.registers.Same m.thread.frame (m.entered P depth handler body).thread.registers :=
  same_laid P m.thread depth handler

/-- **Entering a context** lays a record with the handler. -/
lemma enterContext_eq_ok {handler body : Value}
    (h : Machine.enterContext P handler body m = .ok u m') : handler.tag ≠ .empty ∧
      ∃ depth, Context.readInt P m.thread.registers m.thread.frame = .ok depth ∧
        m.thread.frame + recordSize + 1 < m.thread.registers.size ∧
        m' = m.entered P depth handler body := by
  rw [Machine.enterContext] at h
  split at h
  · cases h
  · rename_i hhandler
    simp only [Machine.frame, Machine.context, bind_eq_ok, claim_eq_ok, read_eq_ok,
      setRegister_eq_ok, updateThread_eq_ok, record_eq_ok] at h
    obtain ⟨_, _, ⟨-, rfl⟩, _, _, ⟨rfl, rfl⟩, _, _, hshift, _, _, ⟨rfl, rfl⟩, _, _, ⟨-, rfl⟩,
      _, _, ⟨-, rfl⟩, _, _, rfl, rfl⟩ := h
    obtain ⟨depth, hdepth, hroom, rfl⟩ := shiftRecord_eq_ok hshift
    refine ⟨hhandler, depth, hdepth, hroom, ?_⟩
    simp only [entered, laid, withRegisters]

/-- The machine that has triggered an effect which the record at `handling` handles. -/
def triggered (P : Program) (m : Machine) (method : MethodId) (depth : Int32) (handling : Nat)
    (arg : Value) : Machine :=
  ⟨{ m.image with
      journal := m.image.journal.record (.triggered method handling m.thread.frame) },
    { m.thread with
      context := m.thread.frame, frame := m.thread.frame + recordSize,
      frameEnd := recordSize + 1, value := m.thread.registers.cell (handling + 1),
      registers := (laid P m.thread depth
        ⟨.empty, UInt32.ofNat (m.thread.frame - handling)⟩).setIfInBounds
          (m.thread.frame + 2 * recordSize) arg },
    some (.call method)⟩

lemma same_triggered (P : Program) (m : Machine) (method : MethodId) (depth : Int32)
    (handling : Nat) (arg : Value) : m.thread.registers.Same m.thread.frame
      (m.triggered P method depth handling arg).thread.registers := by
  dsimp only [triggered]
  exact (same_laid P m.thread depth _).set (Nat.le_add_right _ _) arg

/-- **Triggering an effect** lays a synthetic record, and the argument above it. -/
lemma trigger_eq_ok {method : MethodId} {arg : Value}
    (h : Machine.trigger P method arg m = .ok u m') : ∃ depth handling,
      Context.handler P m.thread.registers method m.thread.context = .ok handling ∧
      Context.readInt P m.thread.registers m.thread.frame = .ok depth ∧
      m.thread.frame + recordSize + 1 < m.thread.registers.size ∧
      m' = m.triggered P method depth handling arg := by
  simp only [Machine.trigger, Machine.frame, Machine.context, bind_eq_ok, claim_eq_ok, read_eq_ok,
    query_eq_ok, register_eq_ok, setRegister_eq_ok, updateThread_eq_ok, record_eq_ok] at h
  obtain ⟨_, _, ⟨-, rfl⟩, c, _, ⟨hc, rfl⟩, _, _, ⟨-, rfl, rfl⟩, _, _, ⟨rfl, rfl⟩, _, _,
    hshift, _, _, ⟨rfl, rfl⟩, _, _, ⟨-, rfl⟩, _, _, ⟨-, rfl⟩, _, _, ⟨-, rfl⟩, _, _, rfl, rfl⟩ := h
  obtain ⟨depth, hdepth, hroom, rfl⟩ := shiftRecord_eq_ok hshift
  refine ⟨depth, c, hc, hdepth, hroom, ?_⟩
  simp only [triggered, laid, withRegisters]

/-! ### Going back to a record -/

/-- The machine with the frame just above a record, which is the innermost one. -/
def refocused (m : Machine) (record : Nat) : Machine :=
  ⟨m.image, { m.thread with context := record, frame := record + recordSize }, m.transfer⟩

/-- **Returning to a trigger** leaves the frame above the synthetic record. -/
lemma fastResume_eq {s : Nat}
    (hs : Context.synthetic P m.thread.registers m.thread.context = .ok s) (v : Value) :
    Machine.fastResume P v m = ret P v (m.refocused s) := by
  rw [Machine.fastResume, bind_apply, innermostSynthetic, query_of_ok hs]
  rfl

/-- **Giving up a computation** leaves the frame above the record that is
served. -/
lemma abort_eq {s c : Nat} (hshield : m.shield P = .ok (s, c)) (v : Value) :
    Machine.abort P v m = ret P v (m.refocused c) := by
  obtain ⟨hs, hc⟩ := shield_eq_ok.mp hshield
  rw [Machine.abort, bind_apply, innermostSynthetic, query_of_ok hs]
  dsimp only
  rw [bind_apply, handlingContext, query_of_ok hc]
  rfl

lemma exists_synthetic_of_fastResume {v : Value} (h : Machine.fastResume P v m = .ok u m') :
    ∃ s, Context.synthetic P m.thread.registers m.thread.context = .ok s := by
  simp only [Machine.fastResume, innermostSynthetic, bind_eq_ok, query_eq_ok] at h
  obtain ⟨s, _, ⟨hs, -⟩, -⟩ := h
  exact ⟨s, hs⟩

lemma exists_shield_of_abort {v : Value} (h : Machine.abort P v m = .ok u m') :
    ∃ s c, m.shield P = .ok (s, c) := by
  simp only [Machine.abort, innermostSynthetic, handlingContext, bind_eq_ok, query_eq_ok] at h
  obtain ⟨s, _, ⟨hs, rfl⟩, c, _, ⟨hc, -⟩, -⟩ := h
  exact ⟨s, c, shield_eq_ok.mpr ⟨hs, hc⟩⟩

/-! ### Returning -/

/-- **A return succeeds** if the return record of the frame leads to a frame, and the records
that end above that frame can be dropped. -/
lemma returnValue_iff : returnValue P m = .ok u m' ↔ ∃ depth ctx,
    Context.readInt P m.thread.registers m.thread.frame = .ok depth ∧
    m.thread.frame + 1 < m.thread.registers.size ∧
    0 ≤ depth.toInt ∧ depth.toInt ≤ m.thread.frame ∧
    Context.unwind P m.thread.registers (m.thread.frame - depth.toInt.toNat) m.thread.context =
      .ok ctx ∧
    m' = ⟨m.image, { m.thread with
      context := ctx, frame := m.thread.frame - depth.toInt.toNat,
      frameEnd := max depth.toInt.toNat recordSize,
      pos := (m.thread.registers.cell (m.thread.frame + 1)).data }, m.transfer⟩ := by
  simp only [returnValue, Machine.frame, Machine.readInt, bind_eq_ok, read_eq_ok, query_eq_ok,
    register_eq_ok]
  constructor
  · rintro ⟨_, _, ⟨rfl, rfl⟩, depth, _, ⟨hdepth, rfl⟩, target, _, ⟨hroom, rfl, rfl⟩, h⟩
    split at h
    · rename_i hrange
      simp only [bind_eq_ok, query_eq_ok, updateThread_eq_ok] at h
      obtain ⟨ctx, _, ⟨hctx, rfl⟩, rfl⟩ := h
      exact ⟨depth, ctx, hdepth, hroom, hrange.1, hrange.2, hctx, rfl⟩
    · cases h
  · rintro ⟨depth, ctx, hdepth, hroom, hlo, hhi, hctx, rfl⟩
    refine ⟨_, m, ⟨rfl, rfl⟩, depth, m, ⟨hdepth, rfl⟩, _, m, ⟨hroom, rfl, rfl⟩, ?_⟩
    rw [if_pos ⟨hlo, hhi⟩]
    simp only [bind_eq_ok, query_eq_ok, updateThread_eq_ok]
    exact ⟨ctx, m, ⟨hctx, rfl⟩, rfl⟩

/-- The value returned goes to the value register, and control to the caller. -/
lemma ret_eq (hm : m.transfer = none) (v : Value) :
    ret P v m = returnValue P ⟨m.image, { m.thread with value := v }, some .returned⟩ := by
  obtain ⟨image, thread, transfer⟩ := m
  cases hm
  rfl

lemma ret_eq_ok {v : Value} (h : ret P v m = .ok u m') : m.transfer = none ∧
    returnValue P ⟨m.image, { m.thread with value := v }, some .returned⟩ = .ok u m' := by
  simp only [ret, setValue, bind_eq_ok, claim_eq_ok, updateThread_eq_ok] at h
  obtain ⟨_, _, ⟨hm, rfl⟩, _, _, rfl, h⟩ := h
  exact ⟨hm, h⟩

/-- **A native returns a value** as its frame does. -/
lemma ret_iff {v : Value} : ret P v m = .ok u m' ↔ m.transfer = none ∧ ∃ depth ctx,
    Context.readInt P m.thread.registers m.thread.frame = .ok depth ∧
    m.thread.frame + 1 < m.thread.registers.size ∧
    0 ≤ depth.toInt ∧ depth.toInt ≤ m.thread.frame ∧
    Context.unwind P m.thread.registers (m.thread.frame - depth.toInt.toNat) m.thread.context =
      .ok ctx ∧
    m' = ⟨m.image, { m.thread with
      context := ctx, frame := m.thread.frame - depth.toInt.toNat,
      frameEnd := max depth.toInt.toNat recordSize, value := v,
      pos := (m.thread.registers.cell (m.thread.frame + 1)).data }, some .returned⟩ := by
  constructor
  · intro h
    obtain ⟨hm, h⟩ := ret_eq_ok h
    exact ⟨hm, returnValue_iff.mp h⟩
  · rintro ⟨hm, h⟩
    rw [ret_eq hm]
    exact returnValue_iff.mpr h

/-! ### Making a continuation -/

/-- The first half of making a continuation: the registers are captured in an
array, which is given with the two records between which they lie. -/
def capture (P : Program) (body : Value) : MachineM (Nat × Nat × Value) := do
  claim (.call .call)
  let synthetic ← innermostSynthetic P
  let handling ← handlingContext synthetic
  let captured ← query
    (·.thread.registers.slice handling (synthetic + 2 * recordSize - handling))
  setValue body
  let array ← allocArray P captured
  return (synthetic, handling, array)

/-- The machine that captures registers: control is handed on, and the value
register holds the body. -/
def capturing (m : Machine) (body : Value) : Machine :=
  ⟨m.image, { m.thread with value := body }, some (.call .call)⟩

/-- What making a continuation does: an array is allocated for the registers
captured, then the continuation; the return record of the handled computation
goes back to where the context was entered. -/
structure Reified (P : Program) (body : Value) (m m₁ m₂ m' : Machine) (s c : Nat)
    (vs : List Value) (array k : Value) : Prop where
  free : m.transfer = none
  shield : m.shield P = .ok (s, c)
  slice : m.thread.registers.slice c (s + 2 * recordSize - c) = .ok vs
  captured : capture P body m = .ok (s, c, array) m₁
  stored : allocArray P vs (m.capturing body) = .ok array m₁
  tag : P.builtins.get? .continuation = some k.tag
  made : alloc P k.tag [array] m₁ = .ok k m₂
  enclosing : ∃ p, Context.parent P m₂.thread.registers c = .ok p ∧ m'.thread.context = p
  record : ∃ depth,
    Context.readInt P m₂.thread.registers (c + bodyRecordOffset (s - c)) = .ok depth ∧
    ¬ depth < Int32.ofNat (bodyRecordOffset (s - c)) ∧
    m'.thread.registers = ((m₂.thread.registers.setIfInBounds c
      (P.int (depth - Int32.ofNat (bodyRecordOffset (s - c))))).setIfInBounds (c + 1)
      ⟨P.intClass, (m₂.thread.registers.cell (c + bodyRecordOffset (s - c) + 1)).data⟩).setIfInBounds
      (c + recordSize) k
  frame : m'.thread.frame = c
  frameEnd : m'.thread.frameEnd = recordSize + 1
  value : m'.thread.value = m₂.thread.value
  image : m'.image.heap = m₂.image.heap ∧ m'.image.globals = m₂.image.globals

/-- **Making a continuation** allocates twice, and leaves the context of the
handler. -/
lemma reify_eq_ok {body : Value} (h : Machine.reify P body m = .ok u m') :
    ∃ m₁ m₂ s c vs array k, Reified P body m m₁ m₂ m' s c vs array k := by
  simp only [Machine.reify, innermostSynthetic, handlingContext, Machine.readInt, setValue,
    bind_eq_ok, claim_eq_ok, query_eq_ok, updateThread_eq_ok, ofExcept_eq_ok] at h
  obtain ⟨_, _, ⟨hfree, rfl⟩, s, _, ⟨hs, rfl⟩, c, _, ⟨hc, rfl⟩, vs, _, ⟨hslice, rfl⟩, _, _, rfl,
    array, m₁, harray, cls, m₁, ⟨hcls, rfl⟩, k, m₂, hk, p, m₂, ⟨hp, rfl⟩, depth, m₂,
    ⟨hdepth, rfl⟩, h⟩ := h
  split at h
  · cases h
  · rename_i hdeep
    simp only [bind_eq_ok, register_eq_ok, setRegister_eq_ok, updateThread_eq_ok, record_eq_ok]
      at h
    obtain ⟨target, m₂, ⟨-, rfl, rfl⟩, _, _, ⟨-, rfl⟩, _, _, ⟨-, rfl⟩, _, _, ⟨-, rfl⟩, _, _, rfl,
      rfl⟩ := h
    have htag := tag_of_alloc hk
    have hcapture : capture P body m = .ok (s, c, array) m₁ := by
      simp only [capture, innermostSynthetic, handlingContext, setValue, bind_eq_ok, claim_eq_ok,
        query_eq_ok, updateThread_eq_ok]
      exact ⟨(), _, ⟨hfree, rfl⟩, s, _, ⟨hs, rfl⟩, c, _, ⟨hc, rfl⟩, vs, _, ⟨hslice, rfl⟩, (), _,
        rfl, array, m₁, harray, rfl⟩
    refine ⟨m₁, m₂, s, c, vs, array, k, hfree, shield_eq_ok.mpr ⟨hs, hc⟩, hslice, hcapture, harray,
      ?_, htag ▸ hk, ⟨p, hp, rfl⟩, ⟨depth, hdepth, hdeep, ?_⟩, rfl, rfl, rfl, rfl, rfl⟩
    · rw [htag]
      exact Program.builtin_eq_ok.mp hcls
    · simp only [withRegisters, Program.int, UInt32.toUInt32_toInt32]

section Reified

variable {body : Value} {m₁ m₂ : Machine} {s c : Nat} {vs : List Value} {array k : Value}

lemma Reified.size₂ (h : Reified P body m m₁ m₂ m' s c vs array k) :
    m₂.thread.registers.size = m.thread.registers.size :=
  (((alloc_keeps h.stored).trans (alloc_keeps h.made)).registers 0).size

lemma Reified.size (h : Reified P body m m₁ m₂ m' s c vs array k) :
    m'.thread.registers.size = m.thread.registers.size := by
  obtain ⟨depth, -, -, hregisters⟩ := h.record
  rw [hregisters]
  simp only [Array.size_setIfInBounds]
  exact h.size₂

lemma Reified.room (h : Reified P body m m₁ m₂ m' s c vs array k) :
    c + recordSize + 1 < m.thread.registers.size := by
  obtain ⟨hroom, -⟩ := Registers.slice_eq_ok h.slice
  have hc := (Context.handling_spec (shield_eq_ok.mp h.shield).2).2
  rw [recordSize] at *
  omega

/-- The continuation is the first argument in the frame that making it leaves. -/
lemma Reified.cell_continuation (h : Reified P body m m₁ m₂ m' s c vs array k) :
    m'.thread.registers.cell (c + recordSize) = k := by
  obtain ⟨depth, -, -, hregisters⟩ := h.record
  have hroom := h.room
  rw [hregisters, Cells.cell_setIfInBounds, if_pos]
  refine ⟨rfl, ?_⟩
  rw [Array.size_setIfInBounds, Array.size_setIfInBounds, h.size₂]
  omega

end Reified

/-! ### Resuming -/

/-- The registers in which a continuation has been laid down at the frame. The
link of its first record and the return record of the handled computation are
replaced. -/
def overlay (P : Program) (t : Thread) (words : List Value) (depth target : Value) : Registers :=
  let shift := bodyRecordOffset (words.length - 2 * recordSize)
  (((Cells.overwrite t.registers t.frame words).setIfInBounds t.frame
    (P.nat (t.frame - t.context))).setIfInBounds (t.frame + shift) depth).setIfInBounds
      (t.frame + shift + 1) target

/-- What a continuation is laid over ends at the frame. -/
lemma same_overlay (P : Program) (t : Thread) (words : List Value) (depth target : Value) :
    t.registers.Same t.frame (overlay P t words depth target) :=
  ((((Registers.Same.refl t.frame _).overwrite (Nat.le_refl _) _).set (Nat.le_refl _) _).set
    (Nat.le_add_right _ _) _).set (by omega) _

/-- The first register of a continuation leads to the innermost record. -/
lemma link_overlay {t : Thread} {words : List Value} (hroom : t.frame < t.registers.size)
    (depth target : Value) :
    Cells.cell (overlay P t words depth target) t.frame = P.nat (t.frame - t.context) := by
  have hshift : 0 < bodyRecordOffset (words.length - 2 * recordSize) := by
    rw [bodyRecordOffset, recordSize]
    split <;> omega
  rw [overlay, Cells.cell_setIfInBounds, if_neg (by omega), Cells.cell_setIfInBounds,
    if_neg (by omega), Cells.cell_setIfInBounds,
    if_pos ⟨rfl, by rw [Cells.size_overwrite]; exact hroom⟩]

/-- The other registers of a continuation are as they were captured, unless they
are replaced. -/
lemma cell_overlay {t : Thread} {words : List Value}
    (hroom : t.frame + words.length ≤ t.registers.size) (depth target : Value) {i : Nat}
    (hi : i < words.length) (hpos : 0 < i)
    (hshift : i ≠ bodyRecordOffset (words.length - 2 * recordSize))
    (hshift' : i ≠ bodyRecordOffset (words.length - 2 * recordSize) + 1) :
    Cells.cell (overlay P t words depth target) (t.frame + i) = (words[i]?).getD .nil := by
  rw [overlay, Cells.cell_setIfInBounds, if_neg (by omega), Cells.cell_setIfInBounds,
    if_neg (by omega), Cells.cell_setIfInBounds, if_neg (by omega), Cells.cell_overwrite,
    if_pos (by omega), Nat.add_sub_cancel_left]

/-- The machine in which the words of a continuation have been laid down at the
frame, with the return record, of the given depth, above them. -/
def grafted (P : Program) (words : List Value) (depth : Int32) (m : Machine) : Machine :=
  let offset := words.length - 2 * recordSize
  ⟨{ m.image with journal := m.image.journal.record (.resumed words.length m.thread.frame) },
    { m.thread with
      context := m.thread.frame + offset
      frame := m.thread.frame + offset + recordSize
      frameEnd := recordSize
      registers := overlay P m.thread words
        (P.int (depth + Int32.ofNat (bodyRecordOffset offset)))
        ⟨P.intClass, (m.thread.registers.cell (m.thread.frame + 1)).data⟩ },
    m.transfer⟩

lemma keeps_grafted (P : Program) (m : Machine) (words : List Value) (depth : Int32) :
    m.thread.registers.Keeps P m.thread.frame (m.grafted P words depth).thread.registers :=
  (same_overlay P m.thread words _ _).keeps P

lemma grafted_cell_of_lt (P : Program) (words : List Value) (depth : Int32) {i : Nat}
    (hi : i < m.thread.frame) :
    (m.grafted P words depth).thread.registers.cell i = m.thread.registers.cell i :=
  (same_overlay P m.thread words _ _).cell i hi

/-- The return record of the call that resumes a continuation comes to stand above the
record served. -/
lemma bodyRecord_grafted (hlen : minCapture ≤ words.length)
    (hroom : m.thread.frame + words.length ≤ m.thread.registers.size) (depth : Int32) :
    let shift := bodyRecordOffset (words.length - 2 * recordSize)
    m.thread.frame + shift + 1 < m.thread.registers.size ∧
      (m.grafted P words depth).thread.registers.cell (m.thread.frame + shift) =
        P.int (depth + Int32.ofNat shift) ∧
      (m.grafted P words depth).thread.registers.cell (m.thread.frame + shift + 1) =
        ⟨P.intClass, (m.thread.registers.cell (m.thread.frame + 1)).data⟩ := by
  have hshift : bodyRecordOffset (words.length - 2 * recordSize) + 1 < words.length := by
    rw [minCapture] at hlen
    rw [bodyRecordOffset, recordSize] at *
    split <;> omega
  refine ⟨by omega, ?_, ?_⟩
  · dsimp only [grafted]
    rw [overlay, Cells.cell_setIfInBounds, if_neg (by omega), Cells.cell_setIfInBounds,
      if_pos ⟨rfl, by rw [Array.size_setIfInBounds, Cells.size_overwrite]; omega⟩]
  · dsimp only [grafted]
    rw [overlay, Cells.cell_setIfInBounds, if_pos ⟨rfl, by
      rw [Array.size_setIfInBounds, Array.size_setIfInBounds, Cells.size_overwrite]; omega⟩]

/-- **The registers of a continuation are laid down as they were captured**, except for the link
of its first record and the return record above that. -/
lemma cell_grafted (hlen : minCapture ≤ words.length)
    (hroom : m.thread.frame + words.length ≤ m.thread.registers.size) (depth : Int32) {i : Nat}
    (hi : i < words.length) :
    (m.grafted P words depth).thread.registers.cell (m.thread.frame + i) =
      if i = 0 then P.nat (m.thread.frame - m.thread.context)
      else if i = bodyRecordOffset (words.length - 2 * recordSize) then
        P.int (depth + Int32.ofNat (bodyRecordOffset (words.length - 2 * recordSize)))
      else if i = bodyRecordOffset (words.length - 2 * recordSize) + 1 then
        ⟨P.intClass, (m.thread.registers.cell (m.thread.frame + 1)).data⟩
      else (words[i]?).getD .nil := by
  obtain ⟨-, hdepth, htarget⟩ := bodyRecord_grafted (P := P) hlen hroom depth
  split
  · rename_i hzero
    rw [hzero]
    exact link_overlay (by omega) _ _
  · rename_i hzero
    split
    · rename_i hshift
      rw [hshift, hdepth]
    · rename_i hshift
      split
      · rename_i hshift'
        rw [hshift', ← Nat.add_assoc, htarget]
      · rename_i hshift'
        exact cell_overlay hroom _ _ hi (Nat.pos_of_ne_zero hzero) hshift hshift'

/-- **Resuming succeeds as far as the registers have room** and the trigger of the
continuation returns. -/
lemma resume_iff {k v : Value} : Machine.resume P k v m = .ok u m' ↔
    P.builtins.get? .continuation = some k.tag ∧ ∃ words depth, m.captured P k = .ok words ∧
      minCapture ≤ words.length ∧
      Context.readInt P m.thread.registers m.thread.frame = .ok depth ∧
      m.thread.frame + words.length ≤ m.thread.registers.size ∧
      ret P v (m.grafted P words depth) = .ok u m' := by
  rw [Machine.resume]
  by_cases htag : P.builtins.get? .continuation = some k.tag
  · rw [if_pos htag]
    simp only [Machine.frame, Machine.context, Machine.readInt, bind_eq_ok, query_eq_ok]
    constructor
    · rintro ⟨words, _, ⟨hwords, rfl⟩, h⟩
      split at h
      · cases h
      · rename_i hlen
        simp only [bind_eq_ok, read_eq_ok, query_eq_ok, register_eq_ok, write_eq_ok,
          setRegister_eq_ok, updateThread_eq_ok, record_eq_ok] at h
        obtain ⟨_, _, ⟨rfl, rfl⟩, depth, _, ⟨hdepth, rfl⟩, target, _, ⟨-, rfl, rfl⟩, _, _,
          ⟨hroom, rfl⟩, _, _, ⟨rfl, rfl⟩, _, _, ⟨-, rfl⟩, _, _, ⟨-, rfl⟩, _, _, ⟨-, rfl⟩, _, _,
          rfl, _, _, rfl, h⟩ := h
        refine ⟨htag, words, depth, hwords, by omega, hdepth, hroom, ?_⟩
        simpa only [grafted, overlay, withRegisters, Program.int, UInt32.toUInt32_toInt32] using h
    · rintro ⟨-, words, depth, hwords, hlen, hdepth, hroom, h⟩
      refine ⟨words, m, ⟨hwords, rfl⟩, ?_⟩
      have hshift : bodyRecordOffset (words.length - 2 * recordSize) + 1 < words.length := by
        rw [minCapture] at hlen
        rw [bodyRecordOffset, recordSize] at *
        split <;> omega
      rw [if_neg (by omega)]
      simp only [bind_eq_ok, read_eq_ok, query_eq_ok, register_eq_ok, write_eq_ok,
        setRegister_eq_ok, updateThread_eq_ok, record_eq_ok]
      refine ⟨_, _, ⟨rfl, rfl⟩, depth, _, ⟨hdepth, rfl⟩, _, _, ⟨by omega, rfl, rfl⟩, (), _,
        ⟨hroom, rfl⟩, _, _, ⟨rfl, rfl⟩, (), _, ⟨?_, rfl⟩, (), _, ⟨?_, rfl⟩, (), _, ⟨?_, rfl⟩,
        (), _, rfl, (), _, rfl, ?_⟩
      · rw [registers_withRegisters, Cells.size_overwrite]
        omega
      · rw [registers_withRegisters, Array.size_setIfInBounds, registers_withRegisters,
          Cells.size_overwrite]
        omega
      · rw [registers_withRegisters, Array.size_setIfInBounds, registers_withRegisters,
          Array.size_setIfInBounds, registers_withRegisters, Cells.size_overwrite]
        omega
      · simpa only [grafted, overlay, withRegisters, Program.int, UInt32.toUInt32_toInt32] using h
  · rw [if_neg htag]
    exact ⟨fun h => (by cases h), fun h => absurd h.1 htag⟩

end Machine

end EffectMachine
