/-
What the rounds of a machine do, case by case.

An instruction and a core native are sequences of primitive operations. Here they are given as
relations, with one case for each instruction, and one for each kind of native, that says when it
succeeds and which machine it leads to. What rounds preserve is proved by cases on these.

* `Registers.unset`: registers that have been unset;
* `Machine.stored`, `Machine.opened`: a machine that has stored its value, and one that has opened
  a frame;
* `Machine.passed`: a machine that has read the instruction at its position;
* `Machine.Executes`, `Machine.execute_iff`: **an instruction is executed exactly as its case
  says**;
* `Machine.RunsCore`, `Machine.runsCore_of_mem`: **a core native is run as one of the cases says**.
-/
import EffectMachine.Proofs.Primitives
import EffectMachine.Proofs.RecordChain
import EffectMachine.Proofs.Runs

namespace EffectMachine

/-! ### Registers that are passed over -/

namespace Registers

/-- The registers with those from `start` to `stop` unset. -/
def unset (rs : Registers) (start stop : Nat) : Registers :=
  Cells.overwrite rs start (List.replicate (stop - start) .nil)

lemma size_unset (rs : Registers) (start stop : Nat) : (rs.unset start stop).size = rs.size :=
  Cells.size_overwrite ..

lemma unset_of_le (rs : Registers) {start stop : Nat} (h : stop ≤ start) :
    rs.unset start stop = rs := by
  rw [unset, Nat.sub_eq_zero_of_le h]
  rfl

lemma cell_unset {rs : Registers} {start stop : Nat} (hstop : stop ≤ rs.size) (i : Nat) :
    (rs.unset start stop).cell i = if start ≤ i ∧ i < stop then .nil else rs.cell i := by
  rw [unset, Cells.cell_overwrite, List.length_replicate]
  by_cases hi : start ≤ i ∧ i < stop
  · rw [if_pos (by omega), if_pos hi, List.getElem?_replicate, if_pos (by omega), Option.getD_some]
  · rw [if_neg (by omega), if_neg hi]

end Registers

lemma Registers.Same.unset {n : Nat} {rs rs' : Registers} (h : Registers.Same n rs rs')
    {start : Nat} (hstart : n ≤ start) (stop : Nat) :
    Registers.Same n rs (rs'.unset start stop) :=
  h.overwrite hstart _

lemma Image.global_eq_ok {p : Image} {g : UInt32} {v : Value} :
    p.global g = .ok v ↔ p.globals[g.toNat]? = some v := by
  rw [Image.global]
  cases p.globals[g.toNat]? with
  | some w => rw [Except.ok.injEq, Option.some.injEq]
  | none => exact ⟨fun h => (by cases h), fun h => (by cases h)⟩

namespace Machine

variable {P : Program} {m m' : Machine} {u : Unit}

lemma clear_eq_ok {start stop : Nat} :
    onRegisters (Registers.clear start stop) m = .ok u m' ↔
      (stop ≤ start ∨ stop ≤ m.thread.registers.size) ∧
        m' = m.withRegisters (m.thread.registers.unset start stop) := by
  rw [onRegisters_clear]
  by_cases hle : stop ≤ start
  · rw [if_pos hle, Registers.unset_of_le _ hle]
    constructor
    · intro h
      cases h
      exact ⟨.inl hle, rfl⟩
    · rintro ⟨-, rfl⟩
      rfl
  · rw [if_neg hle]
    constructor
    · intro h
      split at h
      · rename_i hstop
        cases h
        exact ⟨.inr hstop, rfl⟩
      · cases h
    · rintro ⟨hstop, rfl⟩
      rw [if_pos (hstop.resolve_left hle)]
      rfl

/-! ### Storing and calling -/

/-- The machine that has stored its value in a register of the frame. The registers between those
in use and it are unset. -/
def stored (m : Machine) (r : Nat) : Machine :=
  { m with thread := { m.thread with
      registers := (m.thread.registers.unset (m.thread.frame + m.thread.frameEnd)
        (m.thread.frame + r)).setIfInBounds (m.thread.frame + r) m.thread.value
      frameEnd := max m.thread.frameEnd (r + 1) } }

/-- **Storing succeeds** if there is such a register. -/
lemma store_iff {r : Nat} : store r m = .ok u m' ↔
    m.thread.frame + r < m.thread.registers.size ∧ m' = m.stored r := by
  simp only [store, frame, frameEnd, bind_eq_ok, read_eq_ok]
  by_cases hstop : m.thread.frameEnd ≤ r
  · have hend : max m.thread.frameEnd (r + 1) = r + 1 := by omega
    rw [stored, hend]
    constructor
    · rintro ⟨_, _, ⟨rfl, rfl⟩, _, m, ⟨rfl, rfl⟩, h⟩
      rw [if_pos hstop] at h
      simp only [value, bind_eq_ok, read_eq_ok, updateThread_eq_ok, setRegister_eq_ok,
        clear_eq_ok] at h
      obtain ⟨_, _, ⟨-, rfl⟩, _, _, rfl, _, _, ⟨rfl, rfl⟩, hroom, rfl⟩ := h
      exact ⟨Registers.size_unset .. ▸ hroom, rfl⟩
    · rintro ⟨hroom, rfl⟩
      refine ⟨_, m, ⟨rfl, rfl⟩, _, m, ⟨rfl, rfl⟩, ?_⟩
      rw [if_pos hstop]
      simp only [value, bind_eq_ok, read_eq_ok, updateThread_eq_ok, setRegister_eq_ok,
        clear_eq_ok]
      refine ⟨(), _, ⟨.inr (Nat.le_of_lt hroom), rfl⟩, (), _, rfl, _, _, ⟨rfl, rfl⟩, ?_, rfl⟩
      exact (Registers.size_unset ..).symm ▸ hroom
  · have hend : max m.thread.frameEnd (r + 1) = m.thread.frameEnd := by omega
    rw [stored, hend, Registers.unset_of_le _ (by omega)]
    constructor
    · rintro ⟨_, _, ⟨rfl, rfl⟩, _, m, ⟨rfl, rfl⟩, h⟩
      rw [if_neg hstop] at h
      simp only [value, bind_eq_ok, read_eq_ok, setRegister_eq_ok] at h
      obtain ⟨_, _, ⟨rfl, rfl⟩, hroom, rfl⟩ := h
      exact ⟨hroom, rfl⟩
    · rintro ⟨hroom, rfl⟩
      refine ⟨_, m, ⟨rfl, rfl⟩, _, m, ⟨rfl, rfl⟩, ?_⟩
      rw [if_neg hstop]
      simp only [value, bind_eq_ok, read_eq_ok, setRegister_eq_ok]
      exact ⟨_, _, ⟨rfl, rfl⟩, hroom, rfl⟩

/-- Storing writes the register, and those between the registers in use and it. -/
lemma same_stored (m : Machine) {n r : Nat} (hend : n ≤ m.thread.frame + m.thread.frameEnd)
    (hr : n ≤ m.thread.frame + r) :
    m.thread.registers.Same n (m.stored r).thread.registers :=
  ((Registers.Same.refl _ _).unset hend _).set hr _

/-- The machine that has opened a frame `base` registers up, with a return record that leads back
to where it is. The registers between those in use and the new frame are unset. -/
def opened (P : Program) (m : Machine) (base : Nat) : Machine :=
  { m with thread := { m.thread with
      registers := ((m.thread.registers.unset (m.thread.frame + m.thread.frameEnd)
        (m.thread.frame + base)).setIfInBounds (m.thread.frame + base) (P.nat base)).setIfInBounds
          (m.thread.frame + base + 1) (P.int m.thread.pos.toInt32)
      frame := m.thread.frame + base
      frameEnd := max (m.thread.frameEnd - base) recordSize } }

/-- **Opening a frame succeeds** if there is room for its return record. -/
lemma pushRecord_iff {base : Nat} : pushRecord P base m = .ok u m' ↔
    m.thread.frame + base + 1 < m.thread.registers.size ∧ m' = m.opened P base := by
  simp only [pushRecord, frame, frameEnd, pos, bind_eq_ok, read_eq_ok, setRegister_eq_ok,
    updateThread_eq_ok, clear_eq_ok]
  constructor
  · rintro ⟨_, _, ⟨rfl, rfl⟩, _, m, ⟨rfl, rfl⟩, _, _, ⟨-, rfl⟩, _, _, ⟨-, rfl⟩, _, _, ⟨rfl, rfl⟩,
      _, _, ⟨hroom, rfl⟩, rfl⟩
    simp only [registers_withRegisters, Array.size_setIfInBounds, Registers.size_unset] at hroom
    exact ⟨hroom, rfl⟩
  · rintro ⟨hroom, rfl⟩
    refine ⟨_, m, ⟨rfl, rfl⟩, _, m, ⟨rfl, rfl⟩, (), _, ⟨.inr (by omega), rfl⟩, (), _, ⟨?_, rfl⟩,
      _, _, ⟨rfl, rfl⟩, (), _, ⟨?_, rfl⟩, rfl⟩
    · rw [registers_withRegisters, Registers.size_unset]
      omega
    · simpa only [registers_withRegisters, Array.size_setIfInBounds, Registers.size_unset]
        using hroom

/-- Opening a frame writes its return record, and the registers between those in use and it. -/
lemma same_opened (P : Program) (m : Machine) {n base : Nat}
    (hend : n ≤ m.thread.frame + m.thread.frameEnd) (hbase : n ≤ m.thread.frame + base) :
    m.thread.registers.Same n (m.opened P base).thread.registers :=
  (((Registers.Same.refl _ _).unset hend _).set hbase _).set (Nat.le_succ_of_le hbase) _

/-! ### Globals -/

lemma setGlobal_eq_ok {g : UInt32} {v : Value} :
    onImage (Image.setGlobal g v) m = .ok u m' ↔ g.toNat < m.image.globals.size ∧
      m' = { m with image := { m.image with
        globals := m.image.globals.setIfInBounds g.toNat v } } := by
  obtain ⟨image, thread, transfer⟩ := m
  rw [onImage, Image.setGlobal]
  by_cases hg : g.toNat < image.globals.size
  · rw [if_pos hg]
    constructor
    · intro h
      cases h
      exact ⟨hg, rfl⟩
    · rintro ⟨-, rfl⟩
      rfl
  · rw [if_neg hg]
    exact ⟨fun h => (by cases h), fun h => absurd h.1 hg⟩

/-! ### Instructions -/

/-- The machine that has read the instruction at its position: it is reported, and the next one is
behind it. -/
def passed (m : Machine) (i : Instruction) : Machine :=
  ⟨⟨m.image.globals, m.image.heap, m.image.journal.record
      (.step m.thread.pos i m.thread.frame m.thread.frameEnd m.thread.context m.thread.value)⟩,
    { m.thread with pos := m.thread.pos + UInt32.ofNat i.size }, m.transfer⟩

/-- The machine with another value in its value register. -/
def holding (m : Machine) (v : Value) : Machine :=
  { m with thread := { m.thread with value := v } }

/-- What an instruction that has been read does: the method that it calls, if it is a call, and the
machine that it leads to. -/
inductive Executes (P : Program) (m : Machine) :
    Instruction → Option MethodId → Machine → Prop
  | load {r : UInt8} (room : m.thread.frame + r.toNat < m.thread.registers.size) :
      Executes P m (.load r) none
        (m.holding (m.thread.registers.cell (m.thread.frame + r.toNat)))
  | store {r : UInt8} (room : m.thread.frame + r.toNat < m.thread.registers.size) :
      Executes P m (.store r) none (m.stored r.toNat)
  | natural {n : Int32} : Executes P m (.natural n) none (m.holding (P.int n))
  | globalLoad {g : UInt32} {v : Value} (held : m.image.globals[g.toNat]? = some v) :
      Executes P m (.globalLoad g) none (m.holding v)
  | globalStore {g : UInt32} (room : g.toNat < m.image.globals.size) :
      Executes P m (.globalStore g) none { m with image := { m.image with
        globals := m.image.globals.setIfInBounds g.toNat m.thread.value } }
  | create {cls : ClassId} {base : UInt8} {fields : List Value} {v : Value} {m₁ : Machine}
      (slice : m.thread.registers.slice (m.thread.frame + base.toNat) (P.fieldCount cls) =
        .ok fields)
      (made : alloc P cls fields m = .ok v m₁) : Executes P m (.create cls base) none (m₁.holding v)
  | field {index : UInt32} {v : Value}
      (held : m.image.field P m.thread.value index.toNat = .ok v) :
      Executes P m (.field index) none (m.holding v)
  | ret {m' : Machine} (returns : returnValue P m = .ok () m') : Executes P m .ret none m'
  /-- A call in the same frame. -/
  | callHere {method : MethodId} : Executes P m (.call method 0) (some method) m
  | call {method : MethodId} {base : UInt8} (above : recordSize ≤ base.toNat)
      (room : m.thread.frame + base.toNat + 1 < m.thread.registers.size) :
      Executes P m (.call method base) (some method) (m.opened P base.toNat)

/-- An instruction that has been executed was read, and has done what its case says. -/
lemma executes_of_execute {call : Option MethodId} (h : execute P m = .ok call m') :
    ∃ i, Instruction.decode P.code m.thread.pos.toNat = .ok i ∧
      (m.passed i).Executes P i call m' := by
  simp only [execute, pos, frame, frameEnd, context, value, jump, bind_eq_ok, read_eq_ok,
    ofExcept_eq_ok, record_eq_ok, updateThread_eq_ok] at h
  obtain ⟨_, _, ⟨rfl, rfl⟩, i, _, ⟨hi, rfl⟩, _, _, ⟨rfl, rfl⟩, _, _, ⟨rfl, rfl⟩, _, _, ⟨rfl, rfl⟩,
    _, m, ⟨rfl, rfl⟩, _, _, rfl, _, m₁, hm₁, h⟩ := h
  obtain rfl : m₁ = m.passed i := hm₁
  refine ⟨i, mapError_eq_ok hi, ?_⟩
  cases i with
  | load r =>
      simp only [setValue, bind_eq_ok, read_eq_ok, register_eq_ok, updateThread_eq_ok] at h
      obtain ⟨_, _, ⟨rfl, rfl⟩, _, _, ⟨hroom, rfl, rfl⟩, _, _, rfl, h⟩ := h
      cases h
      exact .load hroom
  | store r =>
      obtain ⟨_, _, hs, h⟩ := bind_eq_ok.mp h
      obtain ⟨hroom, rfl⟩ := store_iff.mp hs
      cases h
      exact .store hroom
  | natural n =>
      cases h
      exact .natural
  | globalLoad g =>
      simp only [setValue, bind_eq_ok, query_eq_ok, updateThread_eq_ok] at h
      obtain ⟨v, _, ⟨hv, rfl⟩, _, _, rfl, h⟩ := h
      cases h
      exact .globalLoad (Image.global_eq_ok.mp hv)
  | globalStore g =>
      simp only [bind_eq_ok, read_eq_ok, setGlobal_eq_ok] at h
      obtain ⟨_, _, ⟨rfl, rfl⟩, _, _, ⟨hroom, rfl⟩, h⟩ := h
      cases h
      exact .globalStore hroom
  | create cls base =>
      simp only [create, frame, setValue, bind_eq_ok, read_eq_ok, query_eq_ok,
        updateThread_eq_ok] at h
      obtain ⟨_, _, ⟨_, _, ⟨rfl, rfl⟩, fields, _, ⟨hslice, rfl⟩, v, m₁, hmade, rfl⟩, h⟩ := h
      cases h
      exact .create hslice hmade
  | field index =>
      simp only [setValue, field, bind_eq_ok, read_eq_ok, query_eq_ok, updateThread_eq_ok] at h
      obtain ⟨_, _, ⟨rfl, rfl⟩, v, _, ⟨hv, rfl⟩, _, _, rfl, h⟩ := h
      cases h
      exact .field hv
  | ret =>
      obtain ⟨_, _, hr, h⟩ := bind_eq_ok.mp h
      cases h
      exact .ret hr
  | call method base =>
      dsimp only at h
      split at h
      · cases h
      · rename_i hone
        split at h
        · rename_i hzero
          obtain ⟨_, _, hs, h⟩ := bind_eq_ok.mp h
          obtain ⟨hroom, rfl⟩ := pushRecord_iff.mp hs
          cases h
          -- a base that is neither zero nor one leaves room for the return record below
          have hne : base.toNat ≠ 0 := fun h0 => hzero (UInt8.toNat_inj.mp h0)
          have hne' : base.toNat ≠ 1 := fun h1 => hone (UInt8.toNat_inj.mp h1)
          exact .call (by rw [recordSize]; omega) hroom
        · rename_i hzero
          cases h
          cases not_not.mp hzero
          exact .callHere

/-- An instruction that has been read is executed, if its case holds. -/
lemma execute_of_executes {i : Instruction}
    (hi : Instruction.decode P.code m.thread.pos.toNat = .ok i) {call : Option MethodId}
    (h : (m.passed i).Executes P i call m') : execute P m = .ok call m' := by
  have hi' : (Instruction.decode P.code m.thread.pos.toNat).mapError Fault.decode = .ok i := by
    rw [hi]
    rfl
  simp only [execute, pos, frame, frameEnd, context, value, jump, bind_eq_ok, read_eq_ok,
    ofExcept_eq_ok, record_eq_ok, updateThread_eq_ok]
  refine ⟨_, m, ⟨rfl, rfl⟩, i, m, ⟨hi', rfl⟩, _, m, ⟨rfl, rfl⟩, _, m, ⟨rfl, rfl⟩, _, m, ⟨rfl, rfl⟩,
    _, m, ⟨rfl, rfl⟩, (), _, rfl, (), m.passed i, rfl, ?_⟩
  cases h with
  | load room =>
      simp only [setValue, bind_eq_ok, read_eq_ok, register_eq_ok, updateThread_eq_ok]
      exact ⟨_, _, ⟨rfl, rfl⟩, _, _, ⟨room, rfl, rfl⟩, (), _, rfl, rfl⟩
  | store room => exact bind_eq_ok.mpr ⟨(), _, store_iff.mpr ⟨room, rfl⟩, rfl⟩
  | natural => rfl
  | globalLoad held =>
      simp only [setValue, bind_eq_ok, query_eq_ok, updateThread_eq_ok]
      exact ⟨_, _, ⟨Image.global_eq_ok.mpr held, rfl⟩, (), _, rfl, rfl⟩
  | globalStore room =>
      simp only [bind_eq_ok, read_eq_ok, setGlobal_eq_ok]
      exact ⟨_, _, ⟨rfl, rfl⟩, (), _, ⟨room, rfl⟩, rfl⟩
  | create slice made =>
      simp only [create, frame, setValue, bind_eq_ok, read_eq_ok, query_eq_ok, updateThread_eq_ok]
      exact ⟨(), _, ⟨_, _, ⟨rfl, rfl⟩, _, _, ⟨slice, rfl⟩, _, _, made, rfl⟩, rfl⟩
  | field held =>
      simp only [setValue, field, bind_eq_ok, read_eq_ok, query_eq_ok, updateThread_eq_ok]
      exact ⟨_, _, ⟨rfl, rfl⟩, _, _, ⟨held, rfl⟩, (), _, rfl, rfl⟩
  | ret returns => exact bind_eq_ok.mpr ⟨(), _, returns, rfl⟩
  | callHere => rfl
  | @call method base above room =>
      have hone : base ≠ 1 := by
        rintro rfl
        exact absurd above (by decide)
      have hzero : base ≠ 0 := by
        rintro rfl
        exact absurd above (by decide)
      dsimp only
      rw [if_neg hone, if_pos hzero]
      exact bind_eq_ok.mpr ⟨(), _, pushRecord_iff.mpr ⟨room, rfl⟩, rfl⟩

/-- **An instruction is executed exactly as its case says**, once it has been read. -/
theorem execute_iff {call : Option MethodId} : execute P m = .ok call m' ↔
    ∃ i, Instruction.decode P.code m.thread.pos.toNat = .ok i ∧
      (m.passed i).Executes P i call m' := by
  constructor
  · exact executes_of_execute
  · rintro ⟨i, hi, h⟩
    exact execute_of_executes hi h

/-! ### Arguments -/

lemma arg_eq_ok {i : Nat} {v : Value} :
    arg i m = .ok v m' ↔ m.thread.frame + recordSize + i < m.thread.registers.size ∧
      v = m.argument i ∧ m' = m :=
  register_eq_ok

lemma intArg_eq_ok {i : Nat} {n : Int32} :
    intArg P i m = .ok n m' ↔ m.thread.frame + recordSize + i < m.thread.registers.size ∧
      P.intValue (m.argument i) = .ok n ∧ m' = m := by
  simp only [intArg, bind_eq_ok, arg_eq_ok, ofExcept_eq_ok]
  constructor
  · rintro ⟨_, _, ⟨hi, rfl, rfl⟩, hn, rfl⟩
    exact ⟨hi, hn, rfl⟩
  · rintro ⟨hi, hn, rfl⟩
    exact ⟨_, _, ⟨hi, rfl, rfl⟩, hn, rfl⟩

/-! ### Core natives -/

/-- The machine with another word at an offset of its heap. -/
def written (m : Machine) (offset : Nat) (v : Value) : Machine :=
  { m with image := { m.image with heap := m.image.heap.write offset v } }

/-- The natives that return an integer, and those that return a truth value. -/
def integerNatives : List String :=
  ["core:int_add", "core:int_sub", "core:int_mul", "core:int_div", "core:array_len"]

def truthNatives : List String := ["core:int_eq", "core:int_lt"]

/-- What a core native of a name does: the operation on handlers that it performs, or the value
that it returns. -/
inductive RunsCore (P : Program) (m : Machine) : String → Machine → Prop
  | enterContext {m' : Machine}
      (enters : Machine.enterContext P (m.argument 0) (m.argument 1) m = .ok () m') :
      RunsCore P m "core:enter_context" m'
  | trigger {n : Int32} {m' : Machine} (effect : P.intValue (m.argument 0) = .ok n)
      (sign : ¬ n < 0)
      (triggers : Machine.trigger P ⟨n.toUInt32⟩ (m.argument 1) m = .ok () m') :
      RunsCore P m "core:trigger_effect" m'
  | abort {m' : Machine} (aborts : Machine.abort P (m.argument 0) m = .ok () m') :
      RunsCore P m "core:fast_abort_handler" m'
  | fastResume {m' : Machine} (resumes : Machine.fastResume P (m.argument 0) m = .ok () m') :
      RunsCore P m "core:fast_resume_handler" m'
  | reify {m' : Machine} (reifies : Machine.reify P (m.argument 0) m = .ok () m') :
      RunsCore P m "core:reify_handler_context" m'
  | resume {m' : Machine}
      (resumes : Machine.resume P (m.argument 0) (m.argument 1) m = .ok () m') :
      RunsCore P m "core:resume_handler" m'
  | integer {name : String} {n : Int32} {m' : Machine} (mem : name ∈ integerNatives)
      (returns : ret P (P.int n) m = .ok () m') : RunsCore P m name m'
  | truth {name : String} {b : Bool} {v : Value} {m' : Machine} (mem : name ∈ truthNatives)
      (truth : P.boolean b = .ok v) (returns : ret P v m = .ok () m') : RunsCore P m name m'
  /-- One of the arguments is called in place. -/
  | conditional {i : Nat} (mem : i ∈ m.conditionalRead P) :
      RunsCore P m "core:if" ⟨m.image, { m.thread with
        frameEnd := max m.thread.frameEnd recordSize, value := m.argument i },
        some (.call .call)⟩
  | arrayGet {i : Nat} {v : Value} {m' : Machine}
      (held : m.image.field P (m.argument 0) i = .ok v) (returns : ret P v m = .ok () m') :
      RunsCore P m "core:array_get" m'
  /-- All three arguments are read. -/
  | arraySet {i : Nat} {m' : Machine} (index : i < P.fieldCount (m.argument 0).tag)
      (reads : m.elementRead P = [0, 1, 2])
      (returns : ret P (m.argument 2)
        (m.written ((m.argument 0).offset + i) (m.argument 2)) = .ok () m') :
      RunsCore P m "core:array_set" m'

section

variable {r : Value}

lemma arithmetic_eq_ok {op : Int32 → Int32 → Except TypeFault Int32}
    (h : CoreNatives.arithmetic op P r m = .ok u m') : ∃ n, ret P (P.int n) m = .ok () m' := by
  simp only [CoreNatives.arithmetic, bind_eq_ok, intArg_eq_ok] at h
  obtain ⟨a, _, ⟨-, -, rfl⟩, b, _, ⟨-, -, rfl⟩, h⟩ := h
  cases hop : op a b with
  | ok n =>
      rw [hop] at h
      exact ⟨n, h⟩
  | error e =>
      rw [hop] at h
      cases h

lemma comparison_eq_ok {test : Int32 → Int32 → Bool}
    (h : CoreNatives.comparison test P r m = .ok u m') :
    ∃ b v, P.boolean b = .ok v ∧ ret P v m = .ok () m' := by
  simp only [CoreNatives.comparison, bind_eq_ok, intArg_eq_ok, ofExcept_eq_ok] at h
  obtain ⟨a, _, ⟨-, -, rfl⟩, b, _, ⟨-, -, rfl⟩, v, _, ⟨hv, rfl⟩, h⟩ := h
  exact ⟨test a b, v, hv, h⟩

lemma arrayLength_eq_ok (h : CoreNatives.arrayLength P r m = .ok u m') :
    ∃ n, ret P (P.int n) m = .ok () m' := by
  simp only [CoreNatives.arrayLength, bind_eq_ok, arg_eq_ok] at h
  obtain ⟨v, _, ⟨-, -, rfl⟩, h⟩ := h
  cases hlength : v.tag.arrayLength? with
  | some length =>
      rw [hlength] at h
      exact ⟨_, h⟩
  | none =>
      rw [hlength] at h
      cases h

/-- A conditional calls one of its arguments in its own place. -/
lemma conditional_eq_ok (h : CoreNatives.conditional P r m = .ok u m') :
    m.RunsCore P "core:if" m' := by
  simp only [CoreNatives.conditional, tailCall, frame, bind_eq_ok, arg_eq_ok, ofExcept_eq_ok,
    claim_eq_ok, read_eq_ok, write_eq_ok, updateThread_eq_ok] at h
  obtain ⟨_, _, ⟨-, rfl, rfl⟩, b, _, ⟨hb, rfl⟩, _, _, ⟨-, rfl, rfl⟩, _, _, ⟨-, rfl⟩, _, _,
    ⟨rfl, rfl⟩, _, _, ⟨-, rfl⟩, rfl⟩ := h
  refine .conditional (i := if b then 1 else 2) ?_
  rw [conditionalRead, hb]
  exact List.mem_cons_of_mem _ List.mem_cons_self

/-- The element of an array that is named by the arguments. -/
lemma arrayIndex_eq_ok {x : Value × Nat} (h : CoreNatives.arrayIndex P m = .ok x m') :
    m' = m ∧ x.1 = m.argument 0 ∧ x.2 < P.fieldCount x.1.tag ∧
      m.elementRead P = [0, 1, 2] := by
  simp only [CoreNatives.arrayIndex, bind_eq_ok, arg_eq_ok, intArg_eq_ok] at h
  obtain ⟨v, _, ⟨-, hv, rfl⟩, n, _, ⟨-, hn, rfl⟩, h⟩ := h
  cases hlength : v.tag.arrayLength? with
  | some length =>
      rw [hlength] at h
      dsimp only at h
      split at h
      · rename_i hlt
        cases h
        refine ⟨rfl, hv, ?_, ?_⟩
        · rw [Program.fieldCount, hlength]
          exact hlt
        · rw [elementRead, ← hv, hlength, hn]
          exact if_pos hlt
      · cases h
  | none =>
      rw [hlength] at h
      cases h

lemma setField_eq_ok {object v : Value} {i : Nat}
    (h : onImage (Image.setField P object i v) m = .ok u m') :
    m' = m.written (object.offset + i) v := by
  obtain ⟨⟨globals, heap, journal⟩, thread, transfer⟩ := m
  rw [onImage, Image.setField, Image.checkField] at h
  split at h
  · rename_i hset
    cases h
    split at hset
    · simp only [Action.ofExcept, bind, EStateM.bind, Image.onHeap, Heap.setField, Heap.slot] at hset
      split at hset
      · rename_i hs
        split at hs
        · rename_i hslot
          split at hslot
          · cases hslot
            cases hs
            cases hset
            rfl
          · cases hslot
        · cases hs
      · cases hset
    · cases hset
  · cases h

lemma arrayGet_eq_ok (h : CoreNatives.arrayGet P r m = .ok u m') :
    m.RunsCore P "core:array_get" m' := by
  simp only [CoreNatives.arrayGet, field, bind_eq_ok, query_eq_ok] at h
  obtain ⟨⟨array, i⟩, _, hi, v, _, ⟨hv, rfl⟩, hr⟩ := h
  obtain ⟨rfl, rfl, -⟩ := arrayIndex_eq_ok hi
  exact .arrayGet hv hr

/-- What an element of an array has been set to is returned. -/
lemma arraySet_eq_ok (h : CoreNatives.arraySet P r m = .ok u m') :
    m.RunsCore P "core:array_set" m' := by
  simp only [CoreNatives.arraySet, bind_eq_ok, arg_eq_ok] at h
  obtain ⟨⟨array, i⟩, _, hi, _, m, ⟨-, rfl, rfl⟩, _, m₁, hset, hr⟩ := h
  obtain ⟨rfl, rfl, hlt, hread⟩ := arrayIndex_eq_ok hi
  cases setField_eq_ok hset
  exact .arraySet hlt hread hr

/-- **A core native is run as one of the cases says.** -/
theorem runsCore_of_mem {name : String} {native : Native} (hcore : (name, native) ∈ coreNatives)
    (h : native P r m = .ok u m') : m.RunsCore P name m' := by
  simp only [coreNatives, List.mem_cons, List.not_mem_nil, or_false, Prod.mk.injEq] at hcore
  rcases hcore with ⟨rfl, rfl⟩ | ⟨rfl, rfl⟩ | ⟨rfl, rfl⟩ | ⟨rfl, rfl⟩ | ⟨rfl, rfl⟩ | ⟨rfl, rfl⟩ |
    ⟨rfl, rfl⟩ | ⟨rfl, rfl⟩ | ⟨rfl, rfl⟩ | ⟨rfl, rfl⟩ | ⟨rfl, rfl⟩ | ⟨rfl, rfl⟩ | ⟨rfl, rfl⟩ |
    ⟨rfl, rfl⟩ | ⟨rfl, rfl⟩ | ⟨rfl, rfl⟩
  · simp only [CoreNatives.enterContext, bind_eq_ok, arg_eq_ok] at h
    obtain ⟨_, _, ⟨-, rfl, rfl⟩, _, _, ⟨-, rfl, rfl⟩, h⟩ := h
    exact .enterContext h
  · simp only [CoreNatives.triggerEffect, bind_eq_ok, intArg_eq_ok] at h
    obtain ⟨n, _, ⟨-, hn, rfl⟩, h⟩ := h
    split at h
    · cases h
    · rename_i hsign
      simp only [bind_eq_ok, arg_eq_ok] at h
      obtain ⟨_, _, ⟨-, rfl, rfl⟩, h⟩ := h
      exact .trigger hn hsign h
  · simp only [CoreNatives.fastAbort, bind_eq_ok, arg_eq_ok] at h
    obtain ⟨_, _, ⟨-, rfl, rfl⟩, h⟩ := h
    exact .abort h
  · simp only [CoreNatives.fastResume, bind_eq_ok, arg_eq_ok] at h
    obtain ⟨_, _, ⟨-, rfl, rfl⟩, h⟩ := h
    exact .fastResume h
  · simp only [CoreNatives.reify, bind_eq_ok, arg_eq_ok] at h
    obtain ⟨_, _, ⟨-, rfl, rfl⟩, h⟩ := h
    exact .reify h
  · simp only [CoreNatives.resume, bind_eq_ok, arg_eq_ok] at h
    obtain ⟨_, _, ⟨-, rfl, rfl⟩, _, _, ⟨-, rfl, rfl⟩, h⟩ := h
    exact .resume h
  -- `core:int_add`, `core:int_sub`, `core:int_mul`, `core:int_div`
  iterate 4
    · obtain ⟨n, hr⟩ := arithmetic_eq_ok h
      exact .integer (by decide) hr
  -- `core:int_eq`, `core:int_lt`
  iterate 2
    · obtain ⟨b, v, hv, hr⟩ := comparison_eq_ok h
      exact .truth (by decide) hv hr
  · exact conditional_eq_ok h
  · obtain ⟨n, hr⟩ := arrayLength_eq_ok h
    exact .integer (by decide) hr
  · exact arrayGet_eq_ok h
  · exact arraySet_eq_ok h

end

end Machine

end EffectMachine
