/-
What the primitive operations of the machine do.

* `Machine.bind_apply`, `Machine.bind_eq_ok`: sequences of operations;
* `Machine.query_eq_ok`, `Machine.register_eq_ok`: reading;
* `Machine.updateThread_eq_ok`, `Machine.record_eq_ok`, `Machine.claim_eq_ok`:
  steering and reporting;
* `Machine.withRegisters`: a machine with other registers;
* `Machine.setRegister_eq`, `Machine.onRegisters_write`,
  `Machine.onRegisters_clear`: writing registers, which fails past their end.
-/
import EffectMachine.Effects
import EffectMachine.Proofs.ContextWalks

namespace EffectMachine

lemma mapError_eq_ok {ε ε' α : Type} {x : Except ε α} {f : ε → ε'} {a : α}
    (h : x.mapError f = .ok a) : x = .ok a := by
  cases x with
  | ok b =>
      cases h
      rfl
  | error e => cases h

namespace Machine

/-! ### Sequences -/

variable {α β : Type} {m m' : Machine}

lemma bind_apply (x : MachineM α) (f : α → MachineM β) (m : Machine) :
    (x >>= f) m =
      match x m with
      | .ok a s => f a s
      | .error e s => .error e s := by
  simp only [bind, EStateM.bind]
  cases x m <;> rfl

lemma bind_eq_ok {x : MachineM α} {f : α → MachineM β} {b : β} :
    (x >>= f) m = .ok b m' ↔ ∃ a s, x m = .ok a s ∧ f a s = .ok b m' := by
  rw [bind_apply]
  constructor
  · intro h
    split at h
    · rename_i a s hx
      exact ⟨a, s, hx, h⟩
    · cases h
  · rintro ⟨a, s, hx, hf⟩
    rw [hx]
    exact hf

/-! ### Reading -/

lemma read_eq_ok {f : Machine → α} {a : α} : read f m = .ok a m' ↔ a = f m ∧ m' = m := by
  constructor
  · intro h
    cases h
    exact ⟨rfl, rfl⟩
  · rintro ⟨rfl, rfl⟩
    rfl

lemma query_of_ok {f : Machine → Except Fault α} {a : α} (h : f m = .ok a) :
    query f m = .ok a m := by
  rw [query, h]

lemma query_of_error {f : Machine → Except Fault α} {e : Fault} (h : f m = .error e) :
    query f m = .error e m := by
  rw [query, h]

lemma query_eq_ok {f : Machine → Except Fault α} {a : α} :
    query f m = .ok a m' ↔ f m = .ok a ∧ m' = m := by
  rw [query]
  constructor
  · intro h
    split at h
    · rename_i b hb
      cases h
      exact ⟨hb, rfl⟩
    · cases h
  · rintro ⟨h, rfl⟩
    rw [h]

lemma ofExcept_eq_ok {x : Except Fault α} {a : α} :
    (Action.ofExcept x : MachineM α) m = .ok a m' ↔ x = .ok a ∧ m' = m := by
  cases x with
  | ok b =>
      constructor
      · intro h
        cases h
        exact ⟨rfl, rfl⟩
      · rintro ⟨h, rfl⟩
        cases h
        rfl
  | error e =>
      constructor
      · intro h
        cases h
      · rintro ⟨h, -⟩
        cases h

/-- A register is read below the end of the register file. -/
lemma register_eq_ok {i : Nat} {v : Value} :
    register i m = .ok v m' ↔ i < m.thread.registers.size ∧ v = m.thread.registers.cell i ∧
      m' = m := by
  rw [register, query_eq_ok]
  by_cases hi : i < m.thread.registers.size
  · rw [Registers.get_of_lt hi]
    constructor
    · rintro ⟨h, rfl⟩
      cases h
      exact ⟨hi, rfl, rfl⟩
    · rintro ⟨-, rfl, rfl⟩
      exact ⟨rfl, rfl⟩
  · rw [Registers.get_of_le (by omega)]
    constructor
    · rintro ⟨h, -⟩
      cases h
    · rintro ⟨h, -⟩
      exact absurd h hi

/-! ### Steering and reporting -/

lemma updateThread_eq_ok {f : Thread → Thread} {u : Unit} :
    updateThread f m = .ok u m' ↔ m' = { m with thread := f m.thread } := by
  constructor
  · intro h
    cases h
    rfl
  · rintro rfl
    rfl

/-- A report changes the journal only. -/
lemma record_eq_ok {e : Entry} {u : Unit} :
    record e m = .ok u m' ↔
      m' = { m with image := { m.image with journal := m.image.journal.record e } } := by
  constructor
  · intro h
    cases h
    rfl
  · rintro rfl
    rfl

/-- Control is handed on once. -/
lemma claim_eq_ok {how : Transfer} {u : Unit} :
    claim how m = .ok u m' ↔ m.transfer = none ∧ m' = { m with transfer := some how } := by
  obtain ⟨image, thread, transfer⟩ := m
  cases transfer with
  | none =>
      constructor
      · intro h
        cases h
        exact ⟨rfl, rfl⟩
      · rintro ⟨-, rfl⟩
        rfl
  | some mark =>
      constructor
      · intro h
        cases h
      · rintro ⟨h, -⟩
        cases h

/-! ### Writing registers -/

/-- The machine with other registers. -/
def withRegisters (m : Machine) (rs : Registers) : Machine :=
  { m with thread := { m.thread with registers := rs } }

@[simp] lemma registers_withRegisters (m : Machine) (rs : Registers) :
    (m.withRegisters rs).thread.registers = rs := rfl

lemma setRegister_eq (i : Nat) (v : Value) (m : Machine) :
    setRegister i v m =
      if i < m.thread.registers.size then
        .ok () (m.withRegisters (m.thread.registers.setIfInBounds i v))
      else .error .stackOverflow m := by
  rw [setRegister, onRegisters, Registers.set]
  by_cases hi : i < m.thread.registers.size
  · rw [if_pos hi, if_pos hi]
    rfl
  · rw [if_neg hi, if_neg hi]

lemma onRegisters_write (base : Nat) (vs : List Value) (m : Machine) :
    onRegisters (Registers.write base vs) m =
      if base + vs.length ≤ m.thread.registers.size then
        .ok () (m.withRegisters (Cells.overwrite m.thread.registers base vs))
      else .error .stackOverflow m := by
  rw [onRegisters, Registers.write]
  by_cases hi : base + vs.length ≤ m.thread.registers.size
  · rw [if_pos hi, if_pos hi]
    rfl
  · rw [if_neg hi, if_neg hi]

lemma onRegisters_clear (start stop : Nat) (m : Machine) :
    onRegisters (Registers.clear start stop) m =
      if stop ≤ start then .ok () m
      else if stop ≤ m.thread.registers.size then
        .ok () (m.withRegisters (Cells.overwrite m.thread.registers start
          (List.replicate (stop - start) .nil)))
      else .error .stackOverflow m := by
  rw [onRegisters, Registers.clear]
  by_cases hle : stop ≤ start
  · rw [if_pos hle, if_pos hle]
  · rw [if_neg hle, if_neg hle]
    by_cases hi : stop ≤ m.thread.registers.size
    · rw [if_pos hi, if_pos hi]
      rfl
    · rw [if_neg hi, if_neg hi]

lemma setRegister_eq_ok {i : Nat} {v : Value} {u : Unit} :
    setRegister i v m = .ok u m' ↔ i < m.thread.registers.size ∧
      m' = m.withRegisters (m.thread.registers.setIfInBounds i v) := by
  rw [setRegister_eq]
  constructor
  · intro h
    split at h
    · rename_i hi
      cases h
      exact ⟨hi, rfl⟩
    · cases h
  · rintro ⟨hi, rfl⟩
    rw [if_pos hi]

lemma write_eq_ok {base : Nat} {vs : List Value} {u : Unit} :
    onRegisters (Registers.write base vs) m = .ok u m' ↔
      base + vs.length ≤ m.thread.registers.size ∧
        m' = m.withRegisters (Cells.overwrite m.thread.registers base vs) := by
  rw [onRegisters_write]
  constructor
  · intro h
    split at h
    · rename_i hi
      cases h
      exact ⟨hi, rfl⟩
    · cases h
  · rintro ⟨hi, rfl⟩
    rw [if_pos hi]

end Machine

end EffectMachine
