/-
Walks along context records depend on classes and inline data only.

Values are alike if they have the same class and, being inline, the same data.
A collection leaves every register alike, and so do two runs of one program in
heaps of different sizes; walks along the records cannot tell such registers
apart.

* `Value.Alike`, `Registers.Alike`: values and registers that are alike;
* `Context.parent_congr`, `Context.handling_congr`, `Context.unwind_congr`,
  `Context.synthetic_congr`, `Context.handler_congr`: **walks over registers that
  are alike end alike**;
* `Context.unwind_spec`, `Context.handling_spec`, `Context.synthetic_spec`,
  `Context.handler_spec`: where walks can end.
-/
import EffectMachine.Context
import EffectMachine.Proofs.Objects

namespace EffectMachine

/-! ### Values and registers that are alike -/

/-- The values have the same class, and the same data if it is inline. -/
def Value.Alike (P : Program) (v w : Value) : Prop :=
  v.tag = w.tag ∧ (P.fieldCount v.tag = 0 → v = w)

namespace Value.Alike

variable {P : Program} {u v w : Value}

lemma refl (v : Value) : v.Alike P v := ⟨rfl, fun _ => rfl⟩

lemma trans (h : u.Alike P v) (h' : v.Alike P w) : u.Alike P w :=
  ⟨h.1.trans h'.1, fun hu => (h.2 hu).trans (h'.2 (h.1 ▸ hu))⟩

end Value.Alike

namespace Registers

variable {P : Program} {n : Nat} {rs rs' : Registers}

lemma get_of_lt {i : Nat} (h : i < rs.size) : rs.get i = .ok (rs.cell i) := by
  rw [get, Array.getElem?_eq_getElem h, Cells.cell_eq_getD, Array.getElem?_eq_getElem h]
  rfl

lemma get_of_le {i : Nat} (h : rs.size ≤ i) : rs.get i = .error .stackOverflow := by
  rw [get, Array.getElem?_eq_none h]

/-- The first registers of two register files are alike. -/
structure Alike (P : Program) (n : Nat) (rs rs' : Registers) : Prop where
  size : n ≤ rs.size
  size' : n ≤ rs'.size
  cell : ∀ i < n, (rs.cell i).Alike P (rs'.cell i)

end Registers

/-! ### Walks over registers that are alike -/

namespace Context

variable {P : Program} {n : Nat} {rs rs' : Registers} {ctx : Nat}

lemma readInt_congr (hint : P.fieldCount P.intClass = 0) (h : rs.Alike P n rs') {i : Nat}
    (hi : i < n) : readInt P rs i = readInt P rs' i := by
  obtain ⟨htag, hdata⟩ := h.cell i hi
  rw [readInt, readInt, Registers.get_of_lt (Nat.lt_of_lt_of_le hi h.size),
    Registers.get_of_lt (Nat.lt_of_lt_of_le hi h.size')]
  dsimp only
  by_cases hcls : (rs.cell i).tag = P.intClass
  · rw [hdata (hcls ▸ hint)]
  · rw [if_neg hcls, if_neg (htag ▸ hcls)]

lemma parent_congr (hint : P.fieldCount P.intClass = 0) (h : rs.Alike P n rs') (hctx : ctx < n) :
    parent P rs ctx = parent P rs' ctx := by
  rw [parent, parent, readInt_congr hint h hctx]

lemma handling_congr (hempty : P.fieldCount .empty = 0) (h : rs.Alike P n rs')
    (hctx : ctx + 1 < n) (htag : (rs.cell (ctx + 1)).tag = .empty) :
    handling rs ctx = handling rs' ctx := by
  rw [handling, handling, Registers.get_of_lt (Nat.lt_of_lt_of_le hctx h.size),
    Registers.get_of_lt (Nat.lt_of_lt_of_le hctx h.size'),
    (h.cell _ hctx).2 (htag ▸ hempty)]

lemma unwind_eq (P : Program) (rs : Registers) (frame ctx : Nat) :
    unwind P rs frame ctx =
      if ctx = 0 ∨ ctx + recordSize ≤ frame then .ok ctx
      else (parent P rs ctx).bind (unwind P rs frame) := by
  rw [unwind]
  split
  · rfl
  · split <;> rename_i hp <;> rw [hp] <;> rfl

lemma synthetic_eq (P : Program) (rs : Registers) (ctx : Nat) :
    synthetic P rs ctx =
      if ctx = 0 then .error .notInHandler
      else (rs.get (ctx + 1)).bind fun handler =>
        if handler.tag = .empty then .ok ctx else (parent P rs ctx).bind (synthetic P rs) := by
  rw [synthetic]
  split
  · rfl
  · split <;> rename_i hget <;> rw [hget]
    · rfl
    · dsimp only [Except.bind]
      split
      · rfl
      · split <;> rename_i hp <;> rw [hp]

/-- The search for a handler goes on from the enclosing record, that of the
record served in case of a synthetic one. -/
lemma handler_eq (P : Program) (rs : Registers) (m : MethodId) (ctx : Nat) :
    Context.handler P rs m ctx =
      if ctx = 0 then .error (.unhandledEffect m)
      else (rs.get (ctx + 1)).bind fun handler =>
        if handler.tag = .empty then
          (handling rs ctx).bind fun c => (parent P rs c).bind (Context.handler P rs m)
        else if (P.dispatch handler.tag m).isSome then .ok ctx
        else (parent P rs ctx).bind (Context.handler P rs m) := by
  rw [Context.handler]
  split
  · rfl
  · split <;> rename_i hget <;> rw [hget]
    · rfl
    · dsimp only [Except.bind]
      split
      · split <;> rename_i hc <;> rw [hc]
        dsimp only [Except.bind]
        split <;> rename_i hp <;> rw [hp]
      · split
        · rfl
        · split <;> rename_i hp <;> rw [hp]

lemma unwind_congr (hint : P.fieldCount P.intClass = 0) (h : rs.Alike P n rs') (frame : Nat)
    (hctx : ctx < n) : unwind P rs frame ctx = unwind P rs' frame ctx := by
  induction ctx using Nat.strong_induction_on with
  | _ ctx ih =>
      rw [unwind_eq, unwind_eq P rs', ← parent_congr hint h hctx]
      cases hp : parent P rs ctx with
      | error e => rfl
      | ok p =>
          have hlt := parent_lt hp
          rw [Except.bind, Except.bind, ih p hlt (by omega)]

lemma synthetic_congr (hint : P.fieldCount P.intClass = 0) (h : rs.Alike P n rs')
    (hctx : ctx + 1 < n) : synthetic P rs ctx = synthetic P rs' ctx := by
  induction ctx using Nat.strong_induction_on with
  | _ ctx ih =>
      rw [synthetic_eq, synthetic_eq P rs', ← parent_congr hint h (by omega),
        Registers.get_of_lt (Nat.lt_of_lt_of_le hctx h.size),
        Registers.get_of_lt (Nat.lt_of_lt_of_le hctx h.size')]
      dsimp only [Except.bind]
      rw [← (h.cell _ hctx).1]
      cases hp : parent P rs ctx with
      | error e => rfl
      | ok p =>
          have hlt := parent_lt hp
          dsimp only
          rw [ih p hlt (by omega)]

lemma handler_congr (hint : P.fieldCount P.intClass = 0) (hempty : P.fieldCount .empty = 0)
    (h : rs.Alike P n rs') (m : MethodId) (hctx : ctx + 1 < n) :
    Context.handler P rs m ctx = Context.handler P rs' m ctx := by
  induction ctx using Nat.strong_induction_on with
  | _ ctx ih =>
      rw [handler_eq, handler_eq P rs', Registers.get_of_lt (Nat.lt_of_lt_of_le hctx h.size),
        Registers.get_of_lt (Nat.lt_of_lt_of_le hctx h.size')]
      dsimp only [Except.bind]
      rw [← (h.cell _ hctx).1, ← parent_congr hint h (by omega : ctx < n)]
      by_cases htag : (rs.cell (ctx + 1)).tag = .empty
      · rw [if_pos htag, if_pos htag, ← handling_congr hempty h hctx htag]
        cases hc : handling rs ctx with
        | error e => rfl
        | ok c =>
            have hlt := handling_lt hc
            dsimp only
            rw [← parent_congr hint h (by omega : c < n)]
            cases hp : parent P rs c with
            | error e => rfl
            | ok p =>
                have hlt' := parent_lt hp
                dsimp only
                rw [ih p (by omega) (by omega)]
      · rw [if_neg htag, if_neg htag]
        cases hp : parent P rs ctx with
        | error e => rfl
        | ok p =>
            have hlt := parent_lt hp
            dsimp only
            rw [ih p hlt (by omega)]

/-! ### Where walks can end -/

/-- Unwinding ends at the outermost record or below the frame. -/
lemma unwind_spec {frame c : Nat} (h : unwind P rs frame ctx = .ok c) :
    c ≤ ctx ∧ (c = 0 ∨ c + recordSize ≤ frame) := by
  induction ctx using Nat.strong_induction_on with
  | _ ctx ih =>
      rw [unwind_eq] at h
      split at h
      · cases h
        exact ⟨Nat.le_refl c, ‹_›⟩
      · cases hp : parent P rs ctx with
        | error e => rw [hp] at h; cases h
        | ok p =>
            rw [hp] at h
            have hlt := parent_lt hp
            have hend := ih p hlt h
            exact ⟨by omega, hend.2⟩

/-- The record that a synthetic record serves is no outermost one, and ends
below it. -/
lemma handling_spec {c : Nat} (h : handling rs ctx = .ok c) : 0 < c ∧ c + recordSize ≤ ctx := by
  rw [handling] at h
  split at h
  · cases h
  · dsimp only at h
    split at h
    · rename_i hd
      cases h
      omega
    · cases h

/-- A synthetic record is marked by a value of the empty class. -/
lemma synthetic_spec {s : Nat} (h : synthetic P rs ctx = .ok s) :
    0 < s ∧ s ≤ ctx ∧ s + 1 < rs.size ∧ (rs.cell (s + 1)).tag = .empty := by
  induction ctx using Nat.strong_induction_on with
  | _ ctx ih =>
      rw [synthetic_eq] at h
      split at h
      · cases h
      · by_cases hsize : ctx + 1 < rs.size
        · rw [Registers.get_of_lt hsize] at h
          dsimp only [Except.bind] at h
          split at h
          · cases h
            exact ⟨by omega, Nat.le_refl s, hsize, ‹_›⟩
          · cases hp : parent P rs ctx with
            | error e => rw [hp] at h; cases h
            | ok p =>
                rw [hp] at h
                have hlt := parent_lt hp
                obtain ⟨hpos, hle, hrest⟩ := ih p hlt h
                exact ⟨hpos, by omega, hrest⟩
        · rw [Registers.get_of_le (by omega)] at h
          cases h

/-- A record that handles an effect has a handler that implements it. -/
lemma handler_spec {m : MethodId} {c : Nat} (h : Context.handler P rs m ctx = .ok c) :
    0 < c ∧ c ≤ ctx ∧ c + 1 < rs.size ∧ (rs.cell (c + 1)).tag ≠ .empty := by
  induction ctx using Nat.strong_induction_on with
  | _ ctx ih =>
      rw [handler_eq] at h
      split at h
      · cases h
      · by_cases hsize : ctx + 1 < rs.size
        · rw [Registers.get_of_lt hsize] at h
          dsimp only [Except.bind] at h
          split at h
          · cases hc : handling rs ctx with
            | error e => rw [hc] at h; cases h
            | ok b =>
                rw [hc] at h
                dsimp only at h
                cases hp : parent P rs b with
                | error e => rw [hp] at h; cases h
                | ok p =>
                    rw [hp] at h
                    have hlt := handling_lt hc
                    have hlt' := parent_lt hp
                    obtain ⟨hpos, hle, hrest⟩ := ih p (by omega) h
                    exact ⟨hpos, by omega, hrest⟩
          · split at h
            · cases h
              exact ⟨by omega, Nat.le_refl c, hsize, ‹_›⟩
            · cases hp : parent P rs ctx with
              | error e => rw [hp] at h; cases h
              | ok p =>
                  rw [hp] at h
                  have hlt := parent_lt hp
                  obtain ⟨hpos, hle, hrest⟩ := ih p hlt h
                  exact ⟨hpos, by omega, hrest⟩
        · rw [Registers.get_of_le (by omega)] at h
          cases h

end Context

end EffectMachine
