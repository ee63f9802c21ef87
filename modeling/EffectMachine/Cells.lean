/-
Cells: fixed arrays of values, which hold registers and heap words.

* `Cells.fresh`: unset cells;
* `Cells.overwrite`: consecutive cells replaced by a list;
* `Cells.copyFrom`: consecutive cells replaced by those of other cells.

A write outside the cells is left out, so the number of cells never changes
(`size_overwrite`, `size_copyFrom`).
-/
import EffectMachine.Value

namespace EffectMachine

/-- A fixed array of values. -/
abbrev Cells := Array Value

namespace Cells

/-- Cells that have not been set. -/
def fresh (size : Nat) : Cells := Array.replicate size .nil

/-- The content of a cell. -/
def cell (s : Cells) (index : Nat) : Value := s.getD index .nil

/-- The cells with consecutive ones from `start` on replaced by a list. -/
def overwrite (s : Cells) (start : Nat) : List Value → Cells
  | [] => s
  | v :: vs => overwrite (s.setIfInBounds start v) (start + 1) vs

/-- The cells with the `count` ones from `start` on replaced by those of
`source` from `offset` on. -/
def copyFrom (s : Cells) (start : Nat) (source : Cells) (offset : Nat) : Nat → Cells
  | 0 => s
  | count + 1 =>
    copyFrom (s.setIfInBounds start (source.cell offset)) (start + 1) source (offset + 1) count

@[simp] theorem size_fresh (size : Nat) : (fresh size).size = size := Array.size_replicate

@[simp] theorem size_overwrite (s : Cells) (start : Nat) (vs : List Value) :
    (s.overwrite start vs).size = s.size := by
  induction vs generalizing s start with
  | nil => rfl
  | cons v vs ih => rw [overwrite, ih, Array.size_setIfInBounds]

@[simp] theorem size_copyFrom (s : Cells) (start : Nat) (source : Cells) (offset count : Nat) :
    (s.copyFrom start source offset count).size = s.size := by
  induction count generalizing s start offset with
  | zero => rfl
  | succ count ih => rw [copyFrom, ih, Array.size_setIfInBounds]

theorem getElem?_overwrite (s : Cells) (start : Nat) (vs : List Value) (i : Nat) :
    (s.overwrite start vs)[i]? =
      if start ≤ i ∧ i < start + vs.length ∧ i < s.size then vs[i - start]? else s[i]? := by
  induction vs generalizing s start with
  | nil =>
    have : ¬(start ≤ i ∧ i < start + ([] : List Value).length ∧ i < s.size) := by
      simp only [List.length_nil]
      omega
    rw [if_neg this, overwrite]
  | cons v vs ih =>
    rw [overwrite, ih, Array.size_setIfInBounds, Array.getElem?_setIfInBounds, List.length_cons]
    rcases Nat.lt_trichotomy i start with h | h | h
    · rw [if_neg (by omega), if_neg (by omega), if_neg (by omega)]
    · subst h
      rw [if_neg (by omega), if_pos rfl]
      by_cases hs : i < s.size
      · rw [if_pos hs, if_pos (by omega), Nat.sub_self, List.getElem?_cons_zero]
      · rw [if_neg hs, if_neg (by omega), Array.getElem?_eq_none (by omega)]
    · by_cases hin : i < start + 1 + vs.length ∧ i < s.size
      · rw [if_pos (by omega), if_pos (by omega)]
        obtain ⟨k, rfl⟩ : ∃ k, i = start + 1 + k := ⟨i - (start + 1), by omega⟩
        rw [show start + 1 + k - start = k + 1 by omega, List.getElem?_cons_succ,
          Nat.add_sub_cancel_left]
      · rw [if_neg (by omega), if_neg (by omega), if_neg (by omega)]

/-- What has been written from the first cell on is what the first cells
hold. -/
theorem extract_overwrite_zero (s : Cells) (vs : List Value) (stop : Nat)
    (h : vs.length = min stop s.size) : ((s.overwrite 0 vs).extract 0 stop).toList = vs := by
  apply List.ext_getElem?
  intro i
  rw [Array.getElem?_toList, Array.getElem?_extract, getElem?_overwrite, size_overwrite,
    Nat.sub_zero, Nat.zero_add]
  by_cases hi : i < min stop s.size
  · rw [if_pos hi, if_pos (by omega), Nat.sub_zero]
  · rw [if_neg hi, List.getElem?_eq_none (by omega)]

end Cells

end EffectMachine
