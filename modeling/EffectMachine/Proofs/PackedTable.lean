/-
The packed dispatch table is exact.

Rows are placed one after the other, each at the first start where its slots are free. What a row
finds there it keeps, since later rows take free slots only.

* `DispatchTable.occupant?`: what a slot holds, if it is taken; the view in which placing is said;
* `MethodRow.Distinct`: a method is implemented at most once for a class, and
  `exists_pack_iff`: **a table can be packed if and only if every row is distinct**;
* `DispatchTable.Exact`: the table holds the implementations of the rows, each where its method
  looks for it, and nothing else; `exact_of_pack`: **packing makes such a table** if the offsets
  fit into 32 bits (`DispatchTable.OffsetsFit`);
* `Program.dispatch_eq_some_iff`: in a program with such a table, dispatch finds exactly what the
  rows list.
-/
import EffectMachine.DispatchTable
import Mathlib.Algebra.Order.Ring.Nat
import Mathlib.Data.List.Nodup
import Mathlib.Tactic.Common

namespace EffectMachine

/-! ### Sorted rows -/

section Sorting

variable {α : Type} {le : α → α → Bool}

lemma pairwise_insertBy (htotal : ∀ a b, le a b = false → le b a = true)
    (htrans : ∀ a b c, le a b = true → le b c = true → le a c = true) (x : α) {xs : List α}
    (h : xs.Pairwise (le · · = true)) : (insertBy le x xs).Pairwise (le · · = true) := by
  induction xs with
  | nil => exact List.pairwise_singleton _ _
  | cons y ys ih =>
      obtain ⟨hy, hys⟩ := List.pairwise_cons.mp h
      rw [insertBy]
      split
      · rename_i hle
        refine List.pairwise_cons.mpr ⟨fun z hz => ?_, h⟩
        rcases List.mem_cons.mp hz with rfl | hz
        · exact hle
        · exact htrans x y z hle (hy z hz)
      · rename_i hle
        refine List.pairwise_cons.mpr ⟨fun z hz => ?_, ih hys⟩
        rcases List.mem_cons.mp ((insertBy_perm le x ys).mem_iff.mp hz) with rfl | hz
        · exact htotal z y (Bool.eq_false_iff.mpr hle)
        · exact hy z hz

lemma pairwise_sortBy (htotal : ∀ a b, le a b = false → le b a = true)
    (htrans : ∀ a b c, le a b = true → le b c = true → le a c = true) (xs : List α) :
    (sortBy le xs).Pairwise (le · · = true) := by
  induction xs with
  | nil => exact List.Pairwise.nil
  | cons x xs ih => exact pairwise_insertBy htotal htrans x ih

end Sorting

/-- A method is implemented at most once for a class. -/
def MethodRow.Distinct (row : MethodRow) : Prop :=
  (row.implementations.toList.map (·.cls)).Nodup

instance (row : MethodRow) : Decidable row.Distinct := inferInstanceAs (Decidable (List.Nodup _))

namespace DispatchTable

lemma mem_sortRow {row : MethodRow} {i : Implementation} :
    i ∈ sortRow row ↔ i ∈ row.implementations := by
  rw [sortRow, (sortBy_perm _ _).mem_iff, Array.mem_toList_iff]

lemma pairwise_sortRow (row : MethodRow) :
    (sortRow row).Pairwise fun i j => i.cls.code.toInt ≤ j.cls.code.toInt := by
  have hsorted : (sortRow row).Pairwise fun i j => decide (i.cls.code ≤ j.cls.code) = true := by
    refine pairwise_sortBy (fun i j h => ?_) (fun i j k hij hjk => ?_) _
    · rw [decide_eq_false_iff_not, Int32.le_iff_toInt_le] at h
      rw [decide_eq_true_eq, Int32.le_iff_toInt_le]
      omega
    · rw [decide_eq_true_eq, Int32.le_iff_toInt_le] at hij hjk ⊢
      omega
  refine hsorted.imp fun h => ?_
  rwa [decide_eq_true_eq, Int32.le_iff_toInt_le] at h

/-- In a sorted row, a class that occurs twice is that of two neighbours. -/
lemma duplicate?_eq_none_iff {row : List Implementation}
    (h : row.Pairwise fun i j => i.cls.code.toInt ≤ j.cls.code.toInt) :
    duplicate? row = none ↔ (row.map (·.cls)).Nodup := by
  induction row with
  | nil => simp [duplicate?]
  | cons i rest ih =>
      cases rest with
      | nil => simp [duplicate?]
      | cons j rest =>
          obtain ⟨hi, hrest⟩ := List.pairwise_cons.mp h
          obtain ⟨hj, -⟩ := List.pairwise_cons.mp hrest
          rw [duplicate?]
          by_cases heq : i.cls = j.cls
          · simp [heq]
          · have hnot : i.cls ∉ (j :: rest).map (·.cls) := by
              intro hmem
              obtain ⟨k, hk, hcls⟩ := List.mem_map.mp hmem
              have hij := hi j List.mem_cons_self
              rcases List.mem_cons.mp hk with rfl | hk
              · exact heq hcls.symm
              · have hjk := hj k hk
                rw [hcls] at hjk
                have hcode : i.cls.code = j.cls.code := Int32.toInt_inj.mp (by omega)
                exact heq (congrArg ClassId.mk hcode)
            rw [if_neg heq, ih hrest, List.map_cons (l := j :: rest), List.nodup_cons]
            exact (and_iff_right hnot).symm

lemma duplicate?_sortRow (row : MethodRow) : duplicate? (sortRow row) = none ↔ row.Distinct := by
  rw [duplicate?_eq_none_iff (pairwise_sortRow row), MethodRow.Distinct, sortRow]
  exact ((sortBy_perm _ _).map _).nodup_iff

lemma exists_packRow_iff (slots : Slots) {row : MethodRow} :
    (∃ r, packRow slots row = .ok r) ↔ row.Distinct := by
  rw [← duplicate?_sortRow, packRow]
  dsimp only
  cases duplicate? (sortRow row) with
  | some cls => simp
  | none =>
      cases sortRow row with
      | nil => simp
      | cons first rest => simp

lemma exists_packRows_iff {rows : List (Nat × MethodRow)} {offsets : Array Int32} {slots : Slots} :
    (∃ r, packRows rows offsets slots = .ok r) ↔ ∀ x ∈ rows, x.2.Distinct := by
  induction rows generalizing offsets slots with
  | nil => simp [packRows]
  | cons x rest ih =>
      obtain ⟨index, row⟩ := x
      rw [packRows, List.forall_mem_cons, ← exists_packRow_iff slots]
      cases packRow slots row with
      | error e => simp
      | ok r => simpa using ih

lemma mem_order {rows : Array MethodRow} {x : Nat × MethodRow} :
    x ∈ order rows ↔ rows[x.1]? = some x.2 := by
  obtain ⟨index, row⟩ := x
  rw [order, (sortBy_perm _ _).mem_iff]
  simp [List.mem_zipIdx_iff_getElem?, ← Array.getElem?_toList]

/-! ### Placing a row -/

/-- What a slot holds, if it is taken. -/
def occupant? (slots : Slots) (slot : Nat) : Option Implementation :=
  slots[slot]?.filter fun i => !i.isEmpty

lemma occupant?_eq_some {slots : Slots} {slot : Nat} {i : Implementation} :
    occupant? slots slot = some i ↔ slots[slot]? = some i ∧ i.isEmpty = false := by
  rw [occupant?, Option.filter_eq_some_iff, Bool.not_eq_true']

lemma isEmpty_eq_false {i : Implementation} (h : 0 ≤ i.cls.code.toInt) : i.isEmpty = false := by
  rw [Implementation.isEmpty, decide_eq_false_iff_not]
  intro habsent
  rw [habsent] at h
  exact absurd h (by decide)

lemma isFree_iff {slots : Slots} {slot : Nat} :
    isFree slots slot = true ↔ occupant? slots slot = none := by
  rw [isFree, occupant?]
  cases slots[slot]? <;> simp

lemma occupant?_of_size_le {slots : Slots} {slot : Nat} (h : slots.size ≤ slot) :
    occupant? slots slot = none := by
  rw [occupant?, Array.getElem?_eq_none h]
  rfl

lemma size_put (slots : Slots) (slot : Nat) (i : Implementation) :
    (put slots slot i).size = max slots.size (slot + 1) := by
  rw [put, extend, Array.size_setIfInBounds, Array.size_append, Array.size_replicate]
  omega

lemma lt_size_extend (slots : Slots) (slot : Nat) : slot < (extend slots (slot + 1)).size := by
  rw [extend, Array.size_append, Array.size_replicate]
  omega

lemma occupant?_extend (slots : Slots) (size k : Nat) :
    occupant? (extend slots size) k = occupant? slots k := by
  rw [occupant?, occupant?, extend, Array.getElem?_append]
  split
  · rfl
  · rename_i hbeyond
    rw [Array.getElem?_eq_none (Nat.le_of_not_lt hbeyond), Array.getElem?_replicate]
    split <;> rfl

/-- Taking a slot takes that slot, and no other changes hands. -/
lemma occupant?_put {slots : Slots} {slot k : Nat} {i : Implementation} (hi : i.isEmpty = false) :
    occupant? (put slots slot i) k = if slot = k then some i else occupant? slots k := by
  by_cases hk : slot = k
  · subst hk
    rw [if_pos rfl, occupant?_eq_some]
    exact ⟨by rw [put, Array.getElem?_setIfInBounds_self, if_pos (lt_size_extend slots slot)], hi⟩
  · rw [if_neg hk, ← occupant?_extend slots (slot + 1), put, occupant?, occupant?,
      Array.getElem?_setIfInBounds_ne hk]

lemma size_le_size_place (slots : Slots) (least : ClassId) (start : Nat)
    (row : List Implementation) : slots.size ≤ (place slots least start row).size := by
  induction row generalizing slots with
  | nil => exact Nat.le_refl _
  | cons i row ih =>
      refine Nat.le_trans ?_ (ih (put slots (start + gap least i) i))
      rw [size_put]
      exact Nat.le_max_left _ _

lemma lt_size_place {slots : Slots} {least : ClassId} {start : Nat} {row : List Implementation}
    {i : Implementation} (hi : i ∈ row) :
    start + gap least i < (place slots least start row).size := by
  induction row generalizing slots with
  | nil => cases hi
  | cons j row ih =>
      rcases List.mem_cons.mp hi with rfl | hi
      · refine Nat.lt_of_lt_of_le ?_
          (size_le_size_place (put slots (start + gap least i) i) least start row)
        rw [size_put]
        omega
      · exact ih hi

lemma occupant?_place_of_ne {slots : Slots} {least : ClassId} {start k : Nat}
    {row : List Implementation} (hrow : ∀ i ∈ row, i.isEmpty = false)
    (hne : ∀ i ∈ row, start + gap least i ≠ k) :
    occupant? (place slots least start row) k = occupant? slots k := by
  induction row generalizing slots with
  | nil => rfl
  | cons i row ih =>
      rw [List.forall_mem_cons] at hrow hne
      calc occupant? (place slots least start (i :: row)) k
          = occupant? (put slots (start + gap least i) i) k := ih hrow.2 hne.2
        _ = occupant? slots k := by rw [occupant?_put hrow.1, if_neg hne.1]

lemma occupant?_place_of_mem {slots : Slots} {least : ClassId} {start : Nat}
    {row : List Implementation} (hrow : ∀ i ∈ row, i.isEmpty = false)
    (hgap : row.Pairwise fun i j => gap least i ≠ gap least j) {i : Implementation}
    (hi : i ∈ row) : occupant? (place slots least start row) (start + gap least i) = some i := by
  induction row generalizing slots with
  | nil => cases hi
  | cons j row ih =>
      rw [List.forall_mem_cons] at hrow
      obtain ⟨hj, hgap⟩ := List.pairwise_cons.mp hgap
      rcases List.mem_cons.mp hi with rfl | hi
      · have hne : ∀ j ∈ row, start + gap least j ≠ start + gap least i := fun j hmem heq =>
          hj j hmem (Nat.add_left_cancel heq).symm
        calc occupant? (place slots least start (i :: row)) (start + gap least i)
            = occupant? (put slots (start + gap least i) i) (start + gap least i) :=
              occupant?_place_of_ne hrow.2 hne
          _ = some i := by rw [occupant?_put hrow.1, if_pos rfl]
      · exact ih hrow.2 hgap hi

/-- At the end of the table every row fits. -/
lemma fits_of_size_le {slots : Slots} {least : ClassId} {row : List Implementation} {start : Nat}
    (h : slots.size ≤ start) : fits slots least row start = true := by
  rw [fits, List.all_eq_true]
  exact fun i _ => isFree_iff.mpr (occupant?_of_size_le (Nat.le_add_right_of_le h))

lemma fits_findStartFrom {slots : Slots} {least : ClassId} {row : List Implementation}
    {start tries : Nat} (h : start + tries = slots.size) :
    fits slots least row (findStartFrom slots least row start tries) = true ∧
      findStartFrom slots least row start tries ≤ slots.size := by
  induction tries generalizing start with
  | zero => exact ⟨fits_of_size_le (by rw [findStartFrom]; omega), by rw [findStartFrom]; omega⟩
  | succ tries ih =>
      rw [findStartFrom]
      split
      · rename_i hfits
        exact ⟨hfits, by omega⟩
      · exact ih (by omega)

/-- First fit finds a start, at the end of the table at the latest. -/
lemma fits_findStart (slots : Slots) (least : ClassId) (row : List Implementation) :
    fits slots least row (findStart slots least row) = true ∧
      findStart slots least row ≤ slots.size :=
  fits_findStartFrom (Nat.zero_add _)

lemma gap_eq {least : ClassId} {i : Implementation}
    (h : least.code.toInt ≤ i.cls.code.toInt) :
    (gap least i : Int) = i.cls.code.toInt - least.code.toInt := by
  rw [gap]
  omega

/-- The offset at which a row is placed; packing keeps 32 bits of it. -/
def rowOffset (slots : Slots) (row : MethodRow) : Int :=
  match sortRow row with
  | [] => 0
  | first :: rest => findStart slots first.cls (first :: rest) - first.cls.code.toInt

/-- A row can be placed: its smallest class is known, its slots differ and are free. -/
structure Room (slots : Slots) (row : List Implementation) (least : ClassId) (start : Nat) :
    Prop where
  least_le : ∀ i ∈ row, least.code.toInt ≤ i.cls.code.toInt
  apart : row.Pairwise fun i j => gap least i ≠ gap least j
  free : ∀ i ∈ row, occupant? slots (start + gap least i) = none

lemma room_findStart (slots : Slots) {first : Implementation} {rest : List Implementation}
    (hsorted : (first :: rest).Pairwise fun i j => i.cls.code.toInt ≤ j.cls.code.toInt)
    (hnodup : ((first :: rest).map (·.cls)).Nodup) :
    Room slots (first :: rest) first.cls (findStart slots first.cls (first :: rest)) := by
  have hleast : ∀ i ∈ first :: rest, first.cls.code.toInt ≤ i.cls.code.toInt :=
    List.forall_mem_cons.mpr ⟨Int.le_refl _, (List.pairwise_cons.mp hsorted).1⟩
  refine ⟨hleast, ?_, fun i hi => ?_⟩
  · refine (List.pairwise_map.mp hnodup).imp_of_mem fun {i j} hi hj hne heq => hne ?_
    have hgi := gap_eq (hleast i hi)
    have hgj := gap_eq (hleast j hj)
    have hcode : i.cls.code.toInt = j.cls.code.toInt := by omega
    exact congrArg ClassId.mk (Int32.toInt_inj.mp hcode)
  · have hfits := (fits_findStart slots first.cls (first :: rest)).1
    exact isFree_iff.mp (List.all_eq_true.mp hfits i hi)

/-- A row is packed by placing it where there is room for it. -/
lemma exists_room_of_packRow {slots slots' : Slots} {row : MethodRow} {offset : Int32}
    (h : packRow slots row = .ok (offset, slots')) :
    ∃ (least : ClassId) (start : Nat), Room slots (sortRow row) least start ∧
      slots' = place slots least start (sortRow row) ∧
      rowOffset slots row = start - least.code.toInt ∧
      offset = Int32.ofInt (rowOffset slots row) := by
  have hnone := (duplicate?_sortRow row).mpr ((exists_packRow_iff slots).mp ⟨_, h⟩)
  have hsorted := pairwise_sortRow row
  have hnodup := (duplicate?_eq_none_iff hsorted).mp hnone
  rw [packRow] at h
  dsimp only at h
  rw [hnone] at h
  rw [rowOffset]
  generalize sortRow row = list at h hsorted hnodup ⊢
  cases list with
  | nil =>
      cases h
      exact ⟨⟨0⟩, 0, ⟨by simp, .nil, by simp⟩, rfl, rfl, rfl⟩
  | cons first rest =>
      cases h
      exact ⟨first.cls, _, room_findStart slots hsorted hnodup, rfl, rfl, rfl⟩

/-- What packing a row with proper classes does: its implementations come to stand where the
offset leads, what stood in the table stays, and nothing else is added. -/
lemma packRow_eq_ok {slots slots' : Slots} {row : MethodRow} {offset : Int32}
    (h : packRow slots row = .ok (offset, slots'))
    (hrow : ∀ i ∈ row.implementations, 0 ≤ i.cls.code.toInt)
    (hfits : rowOffset slots row < 2 ^ 31) :
    (∀ i ∈ row.implementations, ∃ slot : Nat,
      i.cls.code.toInt + offset.toInt = slot ∧ occupant? slots' slot = some i) ∧
    (∀ k i, occupant? slots k = some i → occupant? slots' k = some i) ∧
    (∀ k i, occupant? slots' k = some i →
      i ∈ row.implementations ∨ occupant? slots k = some i) := by
  obtain ⟨least, start, hroom, rfl, hrowOffset, rfl⟩ := exists_room_of_packRow h
  have hnonempty : ∀ i ∈ sortRow row, i.isEmpty = false := fun i hi =>
    isEmpty_eq_false (hrow i (mem_sortRow.mp hi))
  have hoffset : (Int32.ofInt (rowOffset slots row)).toInt = start - least.code.toInt := by
    have hlt := least.code.toInt_lt
    rw [Int32.toInt_ofInt_of_le (by omega) (by omega), hrowOffset]
  refine ⟨fun i hi => ⟨start + gap least i, ?_, ?_⟩, fun k i hk => ?_, fun k i hk => ?_⟩
  · have hgi := gap_eq (hroom.least_le i (mem_sortRow.mpr hi))
    omega
  · exact occupant?_place_of_mem hnonempty hroom.apart (mem_sortRow.mpr hi)
  · rw [occupant?_place_of_ne hnonempty, hk]
    rintro j hj rfl
    rw [hroom.free j hj] at hk
    cases hk
  · by_cases hslot : ∃ j ∈ sortRow row, start + gap least j = k
    · obtain ⟨j, hj, rfl⟩ := hslot
      rw [occupant?_place_of_mem hnonempty hroom.apart hj] at hk
      cases hk
      exact .inl (mem_sortRow.mp hj)
    · push Not at hslot
      rw [occupant?_place_of_ne hnonempty hslot] at hk
      exact .inr hk

/-! ### Placing all rows -/

lemma size_le_size_packRow {slots slots' : Slots} {row : MethodRow} {offset : Int32}
    (h : packRow slots row = .ok (offset, slots')) : slots.size ≤ slots'.size := by
  obtain ⟨least, start, -, rfl, -, -⟩ := exists_room_of_packRow h
  exact size_le_size_place _ _ _ _

/-- In a table of up to `2 ^ 31` slots every offset fits into 32 bits. -/
lemma rowOffset_lt_of_size {slots slots' : Slots} {row : MethodRow} {offset : Int32}
    (h : packRow slots row = .ok (offset, slots'))
    (hrow : ∀ i ∈ row.implementations, 0 ≤ i.cls.code.toInt) (hsize : slots'.size ≤ 2 ^ 31) :
    rowOffset slots row < 2 ^ 31 := by
  obtain ⟨least, start, hroom, rfl, hoffset, -⟩ := exists_room_of_packRow h
  by_cases hnil : sortRow row = []
  · rw [rowOffset, hnil]
    exact (by decide : (0 : Int) < 2 ^ 31)
  · obtain ⟨i, hi⟩ := List.exists_mem_of_ne_nil _ hnil
    have hslot : start + gap least i < (place slots least start (sortRow row)).size :=
      lt_size_place hi
    have hgap := gap_eq (hroom.least_le i hi)
    have hclass := hrow i (mem_sortRow.mp hi)
    omega

lemma size_le_size_packRows {rows : List (Nat × MethodRow)} {offsets offsets' : Array Int32}
    {slots slots' : Slots} (h : packRows rows offsets slots = .ok (offsets', slots')) :
    slots.size ≤ slots'.size := by
  induction rows generalizing offsets slots with
  | nil =>
      cases h
      exact Nat.le_refl _
  | cons x rest ih =>
      rw [packRows] at h
      split at h
      · cases h
      · rename_i hrow
        exact Nat.le_trans (size_le_size_packRow hrow) (ih h)

lemma size_offsets_packRows {rows : List (Nat × MethodRow)} {offsets offsets' : Array Int32}
    {slots slots' : Slots} (h : packRows rows offsets slots = .ok (offsets', slots')) :
    offsets'.size = offsets.size := by
  induction rows generalizing offsets slots with
  | nil =>
      cases h
      rfl
  | cons x rest ih =>
      rw [packRows] at h
      split at h
      · cases h
      · rw [ih h, Array.size_setIfInBounds]

/-- While rows are packed one after the other, every offset fits into 32 bits. -/
def OffsetsFit : List (Nat × MethodRow) → Slots → Prop
  | [], _ => True
  | x :: rest, slots => ∀ offset slots', packRow slots x.2 = .ok (offset, slots') →
      rowOffset slots x.2 < 2 ^ 31 ∧ OffsetsFit rest slots'

lemma offsetsFit_of_size {rows : List (Nat × MethodRow)} {offsets offsets' : Array Int32}
    {slots slots' : Slots} (h : packRows rows offsets slots = .ok (offsets', slots'))
    (hrows : ∀ x ∈ rows, ∀ i ∈ x.2.implementations, 0 ≤ i.cls.code.toInt)
    (hsize : slots'.size ≤ 2 ^ 31) : OffsetsFit rows slots := by
  induction rows generalizing offsets slots with
  | nil => trivial
  | cons x rest ih =>
      rw [List.forall_mem_cons] at hrows
      intro offset placed hrow
      rw [packRows, hrow] at h
      have hroom := size_le_size_packRows h
      exact ⟨rowOffset_lt_of_size hrow hrows.1 (by omega), ih h hrows.2⟩

/-- The table holds the implementations of the rows placed so far, each where the offset of its
method leads, and nothing else. -/
structure Placed (done : List (Nat × MethodRow)) (offsets : Array Int32) (slots : Slots) :
    Prop where
  found : ∀ x ∈ done, ∀ i ∈ x.2.implementations, ∃ (offset : Int32) (slot : Nat),
    offsets[x.1]? = some offset ∧ i.cls.code.toInt + offset.toInt = slot ∧
      occupant? slots slot = some i
  only : ∀ k i, occupant? slots k = some i → ∃ x ∈ done, i ∈ x.2.implementations

lemma Placed.packRow {done : List (Nat × MethodRow)} {offsets : Array Int32} {slots slots' : Slots}
    {index : Nat} {row : MethodRow} {offset : Int32} (h : Placed done offsets slots)
    (hpack : DispatchTable.packRow slots row = .ok (offset, slots'))
    (hrow : ∀ i ∈ row.implementations, 0 ≤ i.cls.code.toInt)
    (hfits : rowOffset slots row < 2 ^ 31)
    (hindex : index < offsets.size) (hnew : ∀ x ∈ done, x.1 ≠ index) :
    Placed ((index, row) :: done) (offsets.setIfInBounds index offset) slots' := by
  obtain ⟨hfound, hkept, honly⟩ := packRow_eq_ok hpack hrow hfits
  refine ⟨List.forall_mem_cons.mpr ⟨fun i hi => ?_, fun x hx i hi => ?_⟩, fun k i hk => ?_⟩
  · obtain ⟨slot, hslot, hi⟩ := hfound i hi
    exact ⟨offset, slot, by rw [Array.getElem?_setIfInBounds_self, if_pos hindex], hslot, hi⟩
  · obtain ⟨o, slot, ho, hslot, hi⟩ := h.found x hx i hi
    refine ⟨o, slot, ?_, hslot, hkept slot i hi⟩
    rw [Array.getElem?_setIfInBounds_ne (hnew x hx).symm, ho]
  · rcases honly k i hk with hi | hk
    · exact ⟨(index, row), List.mem_cons_self, hi⟩
    · obtain ⟨x, hx, hi⟩ := h.only k i hk
      exact ⟨x, List.mem_cons_of_mem _ hx, hi⟩

lemma Placed.packRows {rows done : List (Nat × MethodRow)} {offsets offsets' : Array Int32}
    {slots slots' : Slots} (h : Placed done offsets slots)
    (hpack : DispatchTable.packRows rows offsets slots = .ok (offsets', slots'))
    (hrows : ∀ x ∈ rows, ∀ i ∈ x.2.implementations, 0 ≤ i.cls.code.toInt)
    (hfits : OffsetsFit rows slots) (hindex : ∀ x ∈ rows, x.1 < offsets.size)
    (hnodup : ((rows ++ done).map (·.1)).Nodup) :
    Placed (rows.reverse ++ done) offsets' slots' := by
  induction rows generalizing done offsets slots with
  | nil =>
      cases hpack
      exact h
  | cons x rest ih =>
      obtain ⟨index, row⟩ := x
      rw [DispatchTable.packRows] at hpack
      split at hpack
      · cases hpack
      · rename_i offset placed hrow
        rw [List.forall_mem_cons] at hrows hindex
        have hnew : ∀ x ∈ done, x.1 ≠ index := by
          intro x hx heq
          rw [List.cons_append, List.map_cons, List.nodup_cons] at hnodup
          exact hnodup.1 (List.mem_map.mpr ⟨x, List.mem_append_right _ hx, heq⟩)
        obtain ⟨hfit, hfits⟩ := hfits offset placed hrow
        have hnext := h.packRow hrow hrows.1 hfit hindex.1 hnew
        have hperm : (rest ++ (index, row) :: done).Perm ((index, row) :: rest ++ done) :=
          List.perm_middle
        rw [List.reverse_cons, List.append_assoc]
        exact ih hnext hpack hrows.2 hfits (by simpa only [Array.size_setIfInBounds] using hindex.2)
          ((hperm.map _).nodup_iff.mpr hnodup)

/-- A table for rows: methods keep their positions and names, and the table holds the
implementations of the rows, each where its method looks for it, and nothing else. -/
structure Exact (rows : Array MethodRow) (t : DispatchTable) : Prop where
  names : t.methods.map (·.name) = rows.map (·.name)
  found : ∀ (r : Nat) (row : MethodRow), rows[r]? = some row → ∀ i ∈ row.implementations,
    ∃ (method : Method) (slot : Nat), t.methods[r]? = some method ∧
      i.cls.code.toInt + method.offset.toInt = slot ∧
        occupant? t.implementations slot = some i
  only : ∀ k i, occupant? t.implementations k = some i →
    ∃ (r : Nat) (row : MethodRow), rows[r]? = some row ∧ i ∈ row.implementations

/-- Implementations in rows are of classes of the table, and each names its row. -/
def Numbered (rows : Array MethodRow) : Prop :=
  ∀ (r : Nat) (row : MethodRow), rows[r]? = some row → ∀ i ∈ row.implementations,
    0 ≤ i.cls.code.toInt ∧ i.method.index.toNat = r

lemma numbered_iff {rows : Array MethodRow} : Numbered rows ↔
    ∀ r : Fin rows.size, ∀ i ∈ rows[r].implementations,
      0 ≤ i.cls.code.toInt ∧ i.method.index.toNat = r := by
  constructor
  · intro h r
    exact h r rows[r] (Array.getElem?_eq_getElem r.isLt)
  · intro h r row hrow
    obtain ⟨hlt, rfl⟩ := Array.getElem?_eq_some_iff.mp hrow
    exact h ⟨r, hlt⟩

instance (rows : Array MethodRow) : Decidable (Numbered rows) :=
  decidable_of_iff _ numbered_iff.symm

lemma nodup_order (rows : Array MethodRow) : ((order rows).map (·.1)).Nodup := by
  have hindices : (rows.toList.zipIdx.map Prod.snd).Nodup := by
    rw [List.zipIdx_map_snd]
    exact List.nodup_range'
  rw [order, ((sortBy_perm ..).map _).nodup_iff, List.map_map]
  exact hindices

end DispatchTable

open DispatchTable

/-- **A table can be packed if and only if every row is distinct.** -/
theorem exists_pack_iff {rows : Array MethodRow} :
    (∃ t, pack rows = .ok t) ↔ ∀ row ∈ rows, row.Distinct := by
  have hrows : (∃ r, packRows (order rows) (Array.replicate rows.size 0) #[] = .ok r) ↔
      ∀ row ∈ rows, row.Distinct := by
    rw [exists_packRows_iff]
    constructor
    · intro h row hrow
      obtain ⟨r, hr⟩ := Array.mem_iff_getElem?.mp hrow
      exact h (r, row) (mem_order.mpr hr)
    · intro h x hx
      exact h x.2 (Array.mem_of_getElem? (mem_order.mp hx))
  rw [← hrows, pack]
  cases packRows (order rows) (Array.replicate rows.size 0) #[] with
  | error e => simp
  | ok r => simp

lemma size_methods_of_pack {rows : Array MethodRow} {t : DispatchTable} (h : pack rows = .ok t) :
    t.methods.size = rows.size := by
  rw [pack] at h
  split at h
  · cases h
  · rename_i hpack
    cases h
    rw [Array.size_zipWith, size_offsets_packRows hpack, Array.size_replicate, Nat.min_self]

lemma names_of_pack {rows : Array MethodRow} {t : DispatchTable} (h : pack rows = .ok t) :
    t.methods.map (·.name) = rows.map (·.name) := by
  rw [pack] at h
  split at h
  · cases h
  · rename_i hpack
    cases h
    have hlength := size_offsets_packRows hpack
    rw [Array.size_replicate] at hlength
    refine Array.ext (by simp [hlength]) fun k _ _ => ?_
    simp

/-- **Packing makes an exact table.** -/
theorem exact_of_pack {rows : Array MethodRow} {t : DispatchTable} (h : pack rows = .ok t)
    (hrows : Numbered rows) (hfits : OffsetsFit (order rows) #[]) : Exact rows t := by
  have hnames := names_of_pack h
  rw [pack] at h
  split at h
  · cases h
  · rename_i offsets slots hpack
    cases h
    have hstart : Placed [] (Array.replicate rows.size 0) #[] :=
      ⟨fun x hx => absurd hx List.not_mem_nil, fun k i hk => by cases hk⟩
    have hplaced := hstart.packRows hpack
      (fun x hx i hi => (hrows x.1 x.2 (mem_order.mp hx) i hi).1) hfits
      (fun x hx => by
        obtain ⟨hlt, -⟩ := Array.getElem?_eq_some_iff.mp (mem_order.mp hx)
        rwa [Array.size_replicate])
      (by rw [List.append_nil]; exact nodup_order rows)
    refine ⟨hnames, fun r row hrow i hi => ?_, fun k i hk => ?_⟩
    · obtain ⟨offset, slot, hoffset, hslot, hi⟩ := hplaced.found (r, row)
        (List.mem_append_left _ (List.mem_reverse.mpr (mem_order.mpr hrow))) i hi
      refine ⟨⟨row.name, offset⟩, slot, ?_, hslot, hi⟩
      rw [Array.getElem?_zipWith, hrow, hoffset]
    · obtain ⟨x, hx, hi⟩ := hplaced.only k i hk
      rw [List.append_nil, List.mem_reverse] at hx
      exact ⟨x.1, x.2, mem_order.mp hx, hi⟩

lemma offsetsFit_of_pack {rows : Array MethodRow} {t : DispatchTable} (h : pack rows = .ok t)
    (hrows : Numbered rows) (hsize : t.implementations.size ≤ 2 ^ 31) :
    OffsetsFit (order rows) #[] := by
  rw [pack] at h
  split at h
  · cases h
  · rename_i hpack
    cases h
    exact offsetsFit_of_size hpack
      (fun x hx i hi => (hrows x.1 x.2 (mem_order.mp hx) i hi).1) hsize

lemma pack_exact {rows : Array MethodRow} {t : DispatchTable} (h : pack rows = .ok t)
    (hrows : Numbered rows) (hsize : t.implementations.size ≤ 2 ^ 31) : Exact rows t :=
  exact_of_pack h hrows (offsetsFit_of_pack h hrows hsize)

/-- **In a program with an exact table, dispatch finds exactly what the rows list.** -/
theorem Program.dispatch_eq_some_iff {P : Program} {rows : Array MethodRow}
    (h : Exact rows ⟨P.methods, P.implementations⟩)
    (hrows : Numbered rows) {c : ClassId} (hc : c.isArray = false) {m : MethodId}
    {i : Implementation} :
    P.dispatch c m = some i ↔
      ∃ row, rows[m.index.toNat]? = some row ∧ i ∈ row.implementations ∧ i.cls = c := by
  have hclass : P.dispatchClass? c = some c := by
    rw [dispatchClass?, hc]
    rfl
  rw [dispatch, hclass, Option.bind_eq_bind, Option.bind_some]
  constructor
  · intro hdispatch
    obtain ⟨method, hmethod, hdispatch⟩ := Option.bind_eq_some_iff.mp hdispatch
    obtain ⟨found, hslot, hdispatch⟩ := Option.bind_eq_some_iff.mp hdispatch
    obtain ⟨⟨hcls, hm⟩, heq⟩ := Option.ite_none_right_eq_some.mp hdispatch
    cases heq
    rw [slot?] at hslot
    obtain ⟨hnonneg, hslot⟩ := Option.ite_none_right_eq_some.mp hslot
    have hempty : i.isEmpty = false := by
      rw [Implementation.isEmpty, decide_eq_false_iff_not, hcls]
      -- No offset leads from the absent class into the table.
      rintro rfl
      have hlt := method.offset.toInt_lt
      have hmin : ClassId.absent.code.toInt = -2 ^ 31 := by decide
      omega
    obtain ⟨r, row, hrow, hi⟩ := h.only _ i (occupant?_eq_some.mpr ⟨hslot, hempty⟩)
    have hr := (hrows r row hrow i hi).2
    rw [hm] at hr
    subst hr
    exact ⟨row, hrow, hi, hcls⟩
  · rintro ⟨row, hrow, hi, rfl⟩
    obtain ⟨method, slot, hmethod, hslot, hoccupant⟩ := h.found _ row hrow i hi
    have hm : i.method = m :=
      congrArg MethodId.mk (UInt32.toNat_inj.mp (hrows _ row hrow i hi).2)
    have hfound : P.slot? (i.cls.code.toInt + method.offset.toInt) = some i := by
      rw [slot?, hslot, if_pos (Int.natCast_nonneg slot), Int.toNat_natCast]
      exact (occupant?_eq_some.mp hoccupant).1
    rw [hmethod, Option.bind_eq_bind, Option.bind_some, hfound, Option.bind_eq_bind,
      Option.bind_some, if_pos ⟨rfl, hm⟩]

end EffectMachine
