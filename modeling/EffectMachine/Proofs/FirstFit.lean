/-
First fit keeps the table compact.

A row is tried at one offset after the other until it fits. Nothing bounds the
search but the table itself, past whose end every slot is free; and a row never
starts later than there, so it adds no more slots than lie between its smallest
and its largest class.

* `DispatchTable.Search`: the search, as it goes on with offsets of 32 bits and
  indices that are computed from them;
* `DispatchTable.FirstFit`: the offset is the least one at which a row fits, the
  search ends with it, and placing the row there changes its slots only;
* `MethodRow.span`: the slots from the smallest class of a row to its largest;
* `DispatchTable.Closed`: the last slot of a table is taken;
* `DispatchTable.first_fit_compact`: **first fit finds the least offset, and the
  packed table is no longer than the spans of its rows**.
-/
import EffectMachine.Proofs.PackedTable
import Mathlib.Order.Bounds.Basic

namespace EffectMachine

namespace DispatchTable

variable {slots slots' : Slots} {least : ClassId} {row : List Implementation} {start k : Nat}

/-! ### The search -/

/-- At an offset, every implementation of a row has a slot that is empty or past the
end of the table. -/
def FitsAt (slots : Slots) (row : List Implementation) (offset : Int) : Prop :=
  ∀ i ∈ row, ∀ found, slots[(i.cls.code.toInt + offset).toNat]? = some found →
    found.isEmpty = true

/-- The index of a slot as it is computed: the sum of a class and an offset has 64
bits, and is read without a sign. -/
def indexOf (cls : ClassId) (offset : Int32) : Nat :=
  ((cls.code.toInt + offset.toInt) % 2 ^ 64).toNat

/-- The search that starts with the one offset ends with the other. An offset that
does not fit is followed by the next one, however often this happens. -/
inductive Search (slots : Slots) (row : List Implementation) : Int32 → Int32 → Prop
  | found {offset : Int32} (h : ∀ i ∈ row, isFree slots (indexOf i.cls offset) = true) :
      Search slots row offset offset
  | next {offset result : Int32} (h : ∃ i ∈ row, isFree slots (indexOf i.cls offset) = false)
      (hrest : Search slots row (offset + 1) result) : Search slots row offset result

lemma isFree_iff_isEmpty :
    isFree slots k = true ↔ ∀ found, slots[k]? = some found → found.isEmpty = true := by
  rw [isFree]
  cases slots[k]? <;> simp

/-- A row fits at an offset if it can start at the slot of its smallest class. -/
lemma fitsAt_iff (hleast : ∀ i ∈ row, least.code.toInt ≤ i.cls.code.toInt) :
    FitsAt slots row (start - least.code.toInt) ↔ fits slots least row start = true := by
  rw [fits, List.all_eq_true]
  refine forall₂_congr fun i hi => ?_
  have hgap := gap_eq (hleast i hi)
  have hslot : (i.cls.code.toInt + (start - least.code.toInt)).toNat = start + gap least i := by
    omega
  rw [hslot, isFree_iff_isEmpty]

lemma not_fits_of_lt_findStartFrom {tries : Nat} (hlo : start ≤ k)
    (hhi : k < findStartFrom slots least row start tries) : fits slots least row k = false := by
  induction tries generalizing start with
  | zero =>
      rw [findStartFrom] at hhi
      omega
  | succ tries ih =>
      rw [findStartFrom] at hhi
      split at hhi
      · omega
      · rename_i hfits
        rcases Nat.eq_or_lt_of_le hlo with rfl | hlt
        · exact Bool.eq_false_iff.mpr hfits
        · exact ih hlt hhi

lemma not_fits_of_lt_findStart (h : k < findStart slots least row) :
    fits slots least row k = false :=
  not_fits_of_lt_findStartFrom (Nat.zero_le k) h

/-- The least offset at which a row fits is that of the first start. -/
lemma isLeast_findStart (hleast : ∀ i ∈ row, least.code.toInt ≤ i.cls.code.toInt) :
    IsLeast {o : Int | -least.code.toInt ≤ o ∧ FitsAt slots row o}
      (findStart slots least row - least.code.toInt) := by
  refine ⟨⟨by omega, (fitsAt_iff hleast).mpr (fits_findStart slots least row).1⟩, ?_⟩
  rintro o ⟨hlo, hfits⟩
  by_contra hlt
  -- An offset from the smallest one on is that of a start.
  obtain ⟨k, rfl⟩ : ∃ k : Nat, o = k - least.code.toInt :=
    ⟨(o + least.code.toInt).toNat, by omega⟩
  have hnot : fits slots least row k = false := not_fits_of_lt_findStart (by omega)
  rw [(fitsAt_iff hleast).mp hfits] at hnot
  cases hnot

/-- Offsets of 32 bits lead to the slots that are meant. -/
lemma indexOf_eq {i : Implementation} (hnonneg : 0 ≤ least.code.toInt)
    (hleast : least.code.toInt ≤ i.cls.code.toInt) (hk : (k : Int) - least.code.toInt < 2 ^ 31) :
    indexOf i.cls (Int32.ofInt (k - least.code.toInt)) = k + gap least i := by
  have hgap := gap_eq hleast
  have hlt := least.code.toInt_lt
  have hlt' := i.cls.code.toInt_lt
  rw [indexOf, Int32.toInt_ofInt_of_le (by omega) hk]
  omega

/-- The search comes to the first start, from any number of slots before it. -/
lemma search_findStart (hnonneg : 0 ≤ least.code.toInt)
    (hleast : ∀ i ∈ row, least.code.toInt ≤ i.cls.code.toInt)
    (hoffset : (findStart slots least row : Int) - least.code.toInt < 2 ^ 31) {before : Nat}
    (hk : k + before = findStart slots least row) :
    Search slots row (Int32.ofInt (k - least.code.toInt))
      (Int32.ofInt (findStart slots least row - least.code.toInt)) := by
  have hindex : ∀ i ∈ row,
      indexOf i.cls (Int32.ofInt (k - least.code.toInt)) = k + gap least i := fun i hi =>
    indexOf_eq hnonneg (hleast i hi) (by omega)
  induction before generalizing k with
  | zero =>
      obtain rfl : k = findStart slots least row := hk
      refine .found fun i hi => ?_
      rw [hindex i hi]
      exact List.all_eq_true.mp (fits_findStart slots least row).1 i hi
  | succ before ih =>
      have hnot : fits slots least row k = false := not_fits_of_lt_findStart (by omega)
      obtain ⟨i, hi, htaken⟩ := List.all_eq_false.mp hnot
      refine .next ⟨i, hi, ?_⟩ ?_
      · rw [hindex i hi]
        exact Bool.eq_false_iff.mpr htaken
      · have hnext : Int32.ofInt (k - least.code.toInt) + 1 =
            Int32.ofInt ((k + 1 : Nat) - least.code.toInt) := by
          have hone : (1 : Int32) = Int32.ofInt 1 := rfl
          rw [hone, ← Int32.ofInt_add]
          congr 1
          omega
        rw [hnext]
        exact ih (by omega) fun i hi => indexOf_eq hnonneg (hleast i hi) (by omega)

/-! ### The table with a row placed -/

lemma getElem?_extend (slots : Slots) (size k : Nat) :
    (extend slots size)[k]? =
      if k < slots.size then slots[k]? else if k < size then some .empty else none := by
  rw [extend, Array.getElem?_append]
  split
  · rfl
  · rw [Array.getElem?_replicate]
    by_cases hk : k < size
    · rw [if_pos (by omega), if_pos hk]
    · rw [if_neg (by omega), if_neg hk]

lemma getElem?_put_of_ne {slot : Nat} (i : Implementation) (hne : slot ≠ k) :
    (put slots slot i)[k]? =
      if k < slots.size then slots[k]? else if k < slot + 1 then some .empty else none := by
  rw [put, Array.getElem?_setIfInBounds_ne hne, getElem?_extend]

lemma getElem?_place_of_ne (hne : ∀ i ∈ row, start + gap least i ≠ k) :
    (place slots least start row)[k]? =
      if k < slots.size then slots[k]?
      else if k < (place slots least start row).size then some .empty else none := by
  induction row generalizing slots with
  | nil =>
      rw [place, List.foldl_nil]
      split
      · rfl
      · rename_i hout
        exact Array.getElem?_eq_none (Nat.le_of_not_lt hout)
  | cons i row ih =>
      rw [List.forall_mem_cons] at hne
      have hplace : place slots least start (i :: row) =
        place (put slots (start + gap least i) i) least start row := rfl
      have hsize := size_put slots (start + gap least i) i
      have hgrows := size_le_size_place (put slots (start + gap least i) i) least start row
      rw [hplace, ih hne.2]
      by_cases hin : k < (put slots (start + gap least i) i).size
      · rw [if_pos hin, getElem?_put_of_ne i hne.1]
        by_cases hold : k < slots.size
        · rw [if_pos hold, if_pos hold]
        · rw [if_neg hold, if_neg hold, if_pos (by omega), if_pos (by omega)]
      · rw [if_neg hin, if_neg (by omega : ¬k < slots.size)]

lemma size_place_le {n : Nat} (hslots : slots.size ≤ n)
    (hrow : ∀ i ∈ row, start + gap least i < n) : (place slots least start row).size ≤ n := by
  induction row generalizing slots with
  | nil => exact hslots
  | cons i row ih =>
      rw [List.forall_mem_cons] at hrow
      refine ih ?_ hrow.2
      rw [size_put]
      omega

/-- A row with distinct classes of the table is placed by first fit: the offset is the
least one at which it fits, and is found by the search if it has 32 bits. The slots
of the row then hold it, the other ones are what they were, and the table has been
extended with empty slots, as far as the largest class asks for. -/
structure FirstFit (slots : Slots) (row : List Implementation) (least : ClassId) (offset : Int)
    (placed : Slots) : Prop where
  isLeast : IsLeast {o : Int | -least.code.toInt ≤ o ∧ FitsAt slots row o} offset
  offset_le : offset ≤ slots.size - least.code.toInt
  search : offset < 2 ^ 31 → (Int32.ofInt offset).toInt = offset ∧
    Search slots row (-least.code) (Int32.ofInt offset)
  stored : ∀ i ∈ row, placed[(i.cls.code.toInt + offset).toNat]? = some i
  others : ∀ k : Nat, (∀ i ∈ row, i.cls.code.toInt + offset ≠ k) →
    placed[k]? =
      if k < slots.size then slots[k]? else if k < placed.size then some .empty else none
  size : ∀ last ∈ row, (∀ i ∈ row, i.cls.code.toInt ≤ last.cls.code.toInt) →
    placed.size = max slots.size (last.cls.code.toInt + offset + 1).toNat

lemma firstFit_place {first : Implementation} {rest : List Implementation}
    (hsorted : (first :: rest).Pairwise fun i j => i.cls.code < j.cls.code)
    (hnonneg : 0 ≤ first.cls.code.toInt) :
    FirstFit slots (first :: rest) first.cls
      (findStart slots first.cls (first :: rest) - first.cls.code.toInt)
      (place slots first.cls (findStart slots first.cls (first :: rest)) (first :: rest)) := by
  have hsorted' : (first :: rest).Pairwise fun i j => i.cls.code.toInt < j.cls.code.toInt :=
    hsorted.imp Int32.lt_iff_toInt_lt.mp
  have hleast : ∀ i ∈ first :: rest, first.cls.code.toInt ≤ i.cls.code.toInt :=
    List.forall_mem_cons.mpr
      ⟨Int.le_refl _, fun i hi => Int.le_of_lt ((List.pairwise_cons.mp hsorted').1 i hi)⟩
  have hapart : (first :: rest).Pairwise fun i j => gap first.cls i ≠ gap first.cls j := by
    refine hsorted'.imp_of_mem fun {i j} hi hj hlt => ?_
    have hgi := gap_eq (hleast i hi)
    have hgj := gap_eq (hleast j hj)
    omega
  have hnonempty : ∀ i ∈ first :: rest, i.isEmpty = false := fun i hi =>
    isEmpty_eq_false (hnonneg.trans (hleast i hi))
  obtain ⟨-, hend⟩ := fits_findStart slots first.cls (first :: rest)
  generalize hstart : findStart slots first.cls (first :: rest) = start at *
  have hslot : ∀ i ∈ first :: rest,
      i.cls.code.toInt + (start - first.cls.code.toInt) = (start + gap first.cls i : Nat) := by
    intro i hi
    have hgap := gap_eq (hleast i hi)
    omega
  refine ⟨?_, by omega, fun hoffset => ⟨?_, ?_⟩, fun i hi => ?_, fun k hk => ?_,
    fun last hlast hgreatest => ?_⟩
  · rw [← hstart]
    exact isLeast_findStart hleast
  · have hlt := first.cls.code.toInt_lt
    exact Int32.toInt_ofInt_of_le (by omega) hoffset
  · rw [← hstart] at hoffset ⊢
    have hsearch := search_findStart hnonneg hleast hoffset (k := 0) (Nat.zero_add _)
    have hzero : Int32.ofInt ((0 : Nat) - first.cls.code.toInt) = -first.cls.code := by
      rw [Int.natCast_zero, Int.zero_sub, Int32.ofInt_neg, Int32.ofInt_toInt]
    rwa [hzero] at hsearch
  · rw [hslot i hi, Int.toNat_natCast]
    exact (occupant?_eq_some.mp (occupant?_place_of_mem hnonempty hapart hi)).1
  · refine getElem?_place_of_ne fun i hi heq => hk i hi ?_
    rw [hslot i hi, heq]
  · rw [hslot last hlast]
    have hreach : start + gap first.cls last <
      (place slots first.cls start (first :: rest)).size := lt_size_place hlast
    have hgrows := size_le_size_place slots first.cls start (first :: rest)
    have hle : (place slots first.cls start (first :: rest)).size ≤
        max slots.size (start + gap first.cls last + 1) := by
      refine size_place_le (by omega) fun i hi => ?_
      have hgi := gap_eq (hleast i hi)
      have hglast := gap_eq (hleast last hlast)
      have hmost := hgreatest i hi
      omega
    omega

end DispatchTable

/-! ### The packed table -/

/-- The classes of the implementations of a row. -/
def MethodRow.classes (row : MethodRow) : List Int :=
  row.implementations.toList.map (·.cls.code.toInt)

/-- The number of slots from the smallest class of a row to its largest; a row without
implementations takes none. -/
def MethodRow.span (row : MethodRow) : Nat :=
  match row.classes.min?, row.classes.max? with
  | some least, some greatest => (greatest - least).toNat + 1
  | _, _ => 0

/-- No two classes of a row are further apart than its span says. -/
lemma MethodRow.gap_lt_span {row : MethodRow} {i j : Implementation}
    (hi : i ∈ row.implementations) (hj : j ∈ row.implementations) :
    DispatchTable.gap j.cls i < row.span := by
  have hmem : ∀ x ∈ row.implementations, x.cls.code.toInt ∈ row.classes := fun x hx =>
    List.mem_map.mpr ⟨x, Array.mem_toList_iff.mpr hx, rfl⟩
  rw [span]
  cases hmin : row.classes.min? with
  | none =>
      rw [List.min?_eq_none_iff.mp hmin] at hmem
      exact absurd (hmem i hi) List.not_mem_nil
  | some least =>
      cases hmax : row.classes.max? with
      | none =>
          rw [List.max?_eq_none_iff.mp hmax] at hmem
          exact absurd (hmem i hi) List.not_mem_nil
      | some greatest =>
          have hlo := (List.min?_eq_some_iff.mp hmin).2 _ (hmem j hj)
          have hhi := (List.max?_eq_some_iff.mp hmax).2 _ (hmem i hi)
          rw [DispatchTable.gap]
          dsimp only
          omega

namespace DispatchTable

variable {slots slots' : Slots} {least : ClassId} {row : List Implementation} {start : Nat}

/-- Packing a row without implementations leaves the table; any other row is placed
where it first fits. -/
lemma eq_place_of_packRow {row : MethodRow} {offset : Int32}
    (h : packRow slots row = .ok (offset, slots')) :
    slots' = slots ∨ ∃ first ∈ row.implementations,
      slots' = place slots first.cls (findStart slots first.cls (sortRow row)) (sortRow row) := by
  have hmem : ∀ i ∈ sortRow row, i ∈ row.implementations := fun i hi => mem_sortRow.mp hi
  have hnone := (duplicate?_sortRow row).mpr ((exists_packRow_iff slots).mp ⟨_, h⟩)
  rw [packRow] at h
  dsimp only at h
  rw [hnone] at h
  generalize sortRow row = sorted at h hmem ⊢
  cases sorted with
  | nil =>
      cases h
      exact .inl rfl
  | cons first rest =>
      cases h
      exact .inr ⟨first, hmem first List.mem_cons_self, rfl⟩

/-- A row adds at most its span to the table: it starts within the table or right
behind it. -/
lemma size_packRow_le {row : MethodRow} {offset : Int32}
    (h : packRow slots row = .ok (offset, slots')) : slots'.size ≤ slots.size + row.span := by
  rcases eq_place_of_packRow h with rfl | ⟨first, hfirst, rfl⟩
  · exact Nat.le_add_right _ _
  · have hstart := (fits_findStart slots first.cls (sortRow row)).2
    refine size_place_le (Nat.le_add_right _ _) fun i hi => ?_
    have hgap := MethodRow.gap_lt_span (mem_sortRow.mp hi) hfirst
    omega

lemma size_packRows_le {rows : List (Nat × MethodRow)} {offsets offsets' : Array Int32}
    (h : packRows rows offsets slots = .ok (offsets', slots')) :
    slots'.size ≤ slots.size + (rows.map (·.2.span)).sum := by
  induction rows generalizing offsets slots with
  | nil =>
      cases h
      exact Nat.le_refl _
  | cons x rest ih =>
      rw [packRows] at h
      split at h
      · cases h
      · rename_i hrow
        have hle := size_packRow_le hrow
        have hrest := ih h
        rw [List.map_cons, List.sum_cons]
        omega

/-- The last slot of a table, if it has one, is taken. -/
def Closed (slots : Slots) : Prop :=
  ∀ n, slots.size = n + 1 → ∃ i, occupant? slots n = some i

lemma Closed.put (h : Closed slots) (slot : Nat) {i : Implementation} (hi : i.isEmpty = false) :
    Closed (put slots slot i) := by
  intro n hn
  rw [size_put] at hn
  rw [occupant?_put hi]
  by_cases hslot : slot = n
  · exact ⟨i, if_pos hslot⟩
  · obtain ⟨j, hj⟩ := h n (by omega)
    exact ⟨j, by rw [if_neg hslot, hj]⟩

lemma Closed.place (h : Closed slots) (hrow : ∀ i ∈ row, i.isEmpty = false) :
    Closed (place slots least start row) := by
  induction row generalizing slots with
  | nil => exact h
  | cons i row ih =>
      rw [List.forall_mem_cons] at hrow
      exact ih (h.put _ hrow.1) hrow.2

lemma Closed.packRows {rows : List (Nat × MethodRow)} {offsets offsets' : Array Int32}
    (h : Closed slots) (hpack : packRows rows offsets slots = .ok (offsets', slots'))
    (hrows : ∀ x ∈ rows, ∀ i ∈ x.2.implementations, 0 ≤ i.cls.code.toInt) : Closed slots' := by
  induction rows generalizing offsets slots with
  | nil =>
      cases hpack
      exact h
  | cons x rest ih =>
      rw [DispatchTable.packRows] at hpack
      rw [List.forall_mem_cons] at hrows
      split at hpack
      · cases hpack
      · rename_i hrow
        refine ih ?_ hpack hrows.2
        rcases eq_place_of_packRow hrow with rfl | ⟨first, -, rfl⟩
        · exact h
        · exact h.place fun i hi => isEmpty_eq_false (hrows.1 i (mem_sortRow.mp hi))

/-- The spans of the rows, in whatever order they are packed. -/
lemma sum_span_order (rows : Array MethodRow) :
    ((order rows).map (·.2.span)).sum = (rows.toList.map MethodRow.span).sum := by
  calc ((order rows).map (·.2.span)).sum
      = ((rows.toList.zipIdx.map Prod.fst).map MethodRow.span).sum := by
        rw [order, ((sortBy_perm _ _).map _).sum_nat, List.map_map, List.map_map]
        rfl
    _ = (rows.toList.map MethodRow.span).sum := by rw [List.zipIdx_map_fst]

/-- **First fit finds the least offset and keeps the table compact.** For any table and
any row of distinct proper classes in their order, the search ends with the least
offset at which the row fits, which puts its smallest class at the end of the table at
the latest; and placing the row there changes its own slots and adds empty ones. So if
all classes are proper, then the table that packing gives, which it does exactly if no
row has a class twice, has at most as many slots as lie between the smallest and the
largest classes of its rows, and its last one is taken. -/
theorem first_fit_compact :
    (∀ (slots : Slots) (first : Implementation) (rest : List Implementation),
      (first :: rest).Pairwise (fun i j => i.cls.code < j.cls.code) →
      0 ≤ first.cls.code.toInt →
      FirstFit slots (first :: rest) first.cls
        (findStart slots first.cls (first :: rest) - first.cls.code.toInt)
        (place slots first.cls (findStart slots first.cls (first :: rest)) (first :: rest))) ∧
    ∀ rows : Array MethodRow, (∀ row ∈ rows, ∀ i ∈ row.implementations, 0 ≤ i.cls.code.toInt) →
      ((∃ t, pack rows = .ok t) ↔ ∀ row ∈ rows, row.Distinct) ∧
      ∀ t, pack rows = .ok t →
        t.implementations.size ≤ (rows.toList.map MethodRow.span).sum ∧
        ∀ n, t.implementations.size = n + 1 →
          ∃ i, t.implementations[n]? = some i ∧ i.isEmpty = false := by
  refine ⟨fun slots first rest hsorted hnonneg => firstFit_place hsorted hnonneg,
    fun rows hrows => ⟨exists_pack_iff, fun t h => ?_⟩⟩
  rw [pack] at h
  split at h
  · cases h
  · rename_i offsets slots hpack
    cases h
    have hsize := size_packRows_le hpack
    rw [sum_span_order] at hsize
    have hempty : Closed #[] := fun n hn => absurd hn (by simp)
    have hclosed := hempty.packRows hpack fun x hx =>
      hrows x.2 (Array.mem_of_getElem? (mem_order.mp hx))
    refine ⟨by simpa using hsize, fun n hn => ?_⟩
    obtain ⟨i, hi⟩ := hclosed n hn
    exact ⟨i, occupant?_eq_some.mp hi⟩

/-- A table with three empty slots between two that are taken. -/
def gappedTable : Slots :=
  #[⟨⟨0⟩, ⟨0⟩, .standard, 8⟩, .empty, .empty, .empty, ⟨⟨4⟩, ⟨0⟩, .standard, 20⟩]

/-- Two methods, the second of which fits between the implementations of the first. -/
def gappedRows : Array MethodRow :=
  #[⟨"add", #[⟨⟨4⟩, ⟨0⟩, .standard, 20⟩, ⟨⟨0⟩, ⟨0⟩, .standard, 8⟩]⟩,
    ⟨"show", #[⟨⟨5⟩, ⟨1⟩, .standard, 40⟩, ⟨⟨3⟩, ⟨1⟩, .external, 7⟩]⟩]

/-- Two of the empty slots are found at a negative offset, and the packed table has
five slots where the rows span five and three. -/
theorem first_fit_compact_gapped :
    FirstFit gappedTable [⟨⟨3⟩, ⟨1⟩, .external, 7⟩, ⟨⟨5⟩, ⟨1⟩, .standard, 40⟩] ⟨3⟩ (-2)
      #[⟨⟨0⟩, ⟨0⟩, .standard, 8⟩, ⟨⟨3⟩, ⟨1⟩, .external, 7⟩, .empty, ⟨⟨5⟩, ⟨1⟩, .standard, 40⟩,
        ⟨⟨4⟩, ⟨0⟩, .standard, 20⟩] ∧
    ∃ t, pack gappedRows = .ok t ∧ t.implementations.size = 5 ∧
      (gappedRows.toList.map MethodRow.span).sum = 8 ∧
      t.implementations.size ≤ (gappedRows.toList.map MethodRow.span).sum ∧
      ∃ i, t.implementations[4]? = some i ∧ i.isEmpty = false := by
  obtain ⟨hfit, hpack⟩ := first_fit_compact
  have hstart : findStart gappedTable ⟨3⟩
      [⟨⟨3⟩, ⟨1⟩, .external, 7⟩, ⟨⟨5⟩, ⟨1⟩, .standard, 40⟩] = 1 := by decide
  have hfirst := hfit gappedTable ⟨⟨3⟩, ⟨1⟩, .external, 7⟩ [⟨⟨5⟩, ⟨1⟩, .standard, 40⟩] (by decide)
    (by decide)
  rw [hstart] at hfirst
  obtain ⟨hexists, hbound⟩ := hpack gappedRows (by decide)
  obtain ⟨t, ht⟩ := hexists.mpr (by decide)
  have hsize : t.implementations.size = 5 := by
    have hpacked : (pack gappedRows).toOption.map (·.implementations.size) = some 5 := by
      decide +kernel
    rw [ht] at hpacked
    exact Option.some.inj hpacked
  obtain ⟨hle, hlast⟩ := hbound t ht
  exact ⟨hfirst, t, ht, hsize, by decide, hle, hlast 4 hsize⟩

end DispatchTable

end EffectMachine
