/-
Dispatch through a packed table.

* `MethodRow.Repeats`: a row lists two implementations for one class, which is what it means not to
  be distinct, and `exists_repeats_of_pack`: a table is refused only for such a row, which the
  refusal names;
* `DispatchTable.occupied`: how many slots of a table are taken, and `occupied_of_pack`: **packing
  takes one slot for each implementation**, since every row is placed on free slots;
* `DispatchTable.listed?`: the implementation that the rows list for a class and a method;
* `dispatch_of_pack`: **packing succeeds unless a row repeats a class, and then dispatch finds
  what is listed**, for every class and every method.
-/
import EffectMachine.Proofs.PackedTable
import Mathlib.Algebra.BigOperators.Group.List.Basic

namespace EffectMachine

/-! ### Refusals -/

namespace MethodRow

variable {row : MethodRow} {cls : ClassId}

/-- The row lists two implementations for a class. -/
def Repeats (row : MethodRow) (cls : ClassId) : Prop :=
  2 ≤ row.implementations.countP (·.cls = cls)

instance (row : MethodRow) (cls : ClassId) : Decidable (row.Repeats cls) :=
  inferInstanceAs (Decidable (2 ≤ _))

lemma not_distinct_iff : ¬row.Distinct ↔ ∃ cls, row.Repeats cls := by
  have hcount : ∀ cls, (row.implementations.toList.map (·.cls)).count cls =
      row.implementations.countP (·.cls = cls) := by
    intro cls
    rw [List.count, List.countP_map, ← Array.countP_toList]
    exact List.countP_congr fun i _ => by simp
  rw [Distinct, List.nodup_iff_count_le_one]
  simp only [hcount, Repeats, not_forall, Nat.not_le, Nat.succ_le_iff]

/-- In a row without repetitions, looking for a class finds what is listed for it. -/
lemma Distinct.find?_eq_some_iff (h : row.Distinct) {i : Implementation} :
    row.implementations.find? (·.cls = cls) = some i ↔ i ∈ row.implementations ∧ i.cls = cls := by
  constructor
  · intro hfind
    exact ⟨Array.mem_of_find?_eq_some hfind, by simpa using Array.find?_some hfind⟩
  · rintro ⟨hi, hcls⟩
    obtain ⟨j, hj⟩ : ∃ j, row.implementations.find? (·.cls = cls) = some j := by
      rw [← Option.isSome_iff_exists, Array.find?_isSome]
      exact ⟨i, hi, by simpa using hcls⟩
    have hcls' : j.cls = cls := by simpa using Array.find?_some hj
    rw [hj, List.inj_on_of_nodup_map h (Array.mem_toList_iff.mpr (Array.mem_of_find?_eq_some hj))
      (Array.mem_toList_iff.mpr hi) (hcls'.trans hcls.symm)]

end MethodRow

namespace DispatchTable

lemma two_le_countP_of_duplicate? {row : List Implementation} {cls : ClassId}
    (h : duplicate? row = some cls) : 2 ≤ row.countP (·.cls = cls) := by
  fun_induction duplicate? row with
  | case1 i j rest heq =>
      cases h
      simp [heq]
  | case2 i j rest hne ih =>
      rw [List.countP_cons]
      exact Nat.le_add_right_of_le (ih h)
  | case3 => cases h

lemma repeats_of_packRow {slots : Slots} {row : MethodRow} {e : LinkError}
    (h : packRow slots row = .error e) :
    ∃ cls, e = .duplicateImplementation row.name cls ∧ row.Repeats cls := by
  rw [packRow] at h
  dsimp only at h
  split at h
  · rename_i cls hduplicate
    cases h
    refine ⟨cls, rfl, ?_⟩
    rw [MethodRow.Repeats, ← Array.countP_toList, ← (sortBy_perm _ _).countP_eq]
    exact two_le_countP_of_duplicate? hduplicate
  · split at h <;> cases h

lemma exists_packRow_of_packRows {rows : List (Nat × MethodRow)} {offsets : Array Int32}
    {slots : Slots} {e : LinkError} (h : packRows rows offsets slots = .error e) :
    ∃ x ∈ rows, ∃ slots, packRow slots x.2 = .error e := by
  induction rows generalizing offsets slots with
  | nil => cases h
  | cons x rest ih =>
      rw [packRows] at h
      split at h
      · rename_i hrow
        cases h
        exact ⟨x, List.mem_cons_self, slots, hrow⟩
      · obtain ⟨y, hy, hrow⟩ := ih h
        exact ⟨y, List.mem_cons_of_mem _ hy, hrow⟩

/-! ### Slots that are taken -/

/-- How many slots are taken. -/
def occupied (slots : Slots) : Nat := slots.countP fun i => !i.isEmpty

lemma occupied_extend (slots : Slots) (size : Nat) :
    occupied (extend slots size) = occupied slots := by
  have hempty : Implementation.empty.isEmpty = true := rfl
  rw [occupied, extend, Array.countP_append, Array.countP_replicate, hempty]
  rfl

lemma occupied_put {slots : Slots} {slot : Nat} {i : Implementation} (hi : i.isEmpty = false)
    (hfree : occupant? slots slot = none) : occupied (put slots slot i) = occupied slots + 1 := by
  have hlt := lt_size_extend slots slot
  have hold : (extend slots (slot + 1))[slot].isEmpty = true := by
    rw [← occupant?_extend slots (slot + 1), ← isFree_iff, isFree,
      Array.getElem?_eq_getElem hlt] at hfree
    exact hfree
  rw [← occupied_extend slots (slot + 1), occupied, occupied, put, Array.setIfInBounds,
    dif_pos hlt, Array.countP_set, hi, hold]
  rfl

lemma occupied_place {slots : Slots} {least : ClassId} {start : Nat} {row : List Implementation}
    (hrow : ∀ i ∈ row, i.isEmpty = false) (hroom : Room slots row least start) :
    occupied (place slots least start row) = occupied slots + row.length := by
  induction row generalizing slots with
  | nil => rfl
  | cons i row ih =>
      rw [List.forall_mem_cons] at hrow
      have hleast := List.forall_mem_cons.mp hroom.least_le
      have hapart := List.pairwise_cons.mp hroom.apart
      have hfree := List.forall_mem_cons.mp hroom.free
      have hnext : Room (put slots (start + gap least i) i) row least start := by
        refine ⟨hleast.2, hapart.2, fun j hj => ?_⟩
        have hne : start + gap least i ≠ start + gap least j := fun heq =>
          hapart.1 j hj (Nat.add_left_cancel heq)
        rw [occupant?_put hrow.1, if_neg hne, hfree.2 j hj]
      calc occupied (place slots least start (i :: row))
          = occupied (put slots (start + gap least i) i) + row.length := ih hrow.2 hnext
        _ = occupied slots + (i :: row).length := by
          rw [occupied_put hrow.1 hfree.1, List.length_cons]
          omega

lemma occupied_of_packRow {slots slots' : Slots} {row : MethodRow} {offset : Int32}
    (h : packRow slots row = .ok (offset, slots'))
    (hrow : ∀ i ∈ row.implementations, 0 ≤ i.cls.code.toInt) :
    occupied slots' = occupied slots + row.implementations.size := by
  obtain ⟨least, start, hroom, rfl, -, -⟩ := exists_room_of_packRow h
  rw [occupied_place (fun i hi => isEmpty_eq_false (hrow i (mem_sortRow.mp hi))) hroom, sortRow,
    (sortBy_perm _ _).length_eq, Array.length_toList]

lemma occupied_of_packRows {rows : List (Nat × MethodRow)} {offsets offsets' : Array Int32}
    {slots slots' : Slots} (h : packRows rows offsets slots = .ok (offsets', slots'))
    (hrows : ∀ x ∈ rows, ∀ i ∈ x.2.implementations, 0 ≤ i.cls.code.toInt) :
    occupied slots' = occupied slots + (rows.map (·.2.implementations.size)).sum := by
  induction rows generalizing offsets slots with
  | nil =>
      cases h
      rfl
  | cons x rest ih =>
      rw [packRows] at h
      rw [List.forall_mem_cons] at hrows
      split at h
      · cases h
      · rename_i hrow
        rw [ih h hrows.2, occupied_of_packRow hrow hrows.1, List.map_cons, List.sum_cons]
        omega

/-- The implementation that the rows list for a class and a method. -/
def listed? (rows : Array MethodRow) (c : ClassId) (m : MethodId) : Option Implementation :=
  rows[m.index.toNat]?.bind fun row => row.implementations.find? (·.cls = c)

end DispatchTable

open DispatchTable

variable {rows : Array MethodRow}

/-- A table is refused for a row that repeats a class, and the refusal names the two. -/
lemma exists_repeats_of_pack {e : LinkError} (h : pack rows = .error e) :
    ∃ row ∈ rows, ∃ cls, e = .duplicateImplementation row.name cls ∧ row.Repeats cls := by
  rw [pack] at h
  split at h
  · rename_i hpack
    cases h
    obtain ⟨x, hx, slots, hrow⟩ := exists_packRow_of_packRows hpack
    exact ⟨x.2, Array.mem_of_getElem? (mem_order.mp hx), repeats_of_packRow hrow⟩
  · cases h

/-- **Packing takes one slot for each implementation.** -/
lemma occupied_of_pack {t : DispatchTable} (h : pack rows = .ok t) (hrows : Numbered rows) :
    occupied t.implementations = (rows.toList.map (·.implementations.size)).sum := by
  rw [pack] at h
  split at h
  · cases h
  · rename_i hpack
    cases h
    have hsum : ((order rows).map (·.2.implementations.size)).sum =
        (rows.toList.map (·.implementations.size)).sum := by
      rw [order, ((sortBy_perm _ _).map _).sum_eq, List.map_map]
      conv_rhs => rw [← List.zipIdx_map_fst 0 rows.toList, List.map_map]
      rfl
    rw [occupied_of_packRows hpack
      (fun x hx i hi => (hrows x.1 x.2 (mem_order.mp hx) i hi).1), hsum]
    exact Nat.zero_add _

lemma exists_pack_iff_not_repeats :
    (∃ t, pack rows = .ok t) ↔ ∀ row ∈ rows, ∀ cls, ¬row.Repeats cls := by
  rw [exists_pack_iff]
  refine forall₂_congr fun row _ => ?_
  rw [← not_exists, ← MethodRow.not_distinct_iff, not_not]

/-- In a program with an exact table of distinct rows, dispatch is a look-up in the rows. -/
lemma Program.dispatch_eq_listed? {P : Program} (h : Exact rows ⟨P.methods, P.implementations⟩)
    (hrows : Numbered rows) (hdistinct : ∀ row ∈ rows, row.Distinct) {c : ClassId}
    (hc : c.isArray = false) (m : MethodId) : P.dispatch c m = listed? rows c m := by
  ext i
  rw [dispatch_eq_some_iff h hrows hc, listed?, Option.bind_eq_some_iff]
  refine exists_congr fun row => and_congr_right fun hrow => ?_
  exact (hdistinct row (Array.mem_of_getElem? hrow)).find?_eq_some_iff.symm

/-- **Packing succeeds unless a row repeats a class, and then dispatch finds what is listed**: for
every class that is not one of arrays and for every method. Methods keep their positions and names,
and no slot is taken but by an implementation of the rows. -/
theorem dispatch_of_pack (hrows : Numbered rows) (hfits : OffsetsFit (order rows) #[]) :
    ((∃ name cls, pack rows = .error (.duplicateImplementation name cls)) ↔
      ∃ row ∈ rows, ∃ cls, row.Repeats cls) ∧
    (∀ e, pack rows = .error e →
      ∃ row ∈ rows, ∃ cls, e = .duplicateImplementation row.name cls ∧ row.Repeats cls) ∧
    ((∀ row ∈ rows, ∀ cls, ¬row.Repeats cls) → ∃ t, pack rows = .ok t ∧
      t.methods.map (·.name) = rows.map (·.name) ∧
      occupied t.implementations = (rows.toList.map (·.implementations.size)).sum ∧
      ∀ P : Program, P.methods = t.methods → P.implementations = t.implementations →
        ∀ c m, c.isArray = false → P.dispatch c m = listed? rows c m) := by
  refine ⟨⟨?_, ?_⟩, fun e he => exists_repeats_of_pack he, fun hnone => ?_⟩
  · rintro ⟨name, cls, herror⟩
    obtain ⟨row, hrow, cls, -, hrepeats⟩ := exists_repeats_of_pack herror
    exact ⟨row, hrow, cls, hrepeats⟩
  · rintro ⟨row, hrow, cls, hrepeats⟩
    cases hpack : pack rows with
    | ok t => exact absurd hrepeats (exists_pack_iff_not_repeats.mp ⟨t, hpack⟩ row hrow cls)
    | error e =>
        obtain ⟨row, -, cls, rfl, -⟩ := exists_repeats_of_pack hpack
        exact ⟨row.name, cls, rfl⟩
  · obtain ⟨t, ht⟩ := exists_pack_iff_not_repeats.mpr hnone
    refine ⟨t, ht, names_of_pack ht, occupied_of_pack ht hrows, fun P hmethods himpls c m hc => ?_⟩
    have hexact : Exact rows ⟨P.methods, P.implementations⟩ := by
      rw [hmethods, himpls]
      exact exact_of_pack ht hrows hfits
    exact P.dispatch_eq_listed? hexact hrows (exists_pack_iff.mp ⟨t, ht⟩) hc m

/-- Three methods, one of them without implementations; the first is packed last, between the
slots of the third and at a negative offset. -/
def crossedRows : Array MethodRow :=
  #[⟨"show", #[⟨⟨5⟩, ⟨0⟩, .standard, 40⟩, ⟨⟨3⟩, ⟨0⟩, .external, 7⟩]⟩, ⟨"hash", #[]⟩,
    ⟨"add", #[⟨⟨4⟩, ⟨2⟩, .standard, 20⟩, ⟨⟨0⟩, ⟨2⟩, .standard, 8⟩]⟩]

/-- The crossed rows are numbered and fit, and dispatch finds what they list. -/
theorem dispatch_of_pack_crossedRows :
    (Numbered crossedRows ∧ OffsetsFit (order crossedRows) #[] ∧
      ∀ row ∈ crossedRows, ∀ cls, ¬row.Repeats cls) ∧
    ∃ t, pack crossedRows = .ok t ∧
      t.methods.map (·.name) = crossedRows.map (·.name) ∧
      occupied t.implementations = 4 ∧
      ∀ P : Program, P.methods = t.methods → P.implementations = t.implementations →
        ∀ c m, c.isArray = false → P.dispatch c m = listed? crossedRows c m := by
  have hpack : pack crossedRows = .ok
      ⟨#[⟨"show", -2⟩, ⟨"hash", 0⟩, ⟨"add", 0⟩],
        #[⟨⟨0⟩, ⟨2⟩, .standard, 8⟩, ⟨⟨3⟩, ⟨0⟩, .external, 7⟩, .empty, ⟨⟨5⟩, ⟨0⟩, .standard, 40⟩,
          ⟨⟨4⟩, ⟨2⟩, .standard, 20⟩]⟩ := by decide +kernel
  have hrows : Numbered crossedRows := by decide
  have hfits := offsetsFit_of_pack hpack hrows (by decide)
  have hnone := exists_pack_iff_not_repeats.mp ⟨_, hpack⟩
  exact ⟨⟨hrows, hfits, hnone⟩, (dispatch_of_pack hrows hfits).2.2 hnone⟩

end EffectMachine
