/-
The packed table does not depend on the order of listing.

Rows are placed in the order of their names, and a row is placed by its implementations in the order
of their classes. Where names are distinct, neither order depends on how rows and implementations
were listed, so two listings of the same methods are packed in lockstep.

* `MethodRow.Shuffled`, `Reordered`: a row with its implementations in another order, and rows in
  another order, each of them shuffled;
* `DispatchTable.packRow_shuffled`: a shuffled row is packed alike, and refused alike;
* `DispatchTable.order_reordered`: reordered rows are placed in the same order;
* `DispatchTable.packRows_lockstep`: rows that correspond are placed in the same slots;
* `pack_ignores_listing_order`: **two listings of the same methods give the same table**, with the
  same offsets, or are refused for the same method and class.
-/
import EffectMachine.Proofs.PackedDispatch
import Mathlib.Data.List.Forall2
import Mathlib.Logic.Equiv.Basic

namespace EffectMachine

/-- Two rows of one method that list the same implementations, in any order. -/
structure MethodRow.Shuffled (row row' : MethodRow) : Prop where
  name : row'.name = row.name
  implementations : row'.implementations.toList.Perm row.implementations.toList

/-- The second rows are the first ones in another order, each with its implementations in another
order. What is at `k` was at `σ k`. -/
def Reordered (rows rows' : Array MethodRow) (σ : Fin rows'.size ≃ Fin rows.size) : Prop :=
  ∀ k, ∃ row row', rows[(σ k).val]? = some row ∧ rows'[k.val]? = some row' ∧ row.Shuffled row'

namespace DispatchTable

/-! ### Shuffled rows -/

lemma duplicate?_congr {row row' : List Implementation}
    (h : row.map (·.cls) = row'.map (·.cls)) : duplicate? row = duplicate? row' := by
  fun_induction duplicate? row generalizing row' with
  | case1 i j rest heq =>
      obtain ⟨i', rest', rfl, hi, hrest⟩ := List.map_eq_cons_iff.mp h.symm
      obtain ⟨j', rest'', rfl, hj, -⟩ := List.map_eq_cons_iff.mp hrest
      rw [duplicate?, if_pos (hi.trans (heq.trans hj.symm)), hi]
  | case2 i j rest hne ih =>
      obtain ⟨i', rest', rfl, hi, hrest⟩ := List.map_eq_cons_iff.mp h.symm
      obtain ⟨j', rest'', rfl, hj, hrest'⟩ := List.map_eq_cons_iff.mp hrest
      rw [duplicate?, if_neg fun heq => hne (hi.symm.trans (heq.trans hj))]
      exact ih hrest.symm
  | case3 row hshort =>
      -- a row of fewer than two implementations
      cases row' with
      | nil => rfl
      | cons i' rest' =>
          cases rest' with
          | nil => rfl
          | cons j' rest' =>
              obtain ⟨i, rest, rfl, -, hrest⟩ := List.map_eq_cons_iff.mp h
              obtain ⟨j, rest, rfl, -, -⟩ := List.map_eq_cons_iff.mp hrest
              exact absurd rfl (hshort i j rest)

variable {row row' : MethodRow}

lemma sortRow_perm (h : row.Shuffled row') : (sortRow row').Perm (sortRow row) :=
  (sortBy_perm _ _).trans (h.implementations.trans (sortBy_perm _ _).symm)

/-- The classes of a row, in order, do not depend on how it was listed. -/
lemma map_cls_sortRow (h : row.Shuffled row') :
    (sortRow row').map (·.cls) = (sortRow row).map (·.cls) := by
  have hsorted : ∀ row : MethodRow,
      ((sortRow row).map (·.cls)).Pairwise fun c d => c.code.toInt ≤ d.code.toInt := fun row =>
    List.pairwise_map.mpr (pairwise_sortRow row)
  refine List.Perm.eq_of_pairwise (fun c d _ _ hcd hdc => ?_) (hsorted row') (hsorted row)
    ((sortRow_perm h).map _)
  exact congrArg ClassId.mk (Int32.toInt_inj.mp (Int.le_antisymm hcd hdc))

lemma sortRow_shuffled (h : row.Shuffled row') (hdistinct : row.Distinct) :
    sortRow row' = sortRow row := by
  refine List.Perm.eq_of_pairwise (fun i j hi hj hij hji => ?_) (pairwise_sortRow row')
    (pairwise_sortRow row) (sortRow_perm h)
  have hcls : i.cls = j.cls :=
    congrArg ClassId.mk (Int32.toInt_inj.mp (Int.le_antisymm hij hji))
  have hmem : ∀ k, k ∈ sortRow row → k ∈ row.implementations.toList := fun k hk =>
    Array.mem_toList_iff.mpr (mem_sortRow.mp hk)
  exact List.inj_on_of_nodup_map hdistinct (hmem i ((sortRow_perm h).mem_iff.mp hi)) (hmem j hj)
    hcls

/-- **A shuffled row is packed alike**, and refused alike. -/
lemma packRow_shuffled (h : row.Shuffled row') (slots : Slots) :
    packRow slots row' = packRow slots row := by
  have hduplicate : duplicate? (sortRow row') = duplicate? (sortRow row) :=
    duplicate?_congr (map_cls_sortRow h)
  rw [packRow, packRow]
  dsimp only
  rw [hduplicate]
  cases hclass : duplicate? (sortRow row) with
  | some cls => rw [h.name]
  | none => rw [sortRow_shuffled h ((duplicate?_sortRow row).mp hclass)]

/-! ### Reordered rows -/

/-- The methods of rows, numbered, in the order of their names. -/
lemma pairwise_order (rows : Array MethodRow) :
    (order rows).Pairwise fun x y => x.2.name ≤ y.2.name := by
  have hsorted : (order rows).Pairwise fun x y => decide (x.2.name ≤ y.2.name) = true := by
    refine pairwise_sortBy (fun x y h => ?_) (fun x y z hxy hyz => ?_) _
    · rw [decide_eq_false_iff_not] at h
      exact decide_eq_true ((String.le_total _ _).resolve_left h)
    · rw [decide_eq_true_eq] at hxy hyz ⊢
      exact String.le_trans hxy hyz
  exact hsorted.imp fun h => of_decide_eq_true h

variable {rows rows' : Array MethodRow} {σ : Fin rows'.size ≃ Fin rows.size}

/-- Two numbered rows correspond: what has the first number was at the second, and has at most
been shuffled. -/
def Corresponds (σ : Fin rows'.size ≃ Fin rows.size) (x' x : Nat × MethodRow) : Prop :=
  ∃ k : Fin rows'.size, x'.1 = k ∧ x.1 = σ k ∧ x.2.Shuffled x'.2

/-- The numbered row to which a numbered row of the second listing corresponds. -/
def source (σ : Fin rows'.size ≃ Fin rows.size) (x : Nat × MethodRow) : Nat × MethodRow :=
  if h : x.1 < rows'.size then (σ ⟨x.1, h⟩, rows[σ ⟨x.1, h⟩]) else x

lemma exists_of_mem_order {x : Nat × MethodRow} (hx : x ∈ order rows) :
    ∃ (k : Fin rows.size) (row : MethodRow), x = (↑k, row) ∧ rows[k.val]? = some row := by
  have hrow := mem_order.mp hx
  exact ⟨⟨x.1, (Array.getElem?_eq_some_iff.mp hrow).1⟩, x.2, rfl, hrow⟩

lemma source_of_fin (σ : Fin rows'.size ≃ Fin rows.size) (k : Fin rows'.size) (row : MethodRow) :
    source σ (↑k, row) = (↑(σ k), rows[σ k]) := dif_pos k.isLt

/-- Reordered rows are the same numbered rows under other numbers. -/
lemma map_source_perm (σ : Fin rows'.size ≃ Fin rows.size) :
    ((order rows').map (source σ)).Perm (order rows) := by
  have hnodup : ∀ rows : Array MethodRow, (order rows).Nodup := fun rows =>
    List.Nodup.of_map _ (nodup_order rows)
  have hnodup' : ((order rows').map (source σ)).Nodup := by
    refine List.Nodup.map_on (fun x hx y hy heq => ?_) (hnodup rows')
    obtain ⟨k, row, rfl, hk⟩ := exists_of_mem_order hx
    obtain ⟨l, row', rfl, hl⟩ := exists_of_mem_order hy
    rw [source_of_fin, source_of_fin, Prod.mk.injEq, Fin.val_inj, σ.apply_eq_iff_eq] at heq
    obtain rfl := heq.1
    rw [Option.some.inj (hk.symm.trans hl)]
  refine (List.perm_ext_iff_of_nodup hnodup' (hnodup rows)).mpr fun y =>
    ⟨fun hy => ?_, fun hy => ?_⟩
  · obtain ⟨x, hx, rfl⟩ := List.mem_map.mp hy
    obtain ⟨k, row, rfl, -⟩ := exists_of_mem_order hx
    rw [source_of_fin]
    exact mem_order.mpr (Array.getElem?_eq_getElem (σ k).isLt)
  · obtain ⟨l, row, rfl, hl⟩ := exists_of_mem_order hy
    obtain ⟨k, rfl⟩ := σ.surjective l
    obtain ⟨_, hrow⟩ := Array.getElem?_eq_some_iff.mp hl
    refine List.mem_map.mpr ⟨(↑k, rows'[k]), mem_order.mpr (Array.getElem?_eq_getElem k.isLt), ?_⟩
    rw [source_of_fin]
    exact Prod.ext rfl hrow

lemma eq_of_name_eq (hnames : (rows.toList.map (·.name)).Nodup) {k l : Fin rows.size}
    {row row' : MethodRow} (hk : rows[k.val]? = some row) (hl : rows[l.val]? = some row')
    (h : row.name = row'.name) : k = l := by
  obtain ⟨_, rfl⟩ := Array.getElem?_eq_some_iff.mp hk
  obtain ⟨_, rfl⟩ := Array.getElem?_eq_some_iff.mp hl
  have hget : (rows.toList.map (·.name)).get ⟨k.val, by simp⟩ =
      (rows.toList.map (·.name)).get ⟨l.val, by simp⟩ := by simpa using h
  exact Fin.ext (Fin.mk.inj (List.nodup_iff_injective_get.mp hnames hget))

/-- **Reordered rows are placed in the same order**, if their names are distinct. -/
lemma order_reordered (h : Reordered rows rows' σ)
    (hnames : (rows.toList.map (·.name)).Nodup) :
    List.Forall₂ (Corresponds σ) (order rows') (order rows) := by
  have hcorresponds : ∀ x ∈ order rows', Corresponds σ x (source σ x) := by
    intro x hx
    obtain ⟨k, row', rfl, hk⟩ := exists_of_mem_order hx
    obtain ⟨row, _, hrow, hrow', hshuffled⟩ := h k
    obtain rfl := Option.some.inj (hk.symm.trans hrow')
    obtain ⟨_, rfl⟩ := Array.getElem?_eq_some_iff.mp hrow
    rw [source_of_fin]
    exact ⟨k, rfl, rfl, hshuffled⟩
  have hname : ∀ x ∈ order rows', (source σ x).2.name = x.2.name := by
    intro x hx
    obtain ⟨k, -, -, hshuffled⟩ := hcorresponds x hx
    exact hshuffled.name.symm
  have hsorted : ((order rows').map (source σ)).Pairwise fun x y => x.2.name ≤ y.2.name := by
    refine List.pairwise_map.mpr ((pairwise_order rows').imp_of_mem fun hx hy hle => ?_)
    rwa [hname _ hx, hname _ hy]
  have heq : (order rows').map (source σ) = order rows := by
    refine List.Perm.eq_of_pairwise (fun x y hx hy hxy hyx => ?_) hsorted (pairwise_order rows)
      (map_source_perm σ)
    -- two rows of one name are the same row
    obtain ⟨k, row, rfl, hk⟩ := exists_of_mem_order ((map_source_perm σ).mem_iff.mp hx)
    obtain ⟨l, row', rfl, hl⟩ := exists_of_mem_order hy
    obtain rfl := eq_of_name_eq hnames hk hl (String.le_antisymm hxy hyx)
    rw [Option.some.inj (hk.symm.trans hl)]
  rw [← heq, List.forall₂_map_right_iff]
  exact List.forall₂_same.mpr hcorresponds

/-! ### Packing in lockstep -/

/-- Offsets are the same for rows that correspond. -/
def OffsetsAgree (σ : Fin rows'.size ≃ Fin rows.size) (offsets offsets' : Array Int32) : Prop :=
  offsets.size = rows.size ∧ offsets'.size = rows'.size ∧
    ∀ k : Fin rows'.size, offsets'[k.val]? = offsets[(σ k).val]?

lemma OffsetsAgree.set {offsets offsets' : Array Int32} (h : OffsetsAgree σ offsets offsets')
    (k : Fin rows'.size) (offset : Int32) :
    OffsetsAgree σ (offsets.setIfInBounds (σ k) offset) (offsets'.setIfInBounds k offset) := by
  obtain ⟨hsize, hsize', hagree⟩ := h
  refine ⟨by rw [Array.size_setIfInBounds, hsize], by rw [Array.size_setIfInBounds, hsize'],
    fun l => ?_⟩
  rw [Array.getElem?_setIfInBounds, Array.getElem?_setIfInBounds, hagree l, hsize, hsize']
  simp only [Fin.val_inj, σ.apply_eq_iff_eq, Fin.isLt, ↓reduceIte]

/-- **Rows that correspond are placed in the same slots**, or the same one is refused. -/
lemma packRows_lockstep {xs xs' : List (Nat × MethodRow)}
    (h : List.Forall₂ (Corresponds σ) xs' xs) {offsets offsets' : Array Int32}
    (hoffsets : OffsetsAgree σ offsets offsets') (slots : Slots) :
    (∃ e, packRows xs offsets slots = .error e ∧ packRows xs' offsets' slots = .error e) ∨
    ∃ r r' slots', packRows xs offsets slots = .ok (r, slots') ∧
      packRows xs' offsets' slots = .ok (r', slots') ∧ OffsetsAgree σ r r' := by
  induction h generalizing offsets offsets' slots with
  | nil => exact .inr ⟨offsets, offsets', slots, rfl, rfl, hoffsets⟩
  | @cons x' x xs' xs hx _ ih =>
      obtain ⟨k, hk, hk', hshuffled⟩ := hx
      rw [packRows, packRows, packRow_shuffled hshuffled, hk, hk']
      cases hrow : packRow slots x.2 with
      | error e => exact .inl ⟨e, rfl, rfl⟩
      | ok r => exact ih (hoffsets.set k r.1) r.2

end DispatchTable

open DispatchTable

variable {rows rows' : Array MethodRow} {σ : Fin rows'.size ≃ Fin rows.size}

/-- Two listings of the same methods are packed alike. -/
lemma pack_lockstep (h : Reordered rows rows' σ) (hnames : (rows.toList.map (·.name)).Nodup) :
    (∃ e, pack rows = .error e ∧ pack rows' = .error e) ∨
    ∃ t t', pack rows = .ok t ∧ pack rows' = .ok t' ∧ t'.implementations = t.implementations ∧
      ∀ k, t'.methods[k.val]? = t.methods[(σ k).val]? := by
  have hstart : OffsetsAgree σ (Array.replicate rows.size 0) (Array.replicate rows'.size 0) := by
    refine ⟨Array.size_replicate, Array.size_replicate, fun k => ?_⟩
    simp
  rw [pack, pack]
  rcases packRows_lockstep (order_reordered h hnames) hstart #[] with
    ⟨e, hrows, hrows'⟩ | ⟨r, r', slots, hrows, hrows', -, -, hagree⟩
  · rw [hrows, hrows']
    exact .inl ⟨e, rfl, rfl⟩
  · rw [hrows, hrows']
    refine .inr ⟨_, _, rfl, rfl, rfl, fun k => ?_⟩
    obtain ⟨row, row', hrow, hrow', hshuffled⟩ := h k
    rw [Array.getElem?_zipWith, Array.getElem?_zipWith, hrow, hrow', hagree k]
    cases r[(σ k).val]? with
    | none => rfl
    | some offset => exact congrArg (fun name => some (⟨name, offset⟩ : Method)) hshuffled.name

/-- A packed method stands where its row was listed, under its name. -/
lemma exists_name_of_mem {t : DispatchTable} (h : pack rows = .ok t) {m : Method}
    (hm : m ∈ t.methods) :
    ∃ (k : Fin rows.size) (row : MethodRow), rows[k.val]? = some row ∧ m.name = row.name ∧
      t.methods[k.val]? = some m := by
  obtain ⟨k, hk⟩ := Array.mem_iff_getElem?.mp hm
  have hlt : k < rows.size := by
    rw [← size_methods_of_pack h]
    exact (Array.getElem?_eq_some_iff.mp hk).1
  have hnames := congrArg (·[k]?) (names_of_pack h)
  simp only [Array.getElem?_map, hk, Array.getElem?_eq_getElem hlt, Option.map_some,
    Option.some.injEq] at hnames
  exact ⟨⟨k, hlt⟩, _, Array.getElem?_eq_getElem hlt, hnames, hk⟩

/-- **Packing does not depend on the order of listing.** Let methods of distinct names be listed
twice, in any two orders and each with its implementations in any two orders. If one listing is
refused, then so is the other, for the same method and the same class. Otherwise both give the same
table of implementations and each method the same offset, the list of methods being reordered as
the rows are. -/
theorem pack_ignores_listing_order (h : Reordered rows rows' σ)
    (hnames : (rows.toList.map (·.name)).Nodup) :
    (∀ e, pack rows' = .error e ↔ pack rows = .error e) ∧
    (∀ e, pack rows = .error e → ∃ row ∈ rows, ∃ cls,
      e = .duplicateImplementation row.name cls ∧ row.Repeats cls) ∧
    ((∃ t', pack rows' = .ok t') ↔ ∃ t, pack rows = .ok t) ∧
    ∀ t t', pack rows = .ok t → pack rows' = .ok t' →
      t'.implementations = t.implementations ∧
      (∀ k, t'.methods[k.val]? = t.methods[(σ k).val]?) ∧
      ∀ m ∈ t.methods, ∀ m' ∈ t'.methods, m'.name = m.name → m'.offset = m.offset := by
  rcases pack_lockstep h hnames with ⟨e, hpack, hpack'⟩ | ⟨t, t', hpack, hpack', htable, hmethods⟩
  · rw [hpack, hpack']
    refine ⟨fun e => Iff.rfl, fun e' he => ?_, by simp, fun t t' ht => by cases ht⟩
    exact exists_repeats_of_pack (hpack.trans he)
  · rw [hpack, hpack']
    refine ⟨by simp, by simp, by simp, ?_⟩
    rintro _ _ ⟨⟩ ⟨⟩
    refine ⟨htable, hmethods, fun m hm m' hm' hname => ?_⟩
    obtain ⟨l, row, hl, hlname, hm⟩ := exists_name_of_mem hpack hm
    obtain ⟨k, row', hk, hkname, hm'⟩ := exists_name_of_mem hpack' hm'
    obtain ⟨row₁, _, hrow, hrow', hshuffled⟩ := h k
    obtain rfl := Option.some.inj (hk.symm.trans hrow')
    have heq : σ k = l := by
      refine eq_of_name_eq hnames hrow hl ?_
      rw [← hlname, ← hname, hkname, hshuffled.name]
    rw [hmethods, heq, hm, Option.some.injEq] at hm'
    rw [hm']

/-- Two methods, of which the second listed is placed first. -/
def swappedRows : Array MethodRow :=
  #[⟨"show", #[⟨⟨3⟩, ⟨0⟩, .external, 7⟩, ⟨⟨5⟩, ⟨0⟩, .standard, 40⟩]⟩,
    ⟨"add", #[⟨⟨0⟩, ⟨1⟩, .standard, 8⟩, ⟨⟨4⟩, ⟨1⟩, .standard, 20⟩]⟩]

/-- The same methods, listed the other way round in all respects. -/
def swappedRows' : Array MethodRow :=
  #[⟨"add", #[⟨⟨4⟩, ⟨1⟩, .standard, 20⟩, ⟨⟨0⟩, ⟨1⟩, .standard, 8⟩]⟩,
    ⟨"show", #[⟨⟨5⟩, ⟨0⟩, .standard, 40⟩, ⟨⟨3⟩, ⟨0⟩, .external, 7⟩]⟩]

/-- The exchange of two methods. -/
def rowExchange : Fin swappedRows'.size ≃ Fin swappedRows.size :=
  (Equiv.swap 0 1 : Equiv.Perm (Fin 2))

/-- Listed the other way round, two methods are packed into the same table. -/
theorem pack_ignores_listing_order_swapped :
    Reordered swappedRows swappedRows' rowExchange ∧ (swappedRows.toList.map (·.name)).Nodup ∧
    ∃ t t', pack swappedRows = .ok t ∧ pack swappedRows' = .ok t' ∧
      t'.implementations = t.implementations ∧ t.methods = #[⟨"show", -2⟩, ⟨"add", 0⟩] ∧
      ∀ k, t'.methods[k.val]? = t.methods[(rowExchange k).val]? := by
  have hreordered : Reordered swappedRows swappedRows' rowExchange := by
    intro k
    refine ⟨swappedRows[rowExchange k], swappedRows'[k],
      Array.getElem?_eq_getElem (rowExchange k).isLt, Array.getElem?_eq_getElem k.isLt, ?_, ?_⟩ <;>
      revert k <;> decide
  have hnames : (swappedRows.toList.map (·.name)).Nodup := by decide
  have hpack : pack swappedRows = .ok
      ⟨#[⟨"show", -2⟩, ⟨"add", 0⟩],
        #[⟨⟨0⟩, ⟨1⟩, .standard, 8⟩, ⟨⟨3⟩, ⟨0⟩, .external, 7⟩, .empty, ⟨⟨5⟩, ⟨0⟩, .standard, 40⟩,
          ⟨⟨4⟩, ⟨1⟩, .standard, 20⟩]⟩ := by decide +kernel
  obtain ⟨-, -, hsuccess, hsame⟩ := pack_ignores_listing_order hreordered hnames
  obtain ⟨t', hpack'⟩ := hsuccess.mpr ⟨_, hpack⟩
  obtain ⟨htable, hmethods, -⟩ := hsame _ _ hpack hpack'
  exact ⟨hreordered, hnames, _, t', hpack, hpack', htable, rfl, hmethods⟩

end EffectMachine
