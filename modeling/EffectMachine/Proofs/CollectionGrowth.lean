/-
When a collection does not grow the heap.

A collection follows the values that it is given and does not ask whether they
name objects. Values that are made up can name words that overlap in part; what
they share is then copied for each of them, and more words can be in use after a
collection than before (`Heap.collection_grows_tangled`). This is the only way.

* `Cells.Untangled`: of the objects that values reach, two share words only if
  they start at the same word. Objects that the words in use are cut into are like
  this (`Heap.untangled_of_partitions`), but nothing more is asked: values may lead
  outside the heap, and words may look like markers;
* `Collection.Taken`: the invariant. Every object moved so far was reached, no two
  of them start at the same word, and what is still to be looked at in the target
  leads to what is reached;
* `Heap.Reclaims`: what is in use before and after a collection, what it adds to
  the statistics and what it reports are about one number of words;
* `Heap.collection_never_grows`: **a collection of untangled objects reclaims**.
-/
import EffectMachine.Image
import EffectMachine.Proofs.CollectionBounds

namespace EffectMachine

/-! ### Objects without common words -/

/-- Objects that have no words in common fit into the words that they are among. -/
lemma Layout.sum_le_of_apart {L : Layout} {n : Nat} {ts : List Object}
    (hwithin : ∀ t ∈ ts, t.1 + L t.2 ≤ n)
    (hapart : ts.Pairwise fun t u => t.1 + L t.2 ≤ u.1 ∨ u.1 + L u.2 ≤ t.1) :
    (ts.map fun t => L t.2).sum ≤ n := by
  -- The words of all objects, one after the other, are different words below `n`.
  have hnodup : (ts.flatMap fun t => List.range' t.1 (L t.2)).Nodup := by
    refine List.nodup_flatMap.mpr ⟨fun t _ => List.nodup_range', hapart.imp ?_⟩
    intro t u hdisjoint i hi hi'
    rw [List.mem_range'_1] at hi hi'
    omega
  have hsub : (ts.flatMap fun t => List.range' t.1 (L t.2)) ⊆ List.range n := by
    intro i hi
    obtain ⟨t, ht, hi⟩ := List.mem_flatMap.mp hi
    have hend := hwithin t ht
    rw [List.mem_range'_1] at hi
    rw [List.mem_range]
    omega
  calc (ts.map fun t => L t.2).sum
      = (ts.flatMap fun t => List.range' t.1 (L t.2)).length := by
        simp only [List.length_flatMap, List.length_range']
    _ ≤ (List.range n).length := (List.subperm_of_subset hnodup hsub).length_le
    _ = n := List.length_range

/-- Of the objects that values reach, two share words only if they start at the
same word. -/
def Cells.Untangled (L : Layout) (s : Cells) (vs : List Value) : Prop :=
  ∀ t u, s.Reaches L vs t → s.Reaches L vs u →
    t.1 = u.1 ∨ t.1 + L t.2 ≤ u.1 ∨ u.1 + L u.2 ≤ t.1

/-- Objects are untangled if they are among some that are, to which the values lead
and which lead to no others. -/
lemma Cells.untangled_of_closed {L : Layout} {s : Cells} {vs : List Value} {objects : List Object}
    (hvs : ∀ v ∈ vs, v.Within L objects)
    (hfields : ∀ t ∈ objects, ∀ i < L t.2, (s.cell (t.1 + i)).Within L objects)
    (hapart : ∀ t ∈ objects, ∀ u ∈ objects,
      t.1 = u.1 ∨ t.1 + L t.2 ≤ u.1 ∨ u.1 + L u.2 ≤ t.1) : s.Untangled L vs := by
  have hmem : ∀ t, s.Reaches L vs t → t ∈ objects := by
    intro t ht
    induction ht with
    | root hv hpos => exact hvs _ hv hpos
    | field _ hi hpos ih => exact hfields _ ih _ hi hpos
  exact fun t u ht hu => hapart t (hmem t ht) u (hmem u hu)

/-! ### What a collection takes -/

namespace Collection

variable {L : Layout} {s : Cells} {vs : List Value} {taken : List Object}
  {limit n cursor : Nat} {c c' : Collection} {v v' : Value}

/-- The collection of the first `limit` words of `s` has moved these objects. They
are reached and start at different words, which carry the marker; the other words
of the source are what they were. The words of the target from the cursor on lead
to what is reached. -/
structure Taken (L : Layout) (s : Cells) (vs : List Value) (limit cursor : Nat)
    (taken : List Object) (c : Collection) : Prop where
  limit_eq : c.limit = limit
  reached : ∀ t ∈ taken, s.Reaches L vs t
  within : ∀ t ∈ taken, t.1 + L t.2 ≤ limit
  once : (taken.map Prod.fst).Nodup
  top : c.top = (taken.map fun t => L t.2).sum
  marked : ∀ t ∈ taken, (c.source.cell t.1).tag = .forwarded
  rest : ∀ i, i ∉ taken.map Prod.fst → c.source.cell i = s.cell i
  todo : ∀ i, cursor ≤ i → i < c.top → 0 < L (c.target.cell i).tag →
    s.Reaches L vs (c.target.cell i).object

namespace Taken

lemma top_le (hs : s.Untangled L vs) (hc : Taken L s vs limit cursor taken c) : c.top ≤ limit := by
  rw [hc.top]
  refine Layout.sum_le_of_apart hc.within ?_
  refine (List.pairwise_map.mp hc.once).imp_of_mem fun ht hu hne => ?_
  exact (hs _ _ (hc.reached _ ht) (hc.reached _ hu)).resolve_left hne

lemma move (hs : s.Untangled L vs) (hc : Taken L s vs limit cursor taken c) (hw : c.Within n)
    (hv : s.Reaches L vs v.object) (hend : v.offset + L v.tag ≤ limit) (hpos : 0 < L v.tag)
    (hhead : (c.source.cell v.offset).tag ≠ .forwarded) (hroom : c.top + L v.tag ≤ n) :
    Taken L s vs limit cursor ((v.offset, v.tag) :: taken) (c.move v.offset (L v.tag)) := by
  have hin : v.offset < c.source.size := by
    have hlimit := hw.limit_le
    rw [hw.source_size]
    rw [hc.limit_eq] at hlimit
    omega
  have hnew : v.offset ∉ taken.map Prod.fst := by
    intro hmem
    obtain ⟨t, ht, heq⟩ := List.mem_map.mp hmem
    exact hhead (heq ▸ hc.marked t ht)
  -- No object taken so far starts inside the new one, so its words are what they were.
  have hwords : ∀ k < L v.tag, c.source.cell (v.offset + k) = s.cell (v.offset + k) := by
    intro k hk
    refine hc.rest _ fun hmem => ?_
    obtain ⟨t, ht, heq⟩ := List.mem_map.mp hmem
    have hne : v.offset ≠ t.1 := fun h => hnew (h ▸ List.mem_map_of_mem ht)
    rcases hs _ _ hv (hc.reached t ht) with h | h | h
    · exact hne h
    · have hafter : v.offset + L v.tag ≤ t.1 := h
      omega
    · have hbefore : t.1 + L t.2 ≤ v.offset := h
      omega
  have hcell : ∀ i, (c.move v.offset (L v.tag)).source.cell i =
      if v.offset = i then ⟨.forwarded, UInt32.ofNat c.top⟩ else c.source.cell i := by
    intro i
    rw [source_move, Cells.cell_setIfInBounds]
    simp only [hin, and_true]
  refine ⟨hc.limit_eq, List.forall_mem_cons.mpr ⟨hv, hc.reached⟩,
    List.forall_mem_cons.mpr ⟨hend, hc.within⟩, List.nodup_cons.mpr ⟨hnew, hc.once⟩, ?_,
    List.forall_mem_cons.mpr ⟨?_, fun t ht => ?_⟩, fun i hi => ?_, fun i hlo hhi hfields => ?_⟩
  · rw [top_move, hc.top, List.map_cons, List.sum_cons, Nat.add_comm]
  · rw [hcell, if_pos rfl]
  · rw [hcell]
    split
    · rfl
    · exact hc.marked t ht
  · rw [List.map_cons, List.mem_cons, not_or] at hi
    rw [hcell, if_neg (Ne.symm hi.1), hc.rest i hi.2]
  · rw [target_move, Cells.cell_copyFrom, hw.target_size] at hfields ⊢
    rw [top_move] at hhi
    by_cases hnewer : c.top ≤ i
    · have hcopied : c.top ≤ i ∧ i < c.top + L v.tag ∧ i < n := by omega
      have hword := hwords (i - c.top) (by omega)
      rw [if_pos hcopied, hword] at hfields ⊢
      have hk : i - c.top < L v.object.2 := by
        change i - c.top < L v.tag
        omega
      exact .field hv hk hfields
    · rw [if_neg fun h => hnewer h.1] at hfields ⊢
      exact hc.todo i hlo (by omega) hfields

/-- Forwarding a value that leads to what is reached takes at most one object. -/
lemma forward (hs : s.Untangled L vs) (hc : Taken L s vs limit cursor taken c) (hw : c.Within n)
    (hv : 0 < L v.tag → s.Reaches L vs v.object)
    (hrun : Collection.forward L v c = .ok v' c') :
    ∃ taken', Taken L s vs limit cursor taken' c' ∧ c'.Within n := by
  have hends := forward_within (L := L) hw v
  rw [hrun] at hends
  unfold Collection.forward at hrun
  by_cases hsize : L v.tag = 0
  · simp only [if_pos hsize] at hrun
    cases hrun
    exact ⟨taken, hc, hw⟩
  by_cases hout : c.limit < v.offset + L v.tag
  · simp only [if_neg hsize, if_pos hout] at hrun
    cases hrun
  by_cases hhead : (c.source.cell v.offset).tag = .forwarded
  · simp only [if_neg hsize, if_neg hout, if_pos hhead] at hrun
    cases hrun
    exact ⟨taken, hc, hw⟩
  by_cases hfull : c.target.size < c.top + L v.tag
  · simp only [if_neg hsize, if_neg hout, if_neg hhead, if_pos hfull] at hrun
    cases hrun
  simp only [if_neg hsize, if_neg hout, if_neg hhead, if_neg hfull] at hrun
  cases hrun
  have hpos : 0 < L v.tag := Nat.pos_of_ne_zero hsize
  rw [hc.limit_eq] at hout
  rw [hw.target_size] at hfull
  exact ⟨_, hc.move hs hw (hv hpos) (Nat.le_of_not_lt hout) hpos hhead (Nat.le_of_not_lt hfull),
    hends⟩

lemma forwardFrom (hs : s.Untangled L vs) {us moved moved' : List Value}
    (hc : Taken L s vs limit cursor taken c) (hw : c.Within n)
    (hus : ∀ v ∈ us, 0 < L v.tag → s.Reaches L vs v.object)
    (hrun : Collection.forwardFrom L moved us c = .ok () (c', moved')) :
    ∃ taken', Taken L s vs limit cursor taken' c' ∧ c'.Within n := by
  induction us generalizing moved taken c with
  | nil =>
    cases hrun
    exact ⟨taken, hc, hw⟩
  | cons v us ih =>
    rw [List.forall_mem_cons] at hus
    rw [Collection.forwardFrom] at hrun
    cases hv : Collection.forward L v c with
    | error e c₁ =>
      rw [hv] at hrun
      cases hrun
    | ok v₁ c₁ =>
      rw [hv] at hrun
      obtain ⟨taken₁, hc₁, hw₁⟩ := hc.forward hs hw hus.1 hv
      exact ih hc₁ hw₁ hus.2 hrun

/-- A word that has been looked at is behind the cursor, whatever it holds now. -/
lemma advance (hc : Taken L s vs limit cursor taken c) (v : Value) :
    Taken L s vs limit (cursor + 1) taken
      { c with target := c.target.setIfInBounds cursor v } := by
  refine ⟨hc.limit_eq, hc.reached, hc.within, hc.once, hc.top, hc.marked, hc.rest,
    fun i hlo hhi => ?_⟩
  rw [Cells.cell_setIfInBounds, if_neg (by omega)]
  exact hc.todo i (by omega) hhi

/-- The loop takes only what the words of the target lead to. -/
lemma scanFrom (hs : s.Untangled L vs) {fuel : Nat} (hc : Taken L s vs limit cursor taken c)
    (hw : c.Within n) (hrun : Collection.scanFrom L fuel cursor c = .ok () c') :
    ∃ cursor' taken', Taken L s vs limit cursor' taken' c' := by
  induction fuel generalizing cursor taken c with
  | zero =>
    cases hrun
    exact ⟨cursor, taken, hc⟩
  | succ fuel ih =>
    rw [Collection.scanFrom] at hrun
    by_cases hcursor : cursor < c.top
    · rw [if_pos hcursor] at hrun
      cases hv : Collection.forward L (c.target.cell cursor) c with
      | error e c₁ =>
        rw [hv] at hrun
        cases hrun
      | ok v₁ c₁ =>
        rw [hv] at hrun
        obtain ⟨taken₁, hc₁, hw₁⟩ :=
          hc.forward hs hw (hc.todo cursor (Nat.le_refl _) hcursor) hv
        refine ih (hc₁.advance v₁) ⟨hw₁.source_size, ?_, hw₁.limit_le, hw₁.top_le⟩ hrun
        rw [Array.size_setIfInBounds]
        exact hw₁.target_size
    · rw [if_neg hcursor] at hrun
      cases hrun
      exact ⟨cursor, taken, hc⟩

end Taken

end Collection

/-! ### What a collection reclaims -/

namespace Heap

variable {ρ : Type} {L : Layout} {R : Roots ρ} {holder holder' : ρ} {h h' : Heap}
  {vs pending pending' : List Value}

/-- Objects that the words in use are cut into are untangled, if the values and
the words lead to no others. -/
lemma untangled_of_partitions {objects : List Object} (hcut : L.Partitions h.top objects)
    (hwords : ∀ i < h.top, (h.front.cell i).Within L objects)
    (hvs : ∀ v ∈ vs, v.Within L objects) : h.front.Untangled L vs := by
  refine Cells.untangled_of_closed hvs (fun t ht i hi => ?_) fun t ht u hu => ?_
  · have hend := hcut.within t ht
    exact hwords _ (by omega)
  · by_contra hshared
    push Not at hshared
    obtain ⟨hne, hlo, hhi⟩ := hshared
    -- Objects that overlap share the later one of their first words, so they are the same.
    have hpos := hcut.pos t ht
    have hpos' := hcut.pos u hu
    have heq := hcut.eq_of_shared ht hu (i := max t.1 u.1) (by omega) (by omega)
    exact hne (congrArg Prod.fst heq)

/-- A collection has left `words` words fewer in use, adds as many to those
reclaimed, and reports the two numbers of which this is the difference. -/
structure Reclaims (h h' : Heap) (words : Nat) : Prop where
  top : h.top = h'.top + words
  total : h'.stats.totalReclaimed = h.stats.totalReclaimed + words
  report : ∀ j : Journal, Image.reportCollection h.stats h.top h' j =
    j.record (.collected (h.stats.collections + 1) (h'.top + words) h'.top)

lemma reclaims_of_top_le (hle : h'.top ≤ h.top)
    (hstats : h'.stats = h.stats.recordCollection h.top h'.top) :
    h.Reclaims h' (h.top - h'.top) where
  top := by omega
  total := by rw [hstats, Stats.recordCollection]
  report j := by
    have hmore : h.stats.collections < h'.stats.collections := by
      rw [hstats]
      exact Nat.lt_succ_self _
    rw [Image.reportCollection, if_pos hmore, hstats, Stats.recordCollection,
      Nat.add_sub_cancel' hle]

/-- A collection from values that reach untangled objects leaves no more words in
use than there were. -/
lemma collectWith_reclaims (hs : h.Shaped) (hvs : h.front.Untangled L (R.get holder ++ pending))
    (hrun : collectWith L R pending (h, holder) = .ok pending' (h', holder')) :
    ∃ words, h.Reclaims h' words := by
  obtain ⟨c₁, roots, c₂, c₃, hroots, hpending, hscan, rfl, -⟩ := collectWith_eq_ok hrun
  have hw : Collection.Within h.front.size ⟨h.front, h.top, h.back, 0⟩ :=
    ⟨rfl, hs.back_size, hs.top_le, Nat.zero_le _⟩
  have hc : Collection.Taken L h.front (R.get holder ++ pending) h.top 0 []
      ⟨h.front, h.top, h.back, 0⟩ :=
    ⟨rfl, by simp, by simp, .nil, rfl, by simp, fun _ _ => rfl, fun i _ hi => absurd hi (by simp)⟩
  obtain ⟨taken₁, hc₁, hw₁⟩ := hc.forwardFrom hvs hw
    (fun v hv hpos => .root (List.mem_append_left _ hv) hpos) hroots
  obtain ⟨taken₂, hc₂, hw₂⟩ := hc₁.forwardFrom hvs hw₁
    (fun v hv hpos => .root (List.mem_append_right _ hv) hpos) hpending
  obtain ⟨cursor, taken₃, hc₃⟩ := hc₂.scanFrom hvs hw₂ hscan
  exact ⟨_, reclaims_of_top_le (hc₃.top_le hvs) rfl⟩

lemma exists_collectWith_of_collect (hrun : collect L R (h, holder) = .ok () (h', holder')) :
    ∃ pending', collectWith L R [] (h, holder) = .ok pending' (h', holder') := by
  simp only [collect, bind, EStateM.bind] at hrun
  cases hc : collectWith L R [] (h, holder) with
  | error e s =>
    rw [hc] at hrun
    cases hrun
  | ok pending' s =>
    rw [hc] at hrun
    cases hrun
    exact ⟨pending', rfl⟩

/-- **A collection of untangled objects never grows the heap.** Let the operations
have built the heap, with whatever values, and let no two of the objects that the
roots reach, and the pending values if there are such, overlap in part. Then a
collection that succeeds leaves at most as many words in use as there were; it adds
exactly the difference to the words reclaimed, and the two numbers that it reports
have this difference. Where the words in use are cut into objects and nothing leads
elsewhere, this is always so. -/
theorem collection_never_grows (hr : h.Reached) (L : Layout) (R : Roots ρ) (holder : ρ) :
    (h.front.Untangled L (R.get holder) → ∀ h' holder',
      collect L R (h, holder) = .ok () (h', holder') → ∃ words, h.Reclaims h' words) ∧
    (∀ pending, h.front.Untangled L (R.get holder ++ pending) → ∀ pending' h' holder',
      collectWith L R pending (h, holder) = .ok pending' (h', holder') →
        ∃ words, h.Reclaims h' words) ∧
    ∀ objects vs, L.Partitions h.top objects →
      (∀ i < h.top, (h.front.cell i).Within L objects) → (∀ v ∈ vs, v.Within L objects) →
        h.front.Untangled L vs := by
  refine ⟨fun hvs h' holder' hrun => ?_, fun pending hvs pending' h' holder' hrun => ?_,
    fun objects vs hcut hwords hwithin => untangled_of_partitions hcut hwords hwithin⟩
  · obtain ⟨pending', hcollect⟩ := exists_collectWith_of_collect hrun
    rw [← List.append_nil (R.get holder)] at hvs
    exact collectWith_reclaims hr.shaped hvs hcollect
  · exact collectWith_reclaims hr.shaped hvs hrun

/-- Pairs, and boxes of one field. -/
def boxLayout : Layout := fun c => if c = ⟨1⟩ then 2 else if c = ⟨2⟩ then 1 else 0

/-- Three pairs in a heap of six words. The second one holds the first, and a value
that names the first word of it as a box. -/
def boxedPair : Heap :=
  let add (fields : List Value) (h : Heap) :=
    (Fault.left (alloc boxLayout .list ⟨1⟩ fields (h, []))).1
  add [.nil, .nil] (add [⟨⟨1⟩, 0⟩, ⟨⟨2⟩, 0⟩] (add [⟨⟨0⟩, 7⟩, ⟨⟨0⟩, 8⟩] (fresh 6)))

/-- From the second pair the first one is taken once, and the third is reclaimed. -/
theorem collection_never_grows_boxed :
    boxedPair.Reached ∧ boxedPair.front.Untangled boxLayout [⟨⟨1⟩, 2⟩] ∧
    ∃ h', collect boxLayout .list (boxedPair, [⟨⟨1⟩, 2⟩]) = .ok () (h', [⟨⟨1⟩, 0⟩]) ∧
      h'.top = 4 ∧ ∃ words, boxedPair.Reclaims h' words := by
  have hr : boxedPair.Reached :=
    .alloc (.alloc (.alloc (.fresh 6) boxLayout .list [] ⟨1⟩ _) boxLayout .list [] ⟨1⟩ _)
      boxLayout .list [] ⟨1⟩ _
  have hvs : boxedPair.front.Untangled boxLayout [⟨⟨1⟩, 2⟩] := by
    have hfields : ∀ t ∈ ([(0, ⟨1⟩), (0, ⟨2⟩), (2, ⟨1⟩)] : List Object), ∀ i < boxLayout t.2,
        0 < boxLayout (boxedPair.front.cell (t.1 + i)).tag →
          (boxedPair.front.cell (t.1 + i)).object ∈
            ([(0, ⟨1⟩), (0, ⟨2⟩), (2, ⟨1⟩)] : List Object) := by
      decide
    refine Cells.untangled_of_closed (fun v hv _ => ?_) hfields (by decide)
    rw [List.mem_singleton.mp hv]
    decide
  have hrun : collect boxLayout .list (boxedPair, [⟨⟨1⟩, 2⟩]) =
      .ok () (⟨_, _, 4, _⟩, [⟨⟨1⟩, 0⟩]) := rfl
  exact ⟨hr, hvs, _, hrun, rfl, (collection_never_grows hr boxLayout .list _).1 hvs _ _ hrun⟩

/-- Two pairs in a heap of six words. The fields of the first one name it once more,
a word further on, and the second pair. -/
def tangledPairs : Heap :=
  let add (fields : List Value) (h : Heap) :=
    (Fault.left (alloc pairLayout .list ⟨1⟩ fields (h, []))).1
  add [⟨⟨1⟩, 0⟩, ⟨⟨0⟩, 0⟩] (add [⟨⟨1⟩, 1⟩, ⟨⟨1⟩, 2⟩] (fresh 6))

/-- A collection can grow the heap: from the first pair, three pairs of words are
copied from four words. The statistics then show nothing reclaimed. -/
theorem collection_grows_tangled :
    tangledPairs.Reached ∧ tangledPairs.top = 4 ∧
    ∃ h', collect pairLayout .list (tangledPairs, [⟨⟨1⟩, 0⟩]) = .ok () (h', [⟨⟨1⟩, 0⟩]) ∧
      h'.top = 6 ∧ ¬h'.top ≤ tangledPairs.top ∧
      ¬∃ words, tangledPairs.Reclaims h' words := by
  have hr : tangledPairs.Reached :=
    .alloc (.alloc (.fresh 6) pairLayout .list [] ⟨1⟩ _) pairLayout .list [] ⟨1⟩ _
  refine ⟨hr, rfl, ⟨_, _, 6, _⟩, rfl, rfl, by decide, ?_⟩
  rintro ⟨words, hreclaims⟩
  have htop : 4 = 6 + words := hreclaims.top
  omega

end Heap

end EffectMachine
