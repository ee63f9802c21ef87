/-
Allocation fails only when memory is full.

An object is placed behind the words in use. When there is no room, a collection leaves no words in
use but those of objects that are reached, so what is then free is all that can be free.

* `Heap.Valid`: the words in use are cut into objects, and each of them is inline or names one;
* `Heap.Live`: how many words the objects take that values reach, each counted once;
* `Heap.Keeps`: a heap holds what values reach in another, at places of its own;
* `Heap.Allocated`: what an allocation leaves, the new object stored in words of its own;
* `Heap.alloc_succeeds_iff_live_fits`: **an allocation succeeds if and only if the live words and
  those of the new object fit**, and a refused one leaves a copy of what the roots reach.
-/
import EffectMachine.Proofs.CollectionCopy
import EffectMachine.Proofs.ObjectGraph
import EffectMachine.Proofs.Relocation

namespace EffectMachine

lemma Value.movedBy_id (L : Layout) (v : Value) : v.MovedBy L id v :=
  ⟨rfl, fun _ => rfl, fun _ => rfl⟩

namespace Heap

variable {L : Layout} {cs : List ClassId} {h h' : Heap} {objects : List Object}
  {vs roots fields : List Value} {place : Nat → Nat} {cls : ClassId}
  {ρ : Type} {R : Roots ρ} {holder : ρ}

/-! ### Valid heaps -/

/-- The words in use are cut into objects. Each holds an inline value or names one of the objects,
and none holds the marker. Offsets have 32 bits, so the spaces are bounded. -/
structure Valid (L : Layout) (h : Heap) (objects : List Object) : Prop where
  cut : L.Partitions h.top objects
  room : h.top ≤ h.front.size
  twin : h.back.size = h.front.size
  small : h.front.size ≤ 2 ^ 32
  words : ∀ i < h.top, (h.front.cell i).tag ≠ .forwarded ∧ (h.front.cell i).Within L objects

/-- The objects of a valid heap are laid out one after the other. -/
lemma Valid.exists_sound (hv : h.Valid L objects) :
    ∃ cs, h.Sound L cs ∧ ∀ t, t ∈ L.objects cs ↔ t ∈ objects := by
  obtain ⟨cs, hpos, htotal, hmem⟩ := hv.cut.exists_classes
  refine ⟨cs, ⟨hpos, htotal.symm, hv.room, hv.twin, hv.small, fun i hi => ?_⟩, hmem⟩
  obtain ⟨hmarker, hwithin⟩ := hv.words i hi
  exact ⟨hmarker, fun hpos => (hmem _).mpr (hwithin hpos)⟩

/-- What is reached from values that name objects is an object. -/
lemma Sound.mem_objects_of_reaches (hs : h.Sound L cs)
    (hvs : ∀ v ∈ vs, v.Within L (L.objects cs)) {t : Object} (ht : h.front.Reaches L vs t) :
    t ∈ L.objects cs := by
  induction ht with
  | root hv hpos => exact hvs _ hv hpos
  | field _ hi hpos ih =>
      have hend := hs.end_le ih
      exact (hs.words _ (by omega)).names hpos

/-- The objects that values reach take so many words together. -/
def Live (L : Layout) (h : Heap) (vs : List Value) (words : Nat) : Prop :=
  ∃ reached : List Object, reached.Nodup ∧ (∀ t, t ∈ reached ↔ h.front.Reaches L vs t) ∧
    words = (reached.map fun t => L t.2).sum

/-! ### What is kept -/

/-- The heap `h'` holds what values reach in the heap `h`. Objects have places of their own, and
their fields are what they were, moved to these places. -/
structure Keeps (L : Layout) (h h' : Heap) (vs : List Value) (place : Nat → Nat) : Prop where
  injective : Set.InjOn place {o | ∃ c, h.front.Reaches L vs (o, c)}
  within : ∀ t, h.front.Reaches L vs t → place t.1 + L t.2 ≤ h'.top
  fields : ∀ t, h.front.Reaches L vs t → ∀ i < L t.2,
    (h.front.cell (t.1 + i)).MovedBy L place (h'.front.cell (place t.1 + i))

lemma Copies.keeps (hc : h.Copies L h' vs place) : h.Keeps L h' vs place where
  injective := hc.injective
  within t ht := by
    obtain ⟨kept, -, hmem, hparts, -⟩ := hc.tiles
    exact hparts.within _ (List.mem_map.mpr ⟨t, (hmem t).mpr ht, rfl⟩)
  fields := hc.fields

lemma Sound.keeps (hs : h.Sound L cs) (hvs : ∀ v ∈ vs, v.Within L (L.objects cs)) :
    h.Keeps L h vs id where
  injective := Set.injOn_id _
  within _ ht := hs.end_le (hs.mem_objects_of_reaches hvs ht)
  fields _ _ _ _ := Value.movedBy_id L _

lemma Keeps.bump (hk : h.Keeps L h' vs place) (htop : h'.top ≤ h'.capacity)
    (hroom : fields.length ≤ h'.available) : h.Keeps L (h'.bump cls fields).2 vs place where
  injective := hk.injective
  within t ht := Nat.le_add_right_of_le (hk.within t ht)
  fields t ht i hi := by
    have hend := hk.within t ht
    rw [cell_bump cls htop hroom, if_neg (by omega)]
    exact hk.fields t ht i hi

lemma le_available_iff (htop : h.top ≤ h.capacity) {n : Nat} :
    n ≤ h.available ↔ h.top + n ≤ h.capacity := by
  rw [available]
  omega

lemma offset_bump (htop : h.top ≤ h.capacity) (hsmall : h.capacity ≤ 2 ^ 32)
    (hpos : 0 < fields.length) (hroom : fields.length ≤ h.available) :
    (h.bump cls fields).1.offset = h.top := by
  rw [le_available_iff htop] at hroom
  exact UInt32.toNat_ofNat_of_lt' (by omega : h.top < 2 ^ 32)

lemma fields_bump (htop : h.top ≤ h.capacity) (hsmall : h.capacity ≤ 2 ^ 32)
    (hpos : 0 < fields.length) (hroom : fields.length ≤ h.available) :
    (h.bump cls fields).2.fields (h.bump cls fields).1 fields.length = .ok fields := by
  have hcapacity : h.top + fields.length ≤ h.front.size := (le_available_iff htop).mp hroom
  rw [fields_eq_ok (by rw [top_bump, size_front_bump]; exact hcapacity),
    offset_bump htop hsmall hpos hroom, top_bump]
  refine ⟨.inr (Nat.le_refl _), rfl, fun i hi => ?_⟩
  rw [cell_bump cls htop hroom, if_pos (by omega), Nat.add_sub_cancel_left,
    List.getElem?_eq_getElem hi, Option.getD_some]

/-! ### What an allocation leaves -/

/-- An allocation has stored a new object `v`. The fields that it was given are its fields, moved
with the roots if a collection had to make room. It lies behind all objects that are reached, and
these are kept. -/
structure Allocated (L : Layout) (h h' : Heap) (roots roots' fields fields' : List Value)
    (v : Value) (place : Nat → Nat) : Prop where
  stored : h'.fields v fields.length = .ok fields'
  moved_roots : List.Forall₂ (Value.MovedBy L place) roots roots'
  moved_fields : List.Forall₂ (Value.MovedBy L place) fields fields'
  keeps : h.Keeps L h' (roots ++ fields) place
  apart : ∀ t, h.front.Reaches L (roots ++ fields) t → place t.1 + L t.2 ≤ v.offset
  collections : h'.stats.collections = h.stats.collections ∧ place = id ∨
    h'.stats.collections = h.stats.collections + 1

lemma Keeps.allocated {roots' fields' : List Value} (hk : h.Keeps L h' (roots ++ fields) place)
    (htop : h'.top ≤ h'.capacity) (hsmall : h'.capacity ≤ 2 ^ 32)
    (hroots : List.Forall₂ (Value.MovedBy L place) roots roots')
    (hfields : List.Forall₂ (Value.MovedBy L place) fields fields')
    (hpos : 0 < fields.length) (hroom : fields.length ≤ h'.available)
    (hcollections : h'.stats.collections = h.stats.collections ∧ place = id ∨
      h'.stats.collections = h.stats.collections + 1) :
    h.Allocated L (h'.bump cls fields').2 roots roots' fields fields' (h'.bump cls fields').1
      place := by
  have hlength := hfields.length_eq
  rw [hlength] at hpos hroom
  refine ⟨?_, hroots, hfields, hk.bump htop hroom, fun t ht => ?_, hcollections⟩
  · rw [hlength]
    exact fields_bump htop hsmall hpos hroom
  · rw [offset_bump htop hsmall hpos hroom]
    exact hk.within t ht

/-- A collection of a sound heap is a copy that takes no more words than there were in use. -/
lemma Sound.exists_copies_within (hs : h.Sound L cs) {pending : List Value}
    (hroots : ∀ v ∈ R.get holder ++ pending, v.Within L (L.objects cs)) :
    ∃ (place : Nat → Nat) (h' : Heap) (roots' pending' : List Value),
      collectWith L R pending (h, holder) = .ok pending' (h', R.set holder roots') ∧
      h.Copies L h' (R.get holder ++ pending) place ∧
      List.Forall₂ (Value.MovedBy L place) (R.get holder) roots' ∧
      List.Forall₂ (Value.MovedBy L place) pending pending' ∧
      h'.top ≤ h.top ∧ h'.capacity = h.capacity ∧
      h'.stats.collections = h.stats.collections + 1 := by
  obtain ⟨place, h', roots', pending', hcollect, hcopies, hr, hp⟩ := hs.exists_copies hroots
  obtain ⟨kept, h₁, hcollect₁, hrel, -, hstats, -, -⟩ := collectWith_marked hs
    (fun v hv => hroots v (List.mem_append_left _ hv))
    fun v hv => hroots v (List.mem_append_right _ hv)
  obtain ⟨-, hstate⟩ := EStateM.Result.ok.inj (hcollect₁.symm.trans hcollect)
  obtain rfl : h₁ = h' := congrArg Prod.fst hstate
  refine ⟨place, h₁, roots', pending', hcollect, hcopies, hr, hp, ?_, hrel.capacity, ?_⟩
  · rw [hrel.sound.top, hs.top]
    exact Layout.total_le_of_subset (List.Nodup.of_map _ hrel.once) hrel.objects
  · rw [hstats]
    rfl

/-- **An allocation succeeds if and only if the live words and those of the new object fit.** Let
the roots and the fields of the new object be inline or name objects of a valid heap. If the words
of the objects that they reach, each counted once, leave room for the fields, then the allocation
stores the new object after at most one collection. Otherwise it is refused after one, with what
could be free at most, and leaves a copy of what was reached, the roots moved into it. -/
theorem alloc_succeeds_iff_live_fits (cls : ClassId) (hv : h.Valid L objects) (hne : fields ≠ [])
    (hwithin : ∀ v ∈ R.get holder ++ fields, v.Within L objects) :
    ∃ live, h.Live L (R.get holder ++ fields) live ∧
      ((∃ x s, alloc L R cls fields (h, holder) = .ok x s) ↔
        live + fields.length ≤ h.capacity) ∧
      (∀ v fields' h' holder',
        alloc L R cls fields (h, holder) = .ok (v, fields') (h', holder') →
          v.tag = cls ∧ R.Updated holder holder' ∧ ∃ place,
            h.Allocated L h' (R.get holder) (R.get holder') fields fields' v place) ∧
      (∀ e h' holder', alloc L R cls fields (h, holder) = .error e (h', holder') →
        e = .outOfMemory fields.length (h.capacity - live) ∧ R.Updated holder holder' ∧
        h'.stats.collections = h.stats.collections + 1 ∧ ∃ place,
          h.Copies L h' (R.get holder ++ fields) place ∧
          List.Forall₂ (Value.MovedBy L place) (R.get holder) (R.get holder')) := by
  have hpos : 0 < fields.length := List.length_pos_iff.mpr hne
  obtain ⟨cs, hs, hmem⟩ := hv.exists_sound
  have hvs : ∀ v ∈ R.get holder ++ fields, v.Within L (L.objects cs) := fun v hv hfields =>
    (hmem _).mpr (hwithin v hv hfields)
  obtain ⟨place, h₁, roots₁, fields₁, hcollect, hcopies, hroots, hfields, hle, hsize, hcount⟩ :=
    hs.exists_copies_within hvs
  obtain ⟨kept, hnodup, hreached, -, htop⟩ := hcopies.tiles
  refine ⟨h₁.top, ⟨kept, hnodup, hreached, htop⟩, ?_⟩
  have hroom : h.top ≤ h.capacity := hs.room
  have hroom₁ : h₁.top ≤ h₁.capacity := by omega
  have hupdated : R.Updated holder (R.set holder roots₁) :=
    .inr ⟨roots₁, hroots.length_eq.symm, rfl⟩
  have hget : R.get (R.set holder roots₁) = roots₁ := R.get_set _ _ hroots.length_eq.symm
  by_cases hfits : fields.length ≤ h.available
  · -- there is room already, and the live words are some of those in use
    have hlive := (le_available_iff hroom).mp hfits
    rw [alloc_of_room hpos hfits]
    refine ⟨⟨fun _ => by omega, fun _ => ⟨_, _, rfl⟩⟩, ?_, ?_⟩
    · rintro v fields' h' holder' ⟨⟩
      have hsame : ∀ us : List Value, List.Forall₂ (Value.MovedBy L id) us us := fun us =>
        List.forall₂_same.mpr fun v _ => v.movedBy_id L
      exact ⟨rfl, .inl rfl, id, (hs.keeps hvs).allocated hroom hs.small (hsame _) (hsame _) hpos
        hfits (.inl ⟨rfl, rfl⟩)⟩
    · rintro e h' holder' ⟨⟩
  · -- what the collection leaves in use is live, so the new object fits or cannot fit
    rw [alloc_of_collectWith hpos hfits hcollect, ← hsize, ← le_available_iff hroom₁]
    by_cases hfits₁ : fields.length ≤ h₁.available
    · rw [if_pos hfits₁]
      refine ⟨⟨fun _ => hfits₁, fun _ => ⟨_, _, rfl⟩⟩, ?_, ?_⟩
      · rintro v fields' h' holder' ⟨⟩
        rw [hget]
        exact ⟨rfl, hupdated, place, hcopies.keeps.allocated hroom₁ (hsize ▸ hs.small) hroots
          hfields hpos hfits₁ (.inr hcount)⟩
      · rintro e h' holder' ⟨⟩
    · rw [if_neg hfits₁]
      refine ⟨⟨?_, fun hlive => absurd hlive hfits₁⟩, ?_, ?_⟩
      · rintro ⟨x, s, ⟨⟩⟩
      · rintro v fields' h' holder' ⟨⟩
      · rintro e h' holder' ⟨⟩
        rw [hget]
        exact ⟨rfl, hupdated, hcount, place, hcopies, hroots⟩

lemma valid_threePairs : threePairs.Valid pairLayout [(0, ⟨1⟩), (2, ⟨1⟩), (4, ⟨1⟩)] where
  cut := partitions_threePairs
  room := by decide
  twin := by decide
  small := by decide
  words := show ∀ i < threePairs.top, (threePairs.front.cell i).tag ≠ .forwarded ∧
    (0 < pairLayout (threePairs.front.cell i).tag →
      (threePairs.front.cell i).object ∈ ([(0, ⟨1⟩), (2, ⟨1⟩), (4, ⟨1⟩)] : List Object)) by decide

/-- In a heap of seven words with three pairs, a fourth pair is stored if one of the three can be
dropped, and is refused if the roots reach all of them. -/
theorem alloc_succeeds_iff_live_fits_threePairs :
    threePairs.Valid pairLayout [(0, ⟨1⟩), (2, ⟨1⟩), (4, ⟨1⟩)] ∧
    (∃ (h' : Heap) (place : Nat → Nat),
      alloc pairLayout .list ⟨1⟩ [⟨⟨1⟩, 2⟩, ⟨⟨0⟩, 3⟩] (threePairs, [⟨⟨1⟩, 4⟩]) =
        .ok (⟨⟨1⟩, 4⟩, [⟨⟨1⟩, 2⟩, ⟨⟨0⟩, 3⟩]) (h', [⟨⟨1⟩, 0⟩]) ∧
      threePairs.Allocated pairLayout h' [⟨⟨1⟩, 4⟩] [⟨⟨1⟩, 0⟩] [⟨⟨1⟩, 2⟩, ⟨⟨0⟩, 3⟩]
        [⟨⟨1⟩, 2⟩, ⟨⟨0⟩, 3⟩] ⟨⟨1⟩, 4⟩ place) ∧
    ∃ (h' : Heap) (place : Nat → Nat),
      alloc pairLayout .list ⟨1⟩ [⟨⟨1⟩, 2⟩, ⟨⟨0⟩, 3⟩] (threePairs, [⟨⟨1⟩, 4⟩, ⟨⟨1⟩, 0⟩]) =
        .error (.outOfMemory 2 1) (h', [⟨⟨1⟩, 0⟩, ⟨⟨1⟩, 2⟩]) ∧
      threePairs.Copies pairLayout h' [⟨⟨1⟩, 4⟩, ⟨⟨1⟩, 0⟩, ⟨⟨1⟩, 2⟩, ⟨⟨0⟩, 3⟩] place := by
  have hwithin : ∀ v ∈ Roots.list.get [⟨⟨1⟩, 4⟩] ++ [⟨⟨1⟩, 2⟩, ⟨⟨0⟩, 3⟩],
      0 < pairLayout v.tag → v.object ∈ ([(0, ⟨1⟩), (2, ⟨1⟩), (4, ⟨1⟩)] : List Object) := by
    decide
  have hwithin' : ∀ v ∈ Roots.list.get [⟨⟨1⟩, 4⟩, ⟨⟨1⟩, 0⟩] ++ [⟨⟨1⟩, 2⟩, ⟨⟨0⟩, 3⟩],
      0 < pairLayout v.tag → v.object ∈ ([(0, ⟨1⟩), (2, ⟨1⟩), (4, ⟨1⟩)] : List Object) := by
    decide
  obtain ⟨-, -, -, hstored, -⟩ :=
    alloc_succeeds_iff_live_fits ⟨1⟩ valid_threePairs (List.cons_ne_nil _ _) hwithin
  obtain ⟨live, -, -, -, hrefused⟩ :=
    alloc_succeeds_iff_live_fits ⟨1⟩ valid_threePairs (List.cons_ne_nil _ _) hwithin'
  obtain ⟨-, -, place, hallocated⟩ := hstored _ _ _ _ rfl
  obtain ⟨-, -, -, place', hcopies, -⟩ := hrefused _ _ _ rfl
  exact ⟨valid_threePairs, ⟨_, place, rfl, hallocated⟩, _, place', rfl, hcopies⟩

end Heap

end EffectMachine
