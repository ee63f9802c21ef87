/-
A collection is a copy.

Seen from outside, a heap is a set of objects that cuts the words in use into pieces, in whatever
order they have been allocated. A collection of such a heap gives each object that the roots reach
a new place, and the heap that it leaves is cut by these objects at their new places.

* `Layout.Partitions.exists_classes`: the objects of a partition stand one after the other, so the
  list of their classes lays them out;
* `Value.MovedBy`: a value after the objects have moved;
* `Heap.Copies`: a heap holds a copy of what values reach in another;
* `Heap.collection_copies_reachable`: **a collection copies what the roots reach**.
-/
import EffectMachine.Proofs.Collecting
import Mathlib.Data.Set.Function

namespace EffectMachine

/-! ### Partitions are laid out -/

namespace Layout.Partitions

variable {L : Layout} {top : Nat} {ts us : List Object}

lemma eq_of_shared (h : L.Partitions top ts) {t u : Object} (ht : t ∈ ts) (hu : u ∈ ts) {i : Nat}
    (hi : t.1 ≤ i ∧ i < t.1 + L t.2) (hi' : u.1 ≤ i ∧ i < u.1 + L u.2) : t = u := by
  have hend := h.within t ht
  exact (h.cover i (by omega)).unique ⟨ht, hi⟩ ⟨hu, hi'⟩

/-- Up to a word at which no object is cut, the objects of a partition stand one after the
other. -/
lemma exists_classes_below (h : L.Partitions top ts) {n : Nat} (hn : n ≤ top)
    (hcut : ∀ t ∈ ts, t.1 + L t.2 ≤ n ∨ n ≤ t.1) :
    ∃ cs, (∀ c ∈ cs, 0 < L c) ∧ L.total cs = n ∧
      ∀ t, t ∈ L.objects cs ↔ t ∈ ts ∧ t.1 + L t.2 ≤ n := by
  -- the last word belongs to an object that ends with it, so the one below is cut where it starts
  induction n using Nat.strong_induction_on with
  | _ n ih =>
      rcases Nat.eq_zero_or_pos n with rfl | hpos
      · refine ⟨[], (fun c hc => by cases hc), rfl, fun t => ⟨(fun ht => by cases ht), ?_⟩⟩
        rintro ⟨ht, hend⟩
        have hsize := h.pos t ht
        omega
      · obtain ⟨t, ⟨ht, hlo, hhi⟩, -⟩ := h.cover (n - 1) (by omega)
        have hsize := h.pos t ht
        have hend : t.1 + L t.2 = n := by
          rcases hcut t ht with hle | hle
          · omega
          · omega
        have hstart : ∀ u ∈ ts, u.1 + L u.2 ≤ t.1 ∨ t.1 ≤ u.1 := by
          intro u hu
          by_contra hnot
          have heq := h.eq_of_shared hu ht (i := t.1) (by omega) (by omega)
          rw [heq] at hnot
          omega
        obtain ⟨cs, hcs, htotal, hmem⟩ := ih t.1 (by omega) (by omega) hstart
        refine ⟨cs ++ [t.2], fun c hc => ?_, ?_, fun u => ?_⟩
        · rcases List.mem_append.mp hc with hc | hc
          · exact hcs c hc
          · rw [List.mem_singleton.mp hc]
            exact hsize
        · rw [total_append, total_cons, total_nil, htotal]
          omega
        · rw [objects_append_singleton, List.mem_append, List.mem_singleton, hmem, htotal]
          constructor
          · rintro (⟨hu, hle⟩ | rfl)
            · exact ⟨hu, by omega⟩
            · exact ⟨ht, Nat.le_of_eq hend⟩
          · rintro ⟨hu, hle⟩
            rcases hstart u hu with hbelow | habove
            · exact .inl ⟨hu, hbelow⟩
            · have husize := h.pos u hu
              have heq : u = t := h.eq_of_shared hu ht (i := u.1) (by omega) (by omega)
              exact .inr heq

/-- **The objects of a partition are laid out**, in the order of their first words. -/
lemma exists_classes (h : L.Partitions top ts) :
    ∃ cs, (∀ c ∈ cs, 0 < L c) ∧ L.total cs = top ∧ ∀ t, t ∈ L.objects cs ↔ t ∈ ts := by
  obtain ⟨cs, hcs, htotal, hmem⟩ :=
    h.exists_classes_below (Nat.le_refl top) fun t ht => .inl (h.within t ht)
  refine ⟨cs, hcs, htotal, fun t => (hmem t).trans ⟨fun ht => ht.1, fun ht => ⟨ht, h.within t ht⟩⟩⟩

/-- Being a partition depends on the objects only, not on their order. -/
lemma of_mem_iff (h : L.Partitions top ts) (hmem : ∀ t, t ∈ us ↔ t ∈ ts) :
    L.Partitions top us where
  pos t ht := h.pos t ((hmem t).mp ht)
  within t ht := h.within t ((hmem t).mp ht)
  cover i hi := by
    obtain ⟨t, ⟨ht, hti⟩, hunique⟩ := h.cover i hi
    exact ⟨t, ⟨(hmem t).mpr ht, hti⟩, fun u hu => hunique u ⟨(hmem u).mp hu.1, hu.2⟩⟩

end Layout.Partitions

/-! ### Moved values -/

/-- The value `w` is what `v` becomes when objects move: of the same class, and either the same
inline value or naming the new place of the object. -/
structure Value.MovedBy (L : Layout) (place : Nat → Nat) (v w : Value) : Prop where
  tag : w.tag = v.tag
  inline : L v.tag = 0 → w = v
  offset : 0 < L v.tag → w.offset = place v.offset

lemma Value.movedBy_moveTo {L : Layout} {ts : List Object} (hnd : (ts.map Prod.fst).Nodup)
    (hsmall : L.total (ts.map Prod.snd) ≤ 2 ^ 32) {v : Value} (hv : v.Within L ts) :
    v.MovedBy L (newPlace L ts) (v.moveTo L (newPlace L ts)) where
  tag := tag_moveTo _ v
  inline h := moveTo_of_inline h _
  offset h := congrArg Prod.fst (object_moveTo hnd hsmall h (hv h))

lemma Value.forall₂_movedBy {L : Layout} {ts : List Object} (hnd : (ts.map Prod.fst).Nodup)
    (hsmall : L.total (ts.map Prod.snd) ≤ 2 ^ 32) {vs : List Value}
    (hvs : ∀ v ∈ vs, v.Within L ts) :
    List.Forall₂ (MovedBy L (newPlace L ts)) vs (vs.map (·.moveTo L (newPlace L ts))) :=
  List.forall₂_map_right_iff.mpr <| List.forall₂_same.mpr fun v hv =>
    movedBy_moveTo hnd hsmall (hvs v hv)

/-! ### The copy -/

namespace Heap

/-- What a heap holds again after the kept objects have moved: at their new places they cut its
words. -/
lemma Relocated.partitions {L : Layout} {cs : List ClassId} {h h' : Heap} {kept : List Object}
    (hrel : h.Relocated L cs h' kept) :
    L.Partitions h'.top (kept.map fun t => (newPlace L kept t.1, t.2)) := by
  have hlaid := Layout.partitions_objects hrel.sound.pos
  rw [← hrel.sound.top] at hlaid
  refine hlaid.of_mem_iff fun t => ⟨fun ht => ?_, fun ht => ?_⟩
  · obtain ⟨u, hu, rfl⟩ := List.mem_map.mp ht
    exact mem_objects_newPlace hrel.once hu
  · obtain ⟨u, hu, rfl⟩ := exists_of_mem_objects_map hrel.once ht
    exact List.mem_map.mpr ⟨u, hu, rfl⟩

/-- The heap `h'` holds a copy of what values reach in the heap `h`, and nothing else. Objects have
new places, different ones for different objects, and their fields are what they were, moved to
the new places. The objects reached cut the words in use, so each of them has been copied once. -/
structure Copies (L : Layout) (h h' : Heap) (roots : List Value) (place : Nat → Nat) : Prop where
  injective : Set.InjOn place {o | ∃ c, h.front.Reaches L roots (o, c)}
  fields : ∀ t, h.front.Reaches L roots t → ∀ i < L t.2,
    (h.front.cell (t.1 + i)).MovedBy L place (h'.front.cell (place t.1 + i))
  tiles : ∃ kept : List Object, kept.Nodup ∧ (∀ t, t ∈ kept ↔ h.front.Reaches L roots t) ∧
    L.Partitions h'.top (kept.map fun t => (place t.1, t.2)) ∧
    h'.top = (kept.map fun t => L t.2).sum

lemma Sound.exists_copies {L : Layout} {cs : List ClassId} {h : Heap} (hs : h.Sound L cs)
    {ρ : Type} {R : Roots ρ} {holder : ρ} {pending : List Value}
    (hroots : ∀ v ∈ R.get holder ++ pending, v.Within L (L.objects cs)) :
    ∃ (place : Nat → Nat) (h' : Heap) (roots' pending' : List Value),
      collectWith L R pending (h, holder) = .ok pending' (h', R.set holder roots') ∧
      h.Copies L h' (R.get holder ++ pending) place ∧
      List.Forall₂ (Value.MovedBy L place) (R.get holder) roots' ∧
      List.Forall₂ (Value.MovedBy L place) pending pending' := by
  obtain ⟨kept, h', hcollect, hrel, -, -, hreaches, hall⟩ := collectWith_marked hs
    (fun v hv => hroots v (List.mem_append_left _ hv))
    fun v hv => hroots v (List.mem_append_right _ hv)
  have hsmall := hrel.total_le
  have hfields : ∀ t ∈ kept, 0 < L t.2 := fun t ht =>
    hs.pos _ (Layout.class_mem_of_mem_objectsFrom (hrel.objects t ht))
  refine ⟨newPlace L kept, h', _, _, hcollect, ⟨?_, fun t ht i hi => ?_, kept, ?_⟩,
    Value.forall₂_movedBy hrel.once hsmall fun v hv => hall v (List.mem_append_left _ hv),
    Value.forall₂_movedBy hrel.once hsmall fun v hv => hall v (List.mem_append_right _ hv)⟩
  · rintro o ⟨c, ho⟩ o' ⟨c', ho'⟩ heq
    exact newPlace_inj hfields ((hreaches _).mpr ho) ((hreaches _).mpr ho') heq
  · have htk := (hreaches t).mpr ht
    rw [hrel.words t htk i hi]
    exact Value.movedBy_moveTo hrel.once hsmall (hrel.closed t htk i hi)
  · refine ⟨List.Nodup.of_map _ hrel.once, hreaches, hrel.partitions, ?_⟩
    rw [hrel.sound.top, Layout.total, List.map_map]
    rfl

/-- **A collection copies what the roots reach.** Let the words in use be cut into objects, each
word holding an inline value or naming one of the objects, and none of them the marker. From roots
and pending values that are inline or name objects, a collection succeeds, leaves a copy of what
these reach, and gives the roots and the pending values their new places. -/
theorem collection_copies_reachable {L : Layout} {h : Heap} {objects : List Object}
    (hparts : L.Partitions h.top objects) (hroom : h.top ≤ h.front.size)
    (htwin : h.back.size = h.front.size) (hsmall : h.front.size ≤ 2 ^ 32)
    (hwords : ∀ i < h.top,
      (h.front.cell i).tag ≠ .forwarded ∧ (h.front.cell i).Within L objects)
    {ρ : Type} {R : Roots ρ} {holder : ρ} {pending : List Value}
    (hroots : ∀ v ∈ R.get holder ++ pending, v.Within L objects) :
    ∃ (place : Nat → Nat) (h' : Heap) (roots' pending' : List Value),
      collectWith L R pending (h, holder) = .ok pending' (h', R.set holder roots') ∧
      h.Copies L h' (R.get holder ++ pending) place ∧
      List.Forall₂ (Value.MovedBy L place) (R.get holder) roots' ∧
      List.Forall₂ (Value.MovedBy L place) pending pending' := by
  obtain ⟨cs, hpos, htotal, hmem⟩ := hparts.exists_classes
  have hwithin : ∀ {v : Value}, v.Within L objects → v.Within L (L.objects cs) := fun hv hfields =>
    (hmem _).mpr (hv hfields)
  have hs : h.Sound L cs :=
    { pos := hpos
      top := htotal.symm
      room := hroom
      twin := htwin
      small := hsmall
      words := fun i hi => ⟨(hwords i hi).1, hwithin (hwords i hi).2⟩ }
  exact hs.exists_copies fun v hv => hwithin (hroots v hv)

/-- Objects of two words, and everything else inline. -/
def pairLayout : Layout := fun c => if c = ⟨1⟩ then 2 else 0

/-- A heap of three pairs: one that names itself, and two that name each other, the first of them
the second one twice. -/
def threePairs : Heap where
  front := #[⟨⟨1⟩, 0⟩, ⟨⟨0⟩, 5⟩, ⟨⟨1⟩, 4⟩, ⟨⟨1⟩, 4⟩, ⟨⟨1⟩, 2⟩, ⟨⟨0⟩, 9⟩, .nil]
  back := Cells.fresh 7
  top := 6
  stats := {}

lemma partitions_threePairs :
    pairLayout.Partitions threePairs.top [(0, ⟨1⟩), (2, ⟨1⟩), (4, ⟨1⟩)] :=
  Layout.partitions_objects
    (show ∀ c ∈ ([⟨1⟩, ⟨1⟩, ⟨1⟩] : List ClassId), 0 < pairLayout c by decide)

/-- Two pairs that name each other are reached from both a root and a pending value, and are
copied once; the third pair is left behind. -/
theorem collection_copies_reachable_cycle :
    pairLayout.Partitions threePairs.top [(0, ⟨1⟩), (2, ⟨1⟩), (4, ⟨1⟩)] ∧
    ∃ (place : Nat → Nat) (h' : Heap),
      collectWith pairLayout .list [⟨⟨1⟩, 2⟩] (threePairs, [⟨⟨1⟩, 4⟩, ⟨⟨0⟩, 7⟩]) =
        .ok [⟨⟨1⟩, 2⟩] (h', [⟨⟨1⟩, 0⟩, ⟨⟨0⟩, 7⟩]) ∧
      threePairs.Copies pairLayout h' [⟨⟨1⟩, 4⟩, ⟨⟨0⟩, 7⟩, ⟨⟨1⟩, 2⟩] place ∧ h'.top = 4 := by
  have hwords : ∀ i < threePairs.top, (threePairs.front.cell i).tag ≠ .forwarded ∧
      (0 < pairLayout (threePairs.front.cell i).tag →
        (threePairs.front.cell i).object ∈ ([(0, ⟨1⟩), (2, ⟨1⟩), (4, ⟨1⟩)] : List Object)) := by
    decide
  have hroots : ∀ v ∈ Roots.list.get [⟨⟨1⟩, 4⟩, ⟨⟨0⟩, 7⟩] ++ [⟨⟨1⟩, 2⟩], 0 < pairLayout v.tag →
      v.object ∈ ([(0, ⟨1⟩), (2, ⟨1⟩), (4, ⟨1⟩)] : List Object) := by
    decide
  obtain ⟨place, h', roots', pending', hcollect, hcopies, -, -⟩ :=
    collection_copies_reachable partitions_threePairs (by decide) (by decide) (by decide) hwords
      hroots
  have hrun : collectWith pairLayout .list [⟨⟨1⟩, 2⟩] (threePairs, [⟨⟨1⟩, 4⟩, ⟨⟨0⟩, 7⟩]) =
      .ok [⟨⟨1⟩, 2⟩] (⟨#[⟨⟨1⟩, 2⟩, ⟨⟨0⟩, 9⟩, ⟨⟨1⟩, 0⟩, ⟨⟨1⟩, 0⟩, .nil, .nil, .nil], _, 4, _⟩,
        [⟨⟨1⟩, 0⟩, ⟨⟨0⟩, 7⟩]) := rfl
  cases hcollect.symm.trans hrun
  exact ⟨partitions_threePairs, place, _, hrun, hcopies, rfl⟩

end Heap

end EffectMachine
