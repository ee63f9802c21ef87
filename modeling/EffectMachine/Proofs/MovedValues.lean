/-
What operations that may collect leave behind.

An allocation may collect, and a collection moves objects, whether or not the
allocation succeeds in the end. What can be relied on afterwards is the same in
all cases.

* `Heap.Leaves`: the heap is sound again, what the roots and the pending values
  reach is kept, and the roots have moved with it;
* `Heap.Sound.collectWith_leaves`, `Heap.Sound.alloc_leaves`: **a collection and
  an allocation leave this**, the latter also when it is refused;
* `Heap.Moved`, `Heap.Moved.trans`: what is kept twice is kept;
* `Image.Valid`, `Image.alloc_leaves`, `Image.collect_leaves`: the same for
  images, whose globals are roots too.
-/
import EffectMachine.Proofs.Allocation
import EffectMachine.Proofs.CollectionBounds
import EffectMachine.Proofs.ImageGraph
import EffectMachine.Proofs.SoundMachines

namespace EffectMachine

/-! ### Moved values -/

namespace Value.MovedBy

variable {L : Layout} {place place' : Nat → Nat} {u v w : Value}

/-- A value that names an object names it at its new place. -/
lemma object_eq (h : v.MovedBy L place w) (hpos : 0 < L v.tag) :
    w.object = (place v.offset, v.tag) :=
  Prod.ext (h.offset hpos) h.tag

lemma trans (h : u.MovedBy L place v) (h' : v.MovedBy L place' w) :
    u.MovedBy L (place' ∘ place) w where
  tag := h'.tag.trans h.tag
  inline hu := by
    obtain rfl := h.inline hu
    exact h'.inline hu
  offset hu := by
    rw [h'.offset (by rwa [h.tag]), h.offset hu, Function.comp]

end Value.MovedBy

/-- Two lists of moved values after each other. -/
lemma forall₂_movedBy_trans {L : Layout} {place place' : Nat → Nat} {us vs ws : List Value}
    (h : List.Forall₂ (Value.MovedBy L place) us vs)
    (h' : List.Forall₂ (Value.MovedBy L place') vs ws) :
    List.Forall₂ (Value.MovedBy L (place' ∘ place)) us ws := by
  induction h generalizing ws with
  | nil =>
    cases h'
    exact .nil
  | cons hd _ ih =>
    cases h' with
    | cons hd' tl' => exact .cons (hd.trans hd') (ih tl')

lemma forall₂_movedBy_id (L : Layout) (vs : List Value) :
    List.Forall₂ (Value.MovedBy L id) vs vs :=
  List.forall₂_same.mpr fun v _ => v.movedBy_id L

lemma Cells.Reaches.mono {L : Layout} {s : Cells} {us vs : List Value} (hsub : us ⊆ vs)
    {t : Object} (ht : s.Reaches L us t) : s.Reaches L vs t := by
  induction ht with
  | root hv hpos => exact .root (hsub hv) hpos
  | field _ hi hpos ih => exact .field ih hi hpos

namespace Heap

variable {L : Layout} {cs cs' : List ClassId} {h h' h'' : Heap} {us vs vs' vs'' : List Value}
  {place place' : Nat → Nat}

lemma Keeps.mono (hk : h.Keeps L h' vs place) (hsub : us ⊆ vs) : h.Keeps L h' us place where
  injective := by
    refine hk.injective.mono ?_
    rintro o ⟨c, hc⟩
    exact ⟨c, hc.mono hsub⟩
  within t ht := hk.within t (ht.mono hsub)
  fields t ht := hk.fields t (ht.mono hsub)

/-- What values reach in the heap `h` is kept in the heap `h'`, and the second
list has the values as they are there. -/
structure Moved (L : Layout) (h h' : Heap) (vs vs' : List Value) (place : Nat → Nat) : Prop where
  keeps : h.Keeps L h' vs place
  values : List.Forall₂ (Value.MovedBy L place) vs vs'

namespace Moved

/-- What is reached is reached from the moved values, at its new place. -/
lemma reaches (hm : h.Moved L h' vs vs' place) {t : Object} (ht : h.front.Reaches L vs t) :
    h'.front.Reaches L vs' (place t.1, t.2) := by
  induction ht with
  | @root v hv hpos =>
    obtain ⟨i, hi, rfl⟩ := List.mem_iff_getElem.mp hv
    have hi' : i < vs'.length := hm.values.length_eq ▸ hi
    have hmoved : vs[i].MovedBy L place vs'[i] := (List.forall₂_iff_get.mp hm.values).2 i hi hi'
    have hroot := Cells.Reaches.root (s := h'.front) (List.getElem_mem hi')
      (by rwa [hmoved.tag] : 0 < L vs'[i].tag)
    rwa [hmoved.object_eq hpos] at hroot
  | @field t i ht hi hpos ih =>
    have hmoved := hm.keeps.fields t ht i hi
    have hfield := ih.field hi (by rwa [hmoved.tag])
    rwa [hmoved.object_eq hpos] at hfield

lemma trans (hm : h.Moved L h' vs vs' place) (hm' : h'.Moved L h'' vs' vs'' place') :
    h.Moved L h'' vs vs'' (place' ∘ place) where
  keeps :=
    { injective := by
        refine hm'.keeps.injective.comp hm.keeps.injective ?_
        rintro o ⟨c, hc⟩
        exact ⟨c, hm.reaches hc⟩
      within := fun _ ht => hm'.keeps.within _ (hm.reaches ht)
      fields := fun t ht i hi =>
        (hm.keeps.fields t ht i hi).trans (hm'.keeps.fields _ (hm.reaches ht) i hi) }
  values := forall₂_movedBy_trans hm.values hm'.values

end Moved

/-! ### Operations on the heap -/

variable {ρ : Type} {R : Roots ρ} {holder holder' : ρ} {pending fields : List Value}
  {cls : ClassId}

/-- What an operation that may collect leaves: a sound heap, with objects of the
classes `cs'`, that keeps what the roots and the pending values reach; and a
holder of the roots as they are there. -/
structure Leaves (L : Layout) (R : Roots ρ) (pending : List Value) (s s' : Rooted ρ)
    (cs' : List ClassId) (place : Nat → Nat) : Prop where
  sound : s'.1.Sound L cs'
  keeps : s.1.Keeps L s'.1 (R.get s.2 ++ pending) place
  moved : List.Forall₂ (Value.MovedBy L place) (R.get s.2) (R.get s'.2)
  roots : ∀ v ∈ R.get s'.2, v.Sound L cs'

lemma Sound.leaves_self (hs : h.Sound L cs) (hvs : ∀ v ∈ R.get holder ++ pending, v.Sound L cs) :
    Leaves L R pending (h, holder) (h, holder) cs id where
  sound := hs
  keeps := hs.keeps fun v hv => (hvs v hv).names
  moved := forall₂_movedBy_id L _
  roots v hv := hvs v (List.mem_append_left _ hv)

/-- An object placed behind the others leaves them alone. -/
lemma Leaves.bump {s : Rooted ρ} (hl : Leaves L R pending s (h', holder') cs' place)
    (hfields : ∀ v ∈ fields, v.Sound L cs') (hlen : fields.length = L cls)
    (hpos : 0 < fields.length) (hroom : fields.length ≤ h'.available) :
    Leaves L R pending s ((h'.bump cls fields).2, holder') (cs' ++ [cls]) place where
  sound := hl.sound.bump hfields hlen hpos hroom
  keeps := (hl.keeps.bump hl.sound.room hroom : s.1.Keeps L (h'.bump cls fields).2 _ place)
  moved := hl.moved
  roots v hv := (hl.roots v hv).append _

/-- **A collection** of a sound heap succeeds and keeps what is reached. -/
lemma Sound.collectWith_leaves (hs : h.Sound L cs)
    (hvs : ∀ v ∈ R.get holder ++ pending, v.Sound L cs) :
    ∃ pending' s' cs' place, collectWith L R pending (h, holder) = .ok pending' s' ∧
      Leaves L R pending (h, holder) s' cs' place ∧
      List.Forall₂ (Value.MovedBy L place) pending pending' ∧ ∀ v ∈ pending', v.Sound L cs' := by
  obtain ⟨place, h₁, roots₁, pending₁, hcollect, hcopies, hroots, hpending⟩ :=
    hs.exists_copies fun v hv => (hvs v hv).names
  obtain ⟨kept, h₂, hcollect', hrel, -, -, -, hall⟩ := collectWith_marked hs
    (fun v hv => (hvs v (List.mem_append_left _ hv)).names)
    fun v hv => (hvs v (List.mem_append_right _ hv)).names
  -- The two descriptions are of one collection: the first of what is kept, the second of where.
  obtain ⟨hvalue, hstate⟩ := EStateM.Result.ok.inj (hcollect.symm.trans hcollect')
  obtain ⟨rfl, hholder⟩ := Prod.mk.inj hstate
  have hsmall := hrel.total_le
  have hsound : ∀ v ∈ R.get holder ++ pending,
      (v.moveTo L (newPlace L kept)).Sound L (kept.map Prod.snd) := fun v hv =>
    Value.sound_moveTo hrel.once hsmall (hvs v hv).ordinary (hall v hv)
  have hget : R.get (R.set holder roots₁) = roots₁ := R.get_set _ _ hroots.length_eq.symm
  have hget' : R.get (R.set holder roots₁) =
      (R.get holder).map (·.moveTo L (newPlace L kept)) := by
    rw [hholder, R.get_set _ _ (List.length_map _)]
  refine ⟨pending₁, _, _, place, hcollect, ⟨hrel.sound, hcopies.keeps, ?_, ?_⟩, hpending, ?_⟩
  · rwa [hget]
  · intro v hv
    rw [hget'] at hv
    obtain ⟨u, hu, rfl⟩ := List.mem_map.mp hv
    exact hsound u (List.mem_append_left _ hu)
  · intro v hv
    rw [hvalue] at hv
    obtain ⟨u, hu, rfl⟩ := List.mem_map.mp hv
    exact hsound u (List.mem_append_right _ hu)

/-- The new object of an allocation is one of the heap, and holds its fields as
they have moved. -/
structure Stored (L : Layout) (cls : ClassId) (fields : List Value) (v : Value) (h' : Heap)
    (cs' : List ClassId) (place : Nat → Nat) : Prop where
  tag : v.tag = cls
  sound : cls ≠ .forwarded → v.Sound L cs'
  fields : ∃ fields', List.Forall₂ (Value.MovedBy L place) fields fields' ∧
    h'.fields v fields.length = .ok fields'

/-- An object that has been placed is stored. -/
lemma Sound.stored_bump {fields' : List Value} (hs : h'.Sound L cs')
    (hmoved : List.Forall₂ (Value.MovedBy L place) fields fields')
    (hlen : fields'.length = L cls) (hpos : 0 < fields'.length)
    (hroom : fields'.length ≤ h'.available) :
    Stored L cls fields (h'.bump cls fields').1 (h'.bump cls fields').2 (cs' ++ [cls]) place where
  tag := rfl
  sound hcls := (hs.bump_new hcls hlen hpos hroom).1
  fields := by
    refine ⟨fields', hmoved, ?_⟩
    rw [hmoved.length_eq]
    exact fields_bump hs.room hs.small hpos hroom

/-- **An allocation** in a sound heap keeps what is reached, also if it is
refused; and if it is not, the new object is stored. -/
lemma Sound.alloc_leaves (hs : h.Sound L cs)
    (hvs : ∀ v ∈ R.get holder ++ fields, v.Sound L cs) (hlen : fields.length = L cls) :
    ∃ cs' place, Leaves L R fields (h, holder)
        (Fault.left (alloc L R cls fields (h, holder))) cs' place ∧
      ∀ x s', alloc L R cls fields (h, holder) = .ok x s' →
        Stored L cls fields x.1 s'.1 cs' place := by
  by_cases hzero : fields.length = 0
  · rw [alloc_of_length_zero hzero]
    refine ⟨cs, id, hs.leaves_self hvs, ?_⟩
    rintro x s' ⟨⟩
    refine ⟨rfl, fun hcls => .inline hcls (hlen ▸ hzero), fields, forall₂_movedBy_id L _, ?_⟩
    rw [Heap.fields, if_pos hzero, List.length_eq_zero_iff.mp hzero]
  have hpos : 0 < fields.length := Nat.pos_of_ne_zero hzero
  by_cases hroom : fields.length ≤ h.available
  · rw [alloc_of_room hpos hroom]
    refine ⟨cs ++ [cls], id, (hs.leaves_self hvs).bump
      (fun v hv => hvs v (List.mem_append_right _ hv)) hlen hpos hroom, ?_⟩
    rintro x s' ⟨⟩
    exact hs.stored_bump (forall₂_movedBy_id L _) hlen hpos hroom
  obtain ⟨fields', ⟨h', holder'⟩, cs', place, hcollect, hl, hmoved, hsound⟩ :=
    hs.collectWith_leaves hvs
  have hlength : fields.length = fields'.length := hmoved.length_eq
  rw [alloc_of_collectWith hpos hroom hcollect]
  by_cases hfits : fields.length ≤ h'.available
  · rw [if_pos hfits]
    rw [hlength] at hlen hpos hfits
    refine ⟨cs' ++ [cls], place, hl.bump hsound hlen hpos hfits, ?_⟩
    rintro x s' ⟨⟩
    exact hl.sound.stored_bump hmoved hlen hpos hfits
  · rw [if_neg hfits]
    refine ⟨cs', place, hl, ?_⟩
    rintro x s' ⟨⟩

end Heap

/-! ### Operations on images -/

namespace Image

variable {P : Program} {ρ : Type} {R : Roots ρ} {p p' : Image} {holder holder' : ρ}
  {us vs fields : List Value} {cls : ClassId}

lemma field_eq_ok {v w : Value} {i : Nat} :
    p.field P v i = .ok w ↔
      i < P.fieldCount v.tag ∧ v.offset + i < p.heap.top ∧
        w = p.heap.front.cell (v.offset + i) := by
  rw [field, checkField, Heap.field, Heap.slot]
  by_cases hi : i < P.fieldCount v.tag
  · by_cases hend : v.offset + i < p.heap.top
    · simp [hi, hend, bind, Except.bind, eq_comm]
    · simp [hi, hend, bind, Except.bind]
  · simp [hi, bind, Except.bind]

/-- Setting a field changes one word, or nothing. -/
lemma left_setField (P : Program) (v : Value) (i : Nat) (w : Value) (p : Image) :
    Fault.left (setField P v i w p) = p ∨
      i < P.fieldCount v.tag ∧
        Fault.left (setField P v i w p) = { p with heap := p.heap.write (v.offset + i) w } := by
  obtain ⟨globals, heap, journal⟩ := p
  by_cases hi : i < P.fieldCount v.tag
  · simp only [setField, checkField, if_pos hi, Action.ofExcept, bind, EStateM.bind, onHeap,
      Heap.setField, Heap.slot]
    by_cases hend : v.offset + i < heap.top
    · rw [if_pos hend]
      exact .inr ⟨hi, rfl⟩
    · rw [if_neg hend]
      exact .inl rfl
  · simp only [setField, checkField, if_neg hi, Action.ofExcept, bind, EStateM.bind]
    exact .inl rfl

/-- The words in use are objects whose fields are inline or name one of them,
and so are the globals and the given values; none of them is the marker of a
collection. -/
def Valid (P : Program) (p : Image) (vs : List Value) : Prop :=
  ∃ cs, p.heap.Sound P.fieldCount cs ∧
    ∀ v ∈ p.globals.toList ++ vs, v.Sound P.fieldCount cs

lemma Valid.mono (hv : p.Valid P vs) (hsub : us ⊆ vs) : p.Valid P us := by
  obtain ⟨cs, hs, hvs⟩ := hv
  refine ⟨cs, hs, fun v hv => hvs v ?_⟩
  rcases List.mem_append.mp hv with hv | hv
  · exact List.mem_append_left _ hv
  · exact List.mem_append_right _ (hsub hv)

lemma Valid.append_inline (hv : p.Valid P vs)
    (hus : ∀ u ∈ us, u.tag ≠ .forwarded ∧ P.fieldCount u.tag = 0) : p.Valid P (vs ++ us) := by
  obtain ⟨cs, hs, hvs⟩ := hv
  refine ⟨cs, hs, fun v hv => ?_⟩
  rw [← List.append_assoc] at hv
  rcases List.mem_append.mp hv with hv | hv
  · exact hvs v hv
  · exact .inline (hus v hv).1 (hus v hv).2

lemma Valid.room (hv : p.Valid P vs) : p.heap.top ≤ p.heap.front.size := by
  obtain ⟨cs, hs, -⟩ := hv
  exact hs.room

/-- What is read is valid beside what was. -/
lemma Valid.field (hv : p.Valid P vs) {v w : Value} {i : Nat}
    (hfield : p.field P v i = .ok w) : p.Valid P (vs ++ [w]) := by
  obtain ⟨cs, hs, hvs⟩ := hv
  refine ⟨cs, hs, fun u hu => ?_⟩
  rw [← List.append_assoc] at hu
  rcases List.mem_append.mp hu with hu | hu
  · exact hvs u hu
  · obtain ⟨-, hend, rfl⟩ := field_eq_ok.mp hfield
    rw [List.mem_singleton.mp hu]
    exact hs.words _ hend

lemma Valid.apart (hv : p.Valid P vs) {u w : Value} (hu : u ∈ vs) (hw : w ∈ vs) (hne : u ≠ w)
    {i j : Nat} (hi : i < P.fieldCount u.tag) (hj : j < P.fieldCount w.tag) :
    u.offset + i ≠ w.offset + j := by
  obtain ⟨cs, -, hvs⟩ := hv
  have hobject : ∀ {x : Value} {k : Nat}, x ∈ vs → k < P.fieldCount x.tag →
      x.object ∈ Layout.objects P.fieldCount cs := fun hx hk =>
    (hvs _ (List.mem_append_right _ hx)).names (Nat.zero_lt_of_lt hk)
  rcases Layout.eq_or_apart (hobject hu hi) (hobject hw hj) with heq | hend | hend
  · exact absurd (Value.eq_of_object_eq heq) hne
  · have hend' : u.offset + P.fieldCount u.tag ≤ w.offset := hend
    omega
  · have hend' : w.offset + P.fieldCount w.tag ≤ u.offset := hend
    omega

/-- What an operation that may collect leaves of an image and a holder of
roots: all is valid again, what the globals, the roots and the pending values
reach is kept, and the globals and the roots have moved with it. -/
structure Leaves (P : Program) (R : Roots ρ) (pending : List Value) (s s' : Rooted ρ)
    (place : Nat → Nat) : Prop where
  valid : s'.1.Valid P (R.get s'.2)
  keeps : s.1.heap.Keeps P.fieldCount s'.1.heap
    (s.1.globals.toList ++ R.get s.2 ++ pending) place
  moved : List.Forall₂ (Value.MovedBy P.fieldCount place) (s.1.globals.toList ++ R.get s.2)
    (s'.1.globals.toList ++ R.get s'.2)

/-- What the heap is left with is what the image is left with. -/
lemma Leaves.of_tracing {α : Type} {act : Action (Heap.Rooted (Array Value × ρ)) α}
    {pending : List Value} {cs' : List ClassId} {place : Nat → Nat}
    (hl : Heap.Leaves P.fieldCount (Roots.array.pair R) pending (p.heap, (p.globals, holder))
      (Fault.left (act (p.heap, (p.globals, holder)))) cs' place) :
    Leaves P R pending (p, holder) (Fault.left (tracing act (p, holder))) place := by
  obtain ⟨globals, heap, journal⟩ := p
  dsimp only at hl
  rw [tracing]
  cases hact : act (heap, (globals, holder)) with
  | ok a s =>
    rw [hact] at hl
    exact ⟨⟨cs', hl.sound, hl.roots⟩, hl.keeps, hl.moved⟩
  | error e s =>
    rw [hact] at hl
    exact ⟨⟨cs', hl.sound, hl.roots⟩, hl.keeps, hl.moved⟩

lemma Valid.leaves_self {pending : List Value} (hv : p.Valid P (R.get holder ++ pending)) :
    Leaves P R pending (p, holder) (p, holder) id := by
  have hroots : p.Valid P (R.get holder) := hv.mono (List.subset_append_left _ _)
  obtain ⟨cs, hs, hvs⟩ := hv
  rw [← List.append_assoc] at hvs
  exact ⟨hroots, hs.keeps fun v hv => (hvs v hv).names, forall₂_movedBy_id _ _⟩

/-- **A collection** succeeds and keeps what is reached. -/
lemma collect_leaves (hv : p.Valid P (R.get holder)) :
    ∃ place, Leaves P R [] (p, holder) (Fault.left (collect P R (p, holder))) place := by
  obtain ⟨cs, hs, hvs⟩ := hv
  have hvs' : ∀ v ∈ (Roots.array.pair R).get (p.globals, holder) ++ [],
      v.Sound P.fieldCount cs := by
    rw [List.append_nil]
    exact hvs
  obtain ⟨pending', s', cs', place, hcollect, hl, -, -⟩ := hs.collectWith_leaves hvs'
  have hleft : Heap.Leaves P.fieldCount (Roots.array.pair R) [] (p.heap, (p.globals, holder))
      (Fault.left (Heap.collect P.fieldCount (Roots.array.pair R) (p.heap, (p.globals, holder))))
      cs' place := by
    rw [Heap.left_collect, hcollect]
    exact hl
  exact ⟨place, .of_tracing hleft⟩

/-- **An allocation** keeps what is reached, also if it is refused; and if it is
not, the new object is valid beside the roots and holds its fields as they have
moved. -/
lemma alloc_leaves (hv : p.Valid P (R.get holder ++ fields)) (cls : ClassId) :
    ∃ place, Leaves P R fields (p, holder)
        (Fault.left (alloc P R cls fields (p, holder))) place ∧
      ∀ v s', alloc P R cls fields (p, holder) = .ok v s' →
        fields.length = P.fieldCount cls ∧ v.tag = cls ∧
        (cls ≠ .forwarded → s'.1.Valid P (R.get s'.2 ++ [v])) ∧
        ∃ fields', List.Forall₂ (Value.MovedBy P.fieldCount place) fields fields' ∧
          s'.1.heap.fields v fields.length = .ok fields' := by
  by_cases hlen : fields.length = P.fieldCount cls
  · obtain ⟨cs, hs, hvs⟩ := hv
    rw [← List.append_assoc] at hvs
    have hvs' : ∀ v ∈ (Roots.array.pair R).get (p.globals, holder) ++ fields,
        v.Sound P.fieldCount cs := hvs
    obtain ⟨cs', place, hl, hstored⟩ := hs.alloc_leaves hvs' hlen
    refine ⟨place, ?_⟩
    rw [alloc, if_pos hlen]
    simp only [bind, EStateM.bind, tracing]
    cases hact : Heap.alloc P.fieldCount (Roots.array.pair R) cls fields
      (p.heap, (p.globals, holder)) with
    | ok x s =>
      obtain ⟨h', globals', holder'⟩ := s
      rw [hact] at hl
      refine ⟨⟨⟨cs', hl.sound, hl.roots⟩, hl.keeps, hl.moved⟩, ?_⟩
      rintro v s' ⟨⟩
      have hnew := hstored _ _ hact
      refine ⟨hlen, hnew.tag, fun hcls => ⟨cs', hl.sound, fun u hu => ?_⟩, hnew.fields⟩
      rw [← List.append_assoc] at hu
      rcases List.mem_append.mp hu with hu | hu
      · exact hl.roots u hu
      · rw [List.mem_singleton.mp hu]
        exact hnew.sound hcls
    | error e s =>
      obtain ⟨h', globals', holder'⟩ := s
      rw [hact] at hl
      refine ⟨⟨⟨cs', hl.sound, hl.roots⟩, hl.keeps, hl.moved⟩, ?_⟩
      rintro v s' ⟨⟩
  · rw [alloc_of_length_ne hlen]
    refine ⟨id, hv.leaves_self, ?_⟩
    rintro v s' ⟨⟩

end Image

end EffectMachine
