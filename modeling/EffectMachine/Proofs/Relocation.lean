/-
Where collections put values.

A collection leaves a marker with the new place where an object was. So the space that it
has copied from says, of every value that it has met, where that has gone.

* `Cells.forwarded?`, `Heap.moved?`: where a value has gone, by the markers;
* `Collection.Progress`: no step of a collection takes a marker away;
* `Heap.alloc_moved?`, `Machine.alloc_moved?`: **the roots of an allocation go where the
  markers say**, whatever they name.
-/
import EffectMachine.Proofs.Collecting
import EffectMachine.Proofs.EffectOperations

namespace EffectMachine

/-- Where a value has gone from cells that have been copied from: an object has gone to the
place that its marker names. -/
def Cells.forwarded? (L : Layout) (s : Cells) (v : Value) : Option Value :=
  if L v.tag = 0 then some v
  else if (s.cell v.offset).tag = .forwarded then some ⟨v.tag, (s.cell v.offset).data⟩
  else none

/-- Where a value of a heap is in a later one, if there has been at most one collection
since. -/
def Heap.moved? (L : Layout) (h h' : Heap) (v : Value) : Option Value :=
  if h'.stats.collections = h.stats.collections then some v else h'.back.forwarded? L v

namespace Cells

variable {L : Layout} {s : Cells} {v w : Value}

lemma forwarded?_of_inline (h : L v.tag = 0) (s : Cells) : s.forwarded? L v = some v := if_pos h

lemma forwarded?_of_marked (h : L v.tag ≠ 0) (hmark : (s.cell v.offset).tag = .forwarded) :
    s.forwarded? L v = some ⟨v.tag, (s.cell v.offset).data⟩ := by
  rw [forwarded?, if_neg h, if_pos hmark]

lemma marked_of_forwarded? (h : s.forwarded? L v = some w) (hv : L v.tag ≠ 0) :
    (s.cell v.offset).tag = .forwarded := by
  rw [forwarded?, if_neg hv] at h
  by_contra hmark
  rw [if_neg hmark] at h
  cases h

end Cells

namespace Collection

variable {L : Layout} {c c' c'' : Collection} {v w : Value}

/-- A collection has gone on, and its markers are still there. -/
structure Progress (L : Layout) (c c' : Collection) : Prop where
  limit : c'.limit = c.limit
  source : c'.source.size = c.source.size
  target : c'.target.size = c.target.size
  top : c.top ≤ c.target.size → c'.top ≤ c'.target.size
  marks : ∀ u w, c.source.forwarded? L u = some w → c'.source.forwarded? L u = some w

namespace Progress

lemma refl (L : Layout) (c : Collection) : Progress L c c :=
  ⟨rfl, rfl, rfl, id, fun _ _ h => h⟩

lemma trans (h : Progress L c c') (h' : Progress L c' c'') : Progress L c c'' :=
  ⟨h'.limit.trans h.limit, h'.source.trans h.source, h'.target.trans h.target,
    fun ht => h'.top (h.top ht), fun u w hu => h'.marks u w (h.marks u w hu)⟩

end Progress

/-- Moving an object that has no marker yet. -/
lemma progress_move {offset size : Nat} (hnew : (c.source.cell offset).tag ≠ .forwarded)
    (hroom : c.top + size ≤ c.target.size) : Progress L c (c.move offset size) where
  limit := rfl
  source := by rw [source_move, Array.size_setIfInBounds]
  target := by rw [target_move, Cells.size_copyFrom]
  top _ := by rwa [top_move, target_move, Cells.size_copyFrom]
  marks u w hu := by
    by_cases hinline : L u.tag = 0
    · rwa [Cells.forwarded?_of_inline hinline] at hu ⊢
    · have hmark := Cells.marked_of_forwarded? hu hinline
      have hne : offset ≠ u.offset := fun heq => hnew (heq ▸ hmark)
      have hcell : (c.move offset size).source.cell u.offset = c.source.cell u.offset := by
        rw [source_move, Cells.cell_setIfInBounds, if_neg fun h => hne h.1]
      rw [Cells.forwarded?, if_neg hinline, hcell]
      rwa [Cells.forwarded?, if_neg hinline] at hu

lemma forward_progress (h : forward L v c = .ok w c') :
    Progress L c c' ∧ (c.limit ≤ c.source.size → c'.source.forwarded? L v = some w) := by
  rw [forward] at h
  dsimp only at h
  split at h
  · rename_i hinline
    cases h
    exact ⟨.refl L _, fun _ => Cells.forwarded?_of_inline hinline _⟩
  · rename_i hinline
    split at h
    · cases h
    · rename_i hlimit
      split at h
      · rename_i hmark
        cases h
        exact ⟨.refl L _, fun _ => Cells.forwarded?_of_marked hinline hmark⟩
      · rename_i hnew
        split at h
        · cases h
        · rename_i hroom
          cases h
          refine ⟨progress_move hnew (by omega), fun hsize => ?_⟩
          have hcell : (c.move v.offset (L v.tag)).source.cell v.offset =
              ⟨.forwarded, UInt32.ofNat c.top⟩ := by
            rw [source_move, Cells.cell_setIfInBounds, if_pos ⟨rfl, by omega⟩]
          rw [Cells.forwarded?_of_marked hinline (by rw [hcell]), hcell]

lemma forwardFrom_progress {vs moved ws : List Value}
    (h : forwardFrom L moved vs c = .ok () (c', ws)) :
    Progress L c c' ∧ (c.limit ≤ c.source.size → ∃ us, ws = moved.reverse ++ us ∧
      List.Forall₂ (fun v w => c'.source.forwarded? L v = some w) vs us) := by
  induction vs generalizing moved c with
  | nil =>
      cases h
      exact ⟨.refl L _, fun _ => ⟨[], (List.append_nil _).symm, .nil⟩⟩
  | cons v vs ih =>
      rw [forwardFrom] at h
      split at h
      · rename_i w c₁ hforward
        obtain ⟨hprogress, hmark⟩ := forward_progress hforward
        obtain ⟨hprogress', hrest⟩ := ih h
        refine ⟨hprogress.trans hprogress', fun hsize => ?_⟩
        obtain ⟨us, rfl, hus⟩ := hrest (by rwa [hprogress.limit, hprogress.source])
        refine ⟨w :: us, ?_, .cons (hprogress'.marks v w (hmark hsize)) hus⟩
        rw [List.reverse_cons, List.append_assoc, List.singleton_append]
      · cases h

lemma scanFrom_progress {fuel cursor : Nat} (h : scanFrom L fuel cursor c = .ok () c') :
    Progress L c c' := by
  induction fuel generalizing cursor c with
  | zero =>
      cases h
      exact .refl L _
  | succ fuel ih =>
      rw [scanFrom] at h
      split at h
      · split at h
        · rename_i w c₁ hforward
          obtain ⟨hprogress, -⟩ := forward_progress hforward
          have hset : Progress L c₁ { c₁ with target := c₁.target.setIfInBounds cursor w } := by
            refine ⟨rfl, rfl, Array.size_setIfInBounds, fun ht => ?_, fun _ _ hu => hu⟩
            rwa [Array.size_setIfInBounds]
          exact hprogress.trans (hset.trans (ih h))
        · cases h
      · cases h
        exact .refl L _

end Collection

/-- The holder has at most been given other roots, each one related to the root that it
replaces. -/
def Roots.Takes {ρ : Type} (R : Roots ρ) (Q : Value → Value → Prop) (x y : ρ) : Prop :=
  (y = x ∧ ∀ v, Q v v) ∨ ∃ vs, List.Forall₂ Q (R.get x) vs ∧ y = R.set x vs

/-- So have both of two holders. -/
lemma Roots.Takes.of_pair {ρ τ : Type} {R : Roots ρ} {T : Roots τ} {Q : Value → Value → Prop}
    {x y : ρ × τ} (h : (R.pair T).Takes Q x y) : R.Takes Q x.1 y.1 ∧ T.Takes Q x.2 y.2 := by
  rcases h with ⟨rfl, hQ⟩ | ⟨vs, hvs, rfl⟩
  · exact ⟨.inl ⟨rfl, hQ⟩, .inl ⟨rfl, hQ⟩⟩
  · have htake := List.forall₂_take (R.get x.1).length hvs
    have hdrop := List.forall₂_drop (R.get x.1).length hvs
    rw [show (R.pair T).get x = R.get x.1 ++ T.get x.2 from rfl] at htake hdrop
    rw [List.take_left] at htake
    rw [List.drop_left] at hdrop
    exact ⟨.inr ⟨_, htake, rfl⟩, .inr ⟨_, hdrop, rfl⟩⟩

namespace Heap

variable {L : Layout} {ρ : Type} {R : Roots ρ} {h h' : Heap} {holder holder' : ρ}

/-- After a collection the roots and the pending values are where the markers say. -/
lemma collectWith_forwarded? {pending pending' : List Value} (hroom : h.top ≤ h.front.size)
    (hc : collectWith L R pending (h, holder) = .ok pending' (h', holder')) :
    h'.top ≤ h'.front.size ∧ h'.stats.collections = h.stats.collections + 1 ∧
      List.Forall₂ (fun v w => h'.back.forwarded? L v = some w) pending pending' ∧
      ∃ vs, List.Forall₂ (fun v w => h'.back.forwarded? L v = some w) (R.get holder) vs ∧
        holder' = R.set holder vs := by
  obtain ⟨c₁, roots, c₂, c₃, h₁, h₂, h₃, rfl, rfl⟩ := collectWith_eq_ok hc
  obtain ⟨hp₁, hroots⟩ := Collection.forwardFrom_progress h₁
  obtain ⟨hp₂, hpending⟩ := Collection.forwardFrom_progress h₂
  have hp₃ := Collection.scanFrom_progress h₃
  obtain ⟨_, rfl, hus⟩ := hroots hroom
  obtain ⟨_, rfl, hxs⟩ := hpending (by rwa [hp₁.limit, hp₁.source])
  refine ⟨hp₃.top (hp₂.top (hp₁.top (Nat.zero_le _))), rfl,
    hxs.imp fun v w hw => hp₃.marks v w hw, _, hus.imp fun v w hw => ?_, rfl⟩
  exact hp₃.marks v w (hp₂.marks v w hw)

/-- The fields of an object that lies in the words in use. -/
lemma fields_eq_ok (hroom : h.top ≤ h.front.size) {v : Value} {n : Nat} {ws : List Value} :
    h.fields v n = .ok ws ↔ (n = 0 ∨ v.offset + n ≤ h.top) ∧ ws.length = n ∧
      ∀ i < n, ws[i]? = some (h.front.cell (v.offset + i)) := by
  rw [fields]
  by_cases hzero : n = 0
  · subst hzero
    rw [if_pos rfl, Except.ok.injEq, eq_comm]
    simp
  · rw [if_neg hzero, slot, slot]
    by_cases hend : v.offset + n ≤ h.top
    · rw [if_pos (by omega), if_pos (by omega)]
      dsimp only
      rw [Except.ok.injEq, Nat.add_zero]
      have hlen : (h.front.extract v.offset (v.offset + n)).toList.length = n := by
        rw [Array.length_toList, Array.size_extract]
        omega
      have hget : ∀ i < n, (h.front.extract v.offset (v.offset + n)).toList[i]? =
          some (h.front.cell (v.offset + i)) := fun i hi => by
        rw [Cells.getElem?_extract_toList _ _ _ _ (by omega), if_pos hi]
      constructor
      · rintro rfl
        exact ⟨.inr hend, hlen, hget⟩
      · rintro ⟨-, hws, hcells⟩
        refine List.ext_getElem? fun i => ?_
        by_cases hi : i < n
        · rw [hget i hi, hcells i hi]
        · rw [List.getElem?_eq_none (by omega), List.getElem?_eq_none (by omega)]
    · constructor
      · intro heq
        split at heq
        · rename_i hlo hhi
          split at hhi
          · omega
          · cases hhi
        · cases heq
        · cases heq
      · rintro ⟨hor, -⟩
        omega

lemma moved?_of_eq (hstats : h'.stats.collections = h.stats.collections) (v : Value) :
    h.moved? L h' v = some v := if_pos hstats

/-- Placing an object does not change where values have gone. -/
lemma moved?_bump (h h' : Heap) (cls : ClassId) (fields : List Value) :
    h.moved? L (h'.bump cls fields).2 = h.moved? L h' := rfl

lemma moved?_of_ne (hstats : h'.stats.collections = h.stats.collections + 1) (v : Value) :
    h.moved? L h' v = h'.back.forwarded? L v := if_neg (by omega)

/-- **The roots and the fields of an allocation go where the markers say.** -/
lemma alloc_moved? {cls : ClassId} {fields : List Value} {x : Value × List Value}
    (hroom : h.top ≤ h.front.size)
    (ha : alloc L R cls fields (h, holder) = .ok x (h', holder')) :
    h'.top ≤ h'.front.size ∧ R.Takes (fun v w => h.moved? L h' v = some w) holder holder' ∧
      List.Forall₂ (fun v w => h.moved? L h' v = some w) fields x.2 := by
  have hsame : ∀ {h' : Heap}, h'.stats.collections = h.stats.collections →
      List.Forall₂ (fun v w => h.moved? L h' v = some w) fields fields := fun hstats =>
    List.forall₂_same.mpr fun v _ => moved?_of_eq hstats v
  rcases alloc_eq_ok ha with ⟨-, rfl, hs⟩ | ⟨-, hfits, rfl, hs⟩ |
    ⟨-, fields', h₁, holder₁, hcollect, hfits, rfl, hs⟩
  · cases hs
    exact ⟨hroom, .inl ⟨rfl, moved?_of_eq rfl⟩, hsame rfl⟩
  · cases hs
    refine ⟨?_, .inl ⟨rfl, moved?_of_eq rfl⟩, hsame rfl⟩
    rw [available, capacity] at hfits
    rw [top_bump, size_front_bump]
    omega
  · cases hs
    obtain ⟨hroom₁, hstats, hfields, vs, hvs, rfl⟩ := collectWith_forwarded? hroom hcollect
    have hmoved : ∀ v w, h₁.back.forwarded? L v = some w →
        h.moved? L (h₁.bump cls fields').2 v = some w := by
      intro v w hw
      rw [moved?_bump, moved?_of_ne hstats]
      exact hw
    refine ⟨?_, .inr ⟨vs, hvs.imp hmoved, rfl⟩, hfields.imp hmoved⟩
    have hlen := hfields.length_eq
    rw [available, capacity] at hfits
    rw [top_bump, size_front_bump]
    omega

/-- A value that has gone somewhere is of its class there. -/
lemma tag_of_moved? {v w : Value} (hw : h.moved? L h' v = some w) : w.tag = v.tag := by
  rw [moved?] at hw
  split at hw
  · cases hw
    rfl
  · rw [Cells.forwarded?] at hw
    split at hw
    · cases hw
      rfl
    · split at hw
      · cases hw
        rfl
      · cases hw

/-! ### Sound heaps -/

variable {cs : List ClassId} {kept : List Object}

/-- In a sound heap the values that have gone somewhere are those of the kept objects. -/
lemma forwarded?_iff (hs : h.Sound L cs) (hrel : h.Relocated L cs h' kept)
    (hmarked : h.Marked L h' kept) {v w : Value} (hv : v.Sound L cs) :
    h'.back.forwarded? L v = some w ↔
      (0 < L v.tag → v.object ∈ kept) ∧ w = v.moveTo L (newPlace L kept) := by
  by_cases hinline : L v.tag = 0
  · rw [Cells.forwarded?_of_inline hinline, Value.moveTo_of_inline hinline, Option.some.injEq,
      eq_comm, hinline]
    exact ⟨fun h => ⟨fun hpos => absurd hpos (Nat.lt_irrefl 0), h⟩, fun h => h.2⟩
  · have hpos : 0 < L v.tag := Nat.pos_of_ne_zero hinline
    have hobj := hv.names hpos
    have hend : v.offset + L v.tag ≤ h.top := hs.end_le hobj
    rw [Value.moveTo_of_pos hpos]
    constructor
    · intro hw
      have hmark := Cells.marked_of_forwarded? hw hinline
      have hmem : v.offset ∈ kept.map Prod.fst := by
        by_contra hout
        rw [hmarked.rest _ (by omega) hout] at hmark
        exact (hs.words _ (by omega)).ordinary hmark
      obtain ⟨t, ht, htv⟩ := List.mem_map.mp hmem
      have hteq : t = v.object := Layout.eq_of_start_eq hs.pos (hrel.objects t ht) hobj htv
      have hcell := hmarked.marked t ht
      rw [htv] at hcell
      rw [Cells.forwarded?_of_marked hinline (by rw [hcell]), hcell, Option.some.injEq] at hw
      exact ⟨fun _ => hteq ▸ ht, hw.symm⟩
    · rintro ⟨hmem, rfl⟩
      have hcell : h'.back.cell v.offset =
          ⟨.forwarded, UInt32.ofNat (newPlace L kept v.offset)⟩ := hmarked.marked _ (hmem hpos)
      rw [Cells.forwarded?_of_marked hinline (by rw [hcell]), hcell]

/-- Values that name objects of the first heap name objects of the second one where they have
gone, and what the objects hold goes with them. -/
structure Carries (L : Layout) (f : Value → Option Value) (cs cs' : List ClassId) (h h' : Heap) :
    Prop where
  tag : ∀ v w, f v = some w → w.tag = v.tag
  sound : ∀ v w, v.Sound L cs → f v = some w → w.Sound L cs'
  field : ∀ v w, v.Sound L cs → f v = some w → ∀ i < L v.tag,
    f (h.front.cell (v.offset + i)) = some (h'.front.cell (w.offset + i))

lemma Carries.trans {f g : Value → Option Value} {cs' cs'' : List ClassId} {h'' : Heap}
    (hf : Carries L f cs cs' h h') (hg : Carries L g cs' cs'' h' h'') :
    Carries L (fun v => (f v).bind g) cs cs'' h h'' := by
  refine ⟨fun v w hw => ?_, fun v w hv hw => ?_, fun v w hv hw i hi => ?_⟩ <;>
    obtain ⟨u, hu, hw⟩ := Option.bind_eq_some_iff.mp hw
  · rw [hg.tag u w hw, hf.tag v u hu]
  · exact hg.sound u w (hf.sound v u hv hu) hw
  · rw [hf.field v u hv hu i hi, Option.bind_some]
    exact hg.field u w (hf.sound v u hv hu) hw i (by rwa [hf.tag v u hu])

/-- A collection carries objects along. -/
lemma Relocated.carries (hs : h.Sound L cs) (hrel : h.Relocated L cs h' kept)
    (hmarked : h.Marked L h' kept)
    (hstats : h'.stats.collections = h.stats.collections + 1) :
    Carries L (h.moved? L h') cs (kept.map Prod.snd) h h' := by
  have hsmall := hrel.total_le
  refine ⟨fun v w hw => tag_of_moved? hw, fun v w hv hw => ?_, fun v w hv hw i hi => ?_⟩ <;>
    rw [moved?_of_ne hstats, forwarded?_iff hs hrel hmarked hv] at hw <;>
    obtain ⟨hmem, rfl⟩ := hw
  · exact Value.sound_moveTo hrel.once hsmall hv.ordinary hmem
  · have hpos : 0 < L v.tag := by omega
    have hkept := hmem hpos
    have hplace : (v.moveTo L (newPlace L kept)).offset = newPlace L kept v.offset :=
      congrArg Prod.fst (Value.object_moveTo hrel.once hsmall hpos hkept)
    have hend : v.offset + L v.tag ≤ h.top := hs.end_le (hv.names hpos)
    rw [moved?_of_ne hstats, forwarded?_iff hs hrel hmarked (hs.words _ (by omega)), hplace]
    exact ⟨hrel.closed _ hkept i hi, hrel.words _ hkept i hi⟩

lemma Carries.refl (L : Layout) (cs : List ClassId) (h : Heap) :
    Carries L (h.moved? L h) cs cs h h := by
  refine ⟨fun v w hw => tag_of_moved? hw, fun v w hv hw => ?_, fun v w hv hw i hi => ?_⟩ <;>
    rw [moved?_of_eq rfl] at hw <;> cases hw
  · exact hv
  · exact moved?_of_eq rfl _

/-- What has been carried along still is when an object is placed behind it. -/
lemma Carries.bump {f : Value → Option Value} {cs' : List ClassId} {cls : ClassId}
    {fields : List Value} (hcarries : Carries L f cs cs' h h') (hs' : h'.Sound L cs')
    (hroom : fields.length ≤ h'.available) :
    Carries L f cs (cs' ++ [cls]) h (h'.bump cls fields).2 := by
  refine ⟨hcarries.tag, fun v w hv hw => ?_, fun v w hv hw i hi => ?_⟩
  · exact (hcarries.sound v w hv hw).append _
  · have hw' := hcarries.sound v w hv hw
    have hi' : i < L w.tag := by rwa [hcarries.tag v w hw]
    have hend : w.offset + L w.tag ≤ h'.top := hs'.end_le (hw'.names (by omega))
    rw [cell_bump cls hs'.room hroom, if_neg (by omega)]
    exact hcarries.field v w hv hw i hi

/-- Where a new object stands, and what it holds. -/
lemma Sound.bump_new {cls : ClassId} {fields : List Value} (hs : h.Sound L cs)
    (hcls : cls ≠ .forwarded) (hlen : fields.length = L cls) (hpos : 0 < fields.length)
    (hroom : fields.length ≤ h.available) :
    (h.bump cls fields).1.Sound L (cs ++ [cls]) ∧ ∀ i v, fields[i]? = some v →
      (h.bump cls fields).2.front.cell ((h.bump cls fields).1.offset + i) = v := by
  have hfits := hroom
  rw [available, capacity] at hfits
  have hsmall := hs.small
  have hplace : (h.bump cls fields).1.offset = h.top :=
    UInt32.toNat_ofNat_of_lt' (by rw [UInt32.size]; omega)
  refine ⟨⟨hcls, fun _ => ?_⟩, fun i v hi => ?_⟩
  · rw [Layout.objects_append_singleton, ← hs.top, ← hplace]
    exact List.mem_append_right _ List.mem_cons_self
  · have hlt := (List.getElem?_eq_some_iff.mp hi).1
    rw [hplace, cell_bump cls hs.room hroom, if_pos (by omega), Nat.add_sub_cancel_left, hi,
      Option.getD_some]

/-- **Allocation in a sound heap** leaves a sound heap, and carries along the objects that are
still there. -/
lemma alloc_carries {cls : ClassId} {fields : List Value} {x : Value × List Value}
    (hs : h.Sound L cs) (hroots : ∀ v ∈ R.get holder, v.Sound L cs)
    (hfields : ∀ v ∈ fields, v.Sound L cs) (hcls : cls ≠ .forwarded)
    (hlen : fields.length = L cls)
    (ha : alloc L R cls fields (h, holder) = .ok x (h', holder')) :
    ∃ cs', h'.Sound L cs' ∧ Carries L (h.moved? L h') cs cs' h h' ∧ x.1.Sound L cs' ∧
      ∀ i v, fields[i]? = some v →
        h.moved? L h' v = some (h'.front.cell (x.1.offset + i)) := by
  rcases alloc_eq_ok ha with ⟨hzero, rfl, hs'⟩ | ⟨hpos, hroom, rfl, hs'⟩ |
    ⟨hpos, fields', h₁, holder₁, hcollect, hroom, rfl, hs'⟩
  · cases hs'
    refine ⟨cs, hs, .refl L cs h, .inline hcls (hlen.symm.trans hzero), fun i v hi => ?_⟩
    rw [List.length_eq_zero_iff.mp hzero] at hi
    cases hi
  · cases hs'
    obtain ⟨hx, hnew⟩ := hs.bump_new hcls hlen hpos hroom
    refine ⟨_, hs.bump hfields hlen hpos hroom, (Carries.refl L cs h).bump hs hroom, hx,
      fun i v hi => ?_⟩
    rw [hnew i v hi]
    exact moved?_of_eq rfl v
  · cases hs'
    obtain ⟨kept, h₂, hcollect', hrel, hmarked, hstats, -, hall⟩ :=
      collectWith_marked hs (fun v hv => (hroots v hv).names) fun v hv => (hfields v hv).names
    cases hcollect'.symm.trans hcollect
    have hstats' : h₁.stats.collections = h.stats.collections + 1 := by
      rw [hstats]
      rfl
    have hlen₁ : (fields.map (·.moveTo L (newPlace L kept))).length = fields.length :=
      List.length_map _
    have hsmall := hrel.total_le
    have hfields₁ : ∀ v ∈ fields.map (·.moveTo L (newPlace L kept)),
        v.Sound L (kept.map Prod.snd) := by
      intro w hw
      obtain ⟨v, hv, rfl⟩ := List.mem_map.mp hw
      exact Value.sound_moveTo hrel.once hsmall (hfields v hv).ordinary
        (hall v (List.mem_append_right _ hv))
    rw [← hlen₁] at hroom hpos
    obtain ⟨hx, hnew⟩ := hrel.sound.bump_new hcls (hlen₁.trans hlen) hpos hroom
    refine ⟨_, hrel.sound.bump hfields₁ (hlen₁.trans hlen) hpos hroom,
      (hrel.carries hs hmarked hstats').bump hrel.sound hroom, hx, fun i v hi => ?_⟩
    have hv := List.mem_of_getElem? hi
    rw [hnew i (v.moveTo L (newPlace L kept)) (by rw [List.getElem?_map, hi]; rfl),
      moved?_bump, moved?_of_ne hstats', forwarded?_iff hs hrel hmarked (hfields v hv)]
    exact ⟨hall v (List.mem_append_right _ hv), rfl⟩

end Heap

namespace Machine

variable {P : Program} {m m' : Machine}

/-- Where a value that a machine holds is in a later one, if there has been at most one
collection since. -/
def moved? (P : Program) (m m' : Machine) (v : Value) : Option Value :=
  m.image.heap.moved? P.fieldCount m'.image.heap v

lemma moved?_of_inline {v : Value} (hv : P.fieldCount v.tag = 0) (m m' : Machine) :
    m.moved? P m' v = some v := by
  rw [moved?, Heap.moved?]
  split
  · rfl
  · exact Cells.forwarded?_of_inline hv _

/-- The values that a machine holds have gone where the function says, and the thread is as it
was otherwise. -/
structure Moves (f : Value → Option Value) (m m' : Machine) : Prop where
  thread : m'.thread = { m.thread with
    value := m'.thread.value, registers := m'.thread.registers }
  size : m'.thread.registers.size = m.thread.registers.size
  value : f m.thread.value = some m'.thread.value
  live : ∀ i < m.thread.liveEnd, i < m.thread.registers.size →
    f (m.thread.registers.cell i) = some (m'.thread.registers.cell i)
  rest : ∀ i, m.thread.liveEnd ≤ i → m'.thread.registers.cell i = m.thread.registers.cell i
  globals : List.Forall₂ (fun v w => f v = some w) m.image.globals.toList
    m'.image.globals.toList

/-- The end of the registers in use is where it was. -/
lemma Moves.liveEnd {f : Value → Option Value} (h : Moves f m m') :
    m'.thread.liveEnd = m.thread.liveEnd := by
  rw [Thread.liveEnd, h.thread]
  rfl

lemma Moves.trans {f g : Value → Option Value} {m'' : Machine} (h : Moves f m m')
    (h' : Moves g m' m'') : Moves (fun v => (f v).bind g) m m'' := by
  refine ⟨?_, h'.size.trans h.size, ?_, fun i hi hi' => ?_, fun i hi => ?_, ?_⟩
  · rw [h'.thread, h.thread]
  · rw [h.value]
    exact h'.value
  · rw [h.live i hi hi']
    exact h'.live i (h.liveEnd.symm ▸ hi) (h.size.symm ▸ hi')
  · rw [h'.rest i (h.liveEnd.symm ▸ hi), h.rest i hi]
  · refine List.forall₂_iff_get.mpr ⟨h.globals.length_eq.trans h'.globals.length_eq,
      fun i hi hi' => ?_⟩
    have hi₁ : i < m'.image.globals.toList.length := h.globals.length_eq ▸ hi
    rw [(List.forall₂_iff_get.mp h.globals).2 i hi hi₁]
    exact (List.forall₂_iff_get.mp h'.globals).2 i hi₁ hi'

/-- **What a machine holds goes where the markers say**, whatever it names. -/
lemma alloc_moved? {cls : ClassId} {fields : List Value} {x : Value}
    (hroom : m.image.heap.top ≤ m.image.heap.front.size)
    (ha : alloc P cls fields m = .ok x m') :
    m'.image.heap.top ≤ m'.image.heap.front.size ∧ Moves (m.moved? P m') m m' := by
  obtain ⟨-, hthread'⟩ := thread_of_alloc ha
  obtain ⟨-, ws, ha, -⟩ := alloc_eq_ok ha
  obtain ⟨hroom', htakes, -⟩ := Heap.alloc_moved? hroom ha
  obtain ⟨hglobals, hthread⟩ := htakes.of_pair
  dsimp only at hglobals hthread
  have hglobals' : List.Forall₂ (fun v w => m.moved? P m' v = some w) m.image.globals.toList
      m'.image.globals.toList := by
    rcases hglobals with ⟨heq, hsame⟩ | ⟨vs, hvs, heq⟩
    · rw [heq]
      exact List.forall₂_same.mpr fun v _ => hsame v
    · rw [heq]
      exact hvs
  refine ⟨hroom', hthread', ?_, ?_, fun i hi hi' => ?_, fun i hi => ?_, hglobals'⟩ <;>
    rcases hthread with ⟨heq, hsame⟩ | ⟨vs, hvs, heq⟩ <;> rw [heq]
  · obtain ⟨rs, hsize, hset, -⟩ := set_roots hvs
    rw [hset]
    exact hsize
  · exact hsame _
  · obtain ⟨-, -, -, hvalue, -⟩ := set_roots hvs
    exact hvalue
  · exact hsame _
  · obtain ⟨rs, -, hset, -, hcell⟩ := set_roots hvs
    have h := hcell i
    rw [if_pos ⟨hi, hi'⟩] at h
    rw [hset]
    exact h
  · obtain ⟨rs, -, hset, -, hcell⟩ := set_roots hvs
    have h := hcell i
    rw [if_neg (by omega)] at h
    rw [hset]
    exact h

/-! ### Making a continuation -/

/-- Where a value that a machine holds is when a continuation has been made, which takes two
allocations. -/
def reifyMoved? (P : Program) (body : Value) (m m' : Machine) (v : Value) : Option Value :=
  match capture P body m with
  | .ok _ m₁ => (m.moved? P m₁ v).bind (m₁.moved? P m')
  | .error _ _ => none

lemma reifyMoved?_of_inline {body v w : Value} (hv : P.fieldCount v.tag = 0)
    (h : reifyMoved? P body m m' v = some w) : w = v := by
  rw [reifyMoved?] at h
  split at h
  · rw [moved?_of_inline hv, Option.bind_some, moved?_of_inline hv] at h
    exact (Option.some.inj h).symm
  · cases h

lemma alike_of_reifyMoved? {body v w : Value} (h : reifyMoved? P body m m' v = some w) :
    v.Alike P w := by
  refine ⟨?_, fun hv => (reifyMoved?_of_inline hv h).symm⟩
  rw [reifyMoved?] at h
  split at h
  · obtain ⟨u, hu, hw⟩ := Option.bind_eq_some_iff.mp h
    rw [Heap.tag_of_moved? hw, Heap.tag_of_moved? hu]
  · cases h

variable {body : Value} {m₁ m₂ : Machine} {s c : Nat} {vs : List Value} {array k : Value}

namespace Reified

/-- Where values have gone, with the machine between the two allocations. -/
lemma reifyMoved?_eq (h : Reified P body m m₁ m₂ m' s c vs array k) :
    reifyMoved? P body m m' = fun v => (m.moved? P m₁ v).bind (m₁.moved? P m₂) := by
  funext v
  have hheap : m₁.moved? P m' = m₁.moved? P m₂ := by
    funext u
    rw [moved?, moved?, h.image.1]
  rw [reifyMoved?, h.captured, ← hheap]

lemma reifyMoved?_inline (h : Reified P body m m₁ m₂ m' s c vs array k) {v : Value}
    (hv : P.fieldCount v.tag = 0) : reifyMoved? P body m m' v = some v := by
  rw [h.reifyMoved?_eq]
  dsimp only
  rw [moved?_of_inline hv, Option.bind_some, moved?_of_inline hv]

/-- **What a machine holds goes where the markers say**, the body being held in the value
register. -/
lemma moves (h : Reified P body m m₁ m₂ m' s c vs array k)
    (hroom : m.image.heap.top ≤ m.image.heap.front.size) :
    m'.image.heap.top ≤ m'.image.heap.front.size ∧
      Moves (reifyMoved? P body m m') (m.capturing body) m₂ := by
  obtain ⟨hroom₁, hmoves₁⟩ := alloc_moved? (m := m.capturing body) hroom h.stored
  obtain ⟨hroom₂, hmoves₂⟩ := alloc_moved? hroom₁ h.made
  rw [h.image.1, h.reifyMoved?_eq]
  exact ⟨hroom₂, hmoves₁.trans hmoves₂⟩

end Reified

end Machine

end EffectMachine
