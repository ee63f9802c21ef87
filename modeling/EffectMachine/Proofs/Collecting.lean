/-
Correctness of a collection.

A collection of a sound heap succeeds, and what it leaves is the old heap seen
through a new order of its objects. The argument follows the collection with
the list of the objects moved so far: it says where each of them stands in the
target, and which words of the source carry a marker.

* `Collection.Copying`: the invariant. Up to the cursor the target holds the
  words of the moved objects with the values they hold moved as well, from the
  cursor on it holds them as they were;
* `forward_copying`, `forwardAll_copying`, `scanFrom_copying`: the steps of a
  collection keep the invariant and move what they meet;
* `Cells.Reaches`: the objects that roots lead to;
* `Heap.Relocated`: the heap `h'` holds the objects of `h` in the list `kept`,
  in that order, and nothing else;
* `Heap.Marked`: what it has left in the other space;
* `Heap.collectWith_relocated`: **a collection of a sound heap from sound roots
  succeeds and keeps exactly what the roots reach**.
-/
import EffectMachine.Proofs.Objects

namespace EffectMachine

/-- The objects that a list of values leads to. -/
inductive Cells.Reaches (L : Layout) (s : Cells) (roots : List Value) : Object → Prop
  | root {v : Value} : v ∈ roots → 0 < L v.tag → Reaches L s roots v.object
  | field {t : Object} {i : Nat} : Reaches L s roots t → i < L t.2 →
      0 < L (s.cell (t.1 + i)).tag → Reaches L s roots (s.cell (t.1 + i)).object

/-- Cells that can be collected into a space of the given capacity: they start
with objects of the given classes, whose words hold sound values. -/
structure Cells.Collectable (L : Layout) (cs : List ClassId) (src : Cells) (capacity : Nat) :
    Prop where
  pos : ∀ c ∈ cs, 0 < L c
  fits : L.total cs ≤ src.size
  room : L.total cs ≤ capacity
  small : capacity ≤ 2 ^ 32
  words : ∀ i < L.total cs, (src.cell i).Sound L cs

namespace Collection

variable {L : Layout} {cs : List ClassId} {src : Cells} {capacity : Nat} {live : Object → Prop}
  {moved : List Object} {cursor : Nat} {c : Collection}

@[simp] lemma source_move (o n : Nat) (c : Collection) :
    (c.move o n).source = c.source.setIfInBounds o ⟨.forwarded, UInt32.ofNat c.top⟩ := rfl

@[simp] lemma target_move (o n : Nat) (c : Collection) :
    (c.move o n).target = c.target.copyFrom c.top c.source o n := rfl

@[simp] lemma top_move (o n : Nat) (c : Collection) : (c.move o n).top = c.top + n := rfl

/-- The collection has moved the objects of a list, in that order, and has
forwarded the words of the target below the cursor. All objects moved are
`live`. -/
structure Copying (L : Layout) (cs : List ClassId) (src : Cells) (capacity : Nat)
    (live : Object → Prop) (moved : List Object) (cursor : Nat) (c : Collection) : Prop where
  limit : c.limit = L.total cs
  source_size : c.source.size = src.size
  target_size : c.target.size = capacity
  objects : ∀ t ∈ moved, t ∈ L.objects cs
  once : (moved.map Prod.fst).Nodup
  alive : ∀ t ∈ moved, live t
  top : c.top = L.total (moved.map Prod.snd)
  cursor_le : cursor ≤ c.top
  marked : ∀ t ∈ moved, c.source.cell t.1 = ⟨.forwarded, UInt32.ofNat (newPlace L moved t.1)⟩
  rest : ∀ i < c.limit, i ∉ moved.map Prod.fst → c.source.cell i = src.cell i
  done : ∀ t ∈ moved, ∀ i < L t.2, newPlace L moved t.1 + i < cursor →
    c.target.cell (newPlace L moved t.1 + i) = (src.cell (t.1 + i)).moveTo L (newPlace L moved) ∧
      (0 < L (src.cell (t.1 + i)).tag → (src.cell (t.1 + i)).object ∈ moved)
  todo : ∀ t ∈ moved, ∀ i < L t.2, cursor ≤ newPlace L moved t.1 + i →
    c.target.cell (newPlace L moved t.1 + i) = src.cell (t.1 + i)

namespace Copying

/-- Before anything has been moved. -/
lemma start (live : Object → Prop) {target : Cells} (ht : target.size = capacity) :
    Copying L cs src capacity live [] 0 ⟨src, L.total cs, target, 0⟩ where
  limit := rfl
  source_size := rfl
  target_size := ht
  objects t h := by cases h
  once := List.nodup_nil
  alive t h := by cases h
  top := rfl
  cursor_le := Nat.le_refl 0
  marked t h := by cases h
  rest i _ _ := rfl
  done t h := by cases h
  todo t h := by cases h

lemma total_le (hc : Copying L cs src capacity live moved cursor c) :
    L.total (moved.map Prod.snd) ≤ L.total cs :=
  Layout.total_le_of_subset (List.Nodup.of_map _ hc.once) hc.objects

/-- A moved object stays inside the words copied so far. -/
lemma newPlace_end_le (hc : Copying L cs src capacity live moved cursor c) {t : Object}
    (ht : t ∈ moved) : newPlace L moved t.1 + L t.2 ≤ c.top := by
  rw [hc.top]
  exact Layout.end_le_of_mem_objects (mem_objects_newPlace hc.once ht)

/-- An object that has not been moved is still whole in the source: the markers
stand in other objects. -/
lemma cell_of_not_mem (hsrc : src.Collectable L cs capacity)
    (hc : Copying L cs src capacity live moved cursor c) {t : Object} (ht : t ∈ L.objects cs)
    (hnew : t.1 ∉ moved.map Prod.fst) {i : Nat} (hi : i < L t.2) :
    c.source.cell (t.1 + i) = src.cell (t.1 + i) := by
  have hend := Layout.end_le_of_mem_objects ht
  refine hc.rest _ (by rw [hc.limit]; omega) fun hmem => ?_
  obtain ⟨u, hu, hut⟩ := List.mem_map.mp hmem
  have hupos := hsrc.pos _ (Layout.class_mem_of_mem_objectsFrom (hc.objects u hu))
  rcases Layout.eq_or_apart ht (hc.objects u hu) with rfl | h | h
  · exact hnew (List.mem_map_of_mem hu)
  · omega
  · omega

lemma objects_append (hc : Copying L cs src capacity live moved cursor c) {t : Object}
    (ht : t ∈ L.objects cs) : ∀ u ∈ moved ++ [t], u ∈ L.objects cs := by
  intro u hu
  rcases List.mem_append.mp hu with hu | hu
  · exact hc.objects u hu
  · rw [List.mem_singleton.mp hu]
    exact ht

lemma once_append (hc : Copying L cs src capacity live moved cursor c) {t : Object}
    (hnew : t.1 ∉ moved.map Prod.fst) : ((moved ++ [t]).map Prod.fst).Nodup := by
  rw [List.map_append, List.map_singleton]
  exact hc.once.append (List.nodup_singleton _) (by simpa using hnew)

/-- There is room for one more object, since different objects take no more words than
all of them. -/
lemma room (hsrc : src.Collectable L cs capacity)
    (hc : Copying L cs src capacity live moved cursor c) {t : Object} (ht : t ∈ L.objects cs)
    (hnew : t.1 ∉ moved.map Prod.fst) : c.top + L t.2 ≤ capacity := by
  have htotal := Layout.total_le_of_subset (List.Nodup.of_map _ (hc.once_append hnew))
    (hc.objects_append ht)
  rw [List.map_append, Layout.total_append, ← hc.top] at htotal
  simp only [List.map_cons, List.map_nil, Layout.total_cons, Layout.total_nil] at htotal
  have hroom := hsrc.room
  omega

/-- The words of an object that is moved come to stand behind those copied before. -/
lemma cell_target_move (hc : Copying L cs src capacity live moved cursor c) {n : Nat}
    (hroom : c.top + n ≤ capacity) (o j : Nat) :
    (c.move o n).target.cell j =
      if c.top ≤ j ∧ j < c.top + n then c.source.cell (o + (j - c.top)) else c.target.cell j := by
  rw [target_move, Cells.cell_copyFrom, hc.target_size]
  by_cases hj : c.top ≤ j ∧ j < c.top + n
  · rw [if_pos ⟨hj.1, hj.2, by omega⟩, if_pos hj]
  · rw [if_neg (by omega), if_neg hj]

lemma move (hsrc : src.Collectable L cs capacity)
    (hc : Copying L cs src capacity live moved cursor c) {t : Object} (ht : t ∈ L.objects cs)
    (hlive : live t) (hnew : t.1 ∉ moved.map Prod.fst) :
    Copying L cs src capacity live (moved ++ [t]) cursor (c.move t.1 (L t.2)) := by
  have hold : ∀ u ∈ moved, newPlace L (moved ++ [t]) u.1 = newPlace L moved u.1 := fun u hu =>
    newPlace_append_of_mem (List.mem_map_of_mem hu)
  have hself : newPlace L (moved ++ [t]) t.1 = c.top := by rw [newPlace_append_self hnew, hc.top]
  have hend := Layout.end_le_of_mem_objects ht
  have hpos := hsrc.pos _ (Layout.class_mem_of_mem_objectsFrom ht)
  have htarget := hc.cell_target_move (hc.room hsrc ht hnew) t.1
  refine
    { limit := hc.limit
      source_size := by rw [source_move, Array.size_setIfInBounds, hc.source_size]
      target_size := by rw [target_move, Cells.size_copyFrom, hc.target_size]
      objects := hc.objects_append ht
      once := hc.once_append hnew
      alive := ?alive
      top := by simp [hc.top]
      cursor_le := Nat.le_trans hc.cursor_le (Nat.le_add_right _ _)
      marked := ?marked
      rest := ?rest
      done := ?done
      todo := ?todo }
  case alive =>
    intro u hu
    rcases List.mem_append.mp hu with hu | hu
    · exact hc.alive u hu
    · rw [List.mem_singleton.mp hu]
      exact hlive
  case marked =>
    intro u hu
    rw [source_move, Cells.cell_setIfInBounds]
    rcases List.mem_append.mp hu with hu | hu
    · have hne : t.1 ≠ u.1 := fun h => hnew (h ▸ List.mem_map_of_mem hu)
      rw [if_neg fun h => hne h.1, hold u hu, hc.marked u hu]
    · have hlt : t.1 < c.source.size := by
        have := hsrc.fits
        rw [hc.source_size]
        omega
      rw [List.mem_singleton.mp hu, hself, if_pos ⟨rfl, hlt⟩]
  case rest =>
    intro i hi hmem
    rw [List.map_append, List.mem_append, not_or, List.map_singleton, List.mem_singleton] at hmem
    rw [source_move, Cells.cell_setIfInBounds, if_neg fun h => hmem.2 h.1.symm]
    exact hc.rest i hi hmem.1
  case done =>
    intro u hu i hi hlt
    rcases List.mem_append.mp hu with hu | hu
    · have hu_end := hc.newPlace_end_le hu
      rw [hold u hu] at hlt ⊢
      obtain ⟨hcell, hmem⟩ := hc.done u hu i hi hlt
      refine ⟨?_, fun hp => List.mem_append_left _ (hmem hp)⟩
      rw [htarget, if_neg (by omega), hcell]
      exact Value.moveTo_congr fun hp =>
        (newPlace_append_of_mem (List.mem_map_of_mem (hmem hp))).symm
    · rw [List.mem_singleton.mp hu, hself] at hlt
      have := hc.cursor_le
      omega
  case todo =>
    intro u hu i hi hle
    rcases List.mem_append.mp hu with hu | hu
    · have hu_end := hc.newPlace_end_le hu
      rw [hold u hu] at hle ⊢
      rw [htarget, if_neg (by omega), hc.todo u hu i hi hle]
    · rw [List.mem_singleton.mp hu] at hi ⊢
      rw [hself, htarget, if_pos (by omega), Nat.add_sub_cancel_left]
      exact hc.cell_of_not_mem hsrc ht hnew hi

lemma advance (hsrc : src.Collectable L cs capacity)
    (hc : Copying L cs src capacity live moved cursor c) (hlt : cursor < c.top) {w : Value}
    (hw : c.target.cell cursor = w) (hmem : 0 < L w.tag → w.object ∈ moved) :
    Copying L cs src capacity live moved (cursor + 1)
      { c with target := c.target.setIfInBounds cursor (w.moveTo L (newPlace L moved)) } := by
  have hsize : c.top ≤ c.target.size := by
    rw [hc.top, hc.target_size]
    exact Nat.le_trans hc.total_le hsrc.room
  have htarget : ∀ j, Cells.cell (c.target.setIfInBounds cursor (w.moveTo L (newPlace L moved))) j =
      if cursor = j ∧ cursor < c.target.size then w.moveTo L (newPlace L moved)
      else c.target.cell j := fun j => Cells.cell_setIfInBounds _ _ _ _
  refine
    { hc with
      target_size := by rw [Array.size_setIfInBounds, hc.target_size]
      cursor_le := hlt
      done := ?done
      todo := ?todo }
  case done =>
    intro t ht i hi hle
    rw [htarget]
    by_cases heq : cursor = newPlace L moved t.1 + i
    · -- the word at the cursor was still the one of the source
      have hcell : src.cell (t.1 + i) = w := by
        rw [← hc.todo t ht i hi (by omega), ← heq, hw]
      rw [hcell]
      refine ⟨?_, hmem⟩
      rw [if_pos ⟨heq, by omega⟩]
    · rw [if_neg fun h => heq h.1]
      exact hc.done t ht i hi (by omega)
  case todo =>
    intro t ht i hi hle
    rw [htarget, if_neg fun h => by omega]
    exact hc.todo t ht i hi (by omega)

end Copying

/-! ### The steps of a collection -/

/-- Forwarding a value that names an object succeeds, moves the object unless that
has been done, and gives the value at its new place. -/
lemma forward_copying (hsrc : src.Collectable L cs capacity)
    (hc : Copying L cs src capacity live moved cursor c) {v : Value}
    (hv : v.Within L (L.objects cs)) (hlive : 0 < L v.tag → live v.object) :
    ∃ ts c', forward L v c = .ok (v.moveTo L (newPlace L (moved ++ ts))) c' ∧
      Copying L cs src capacity live (moved ++ ts) cursor c' ∧
      (0 < L v.tag → v.object ∈ moved ++ ts) := by
  rw [forward]
  by_cases hinline : L v.tag = 0
  · refine ⟨[], c, ?_, by rwa [List.append_nil], fun hpos => by omega⟩
    simp only [hinline, if_true]
    rw [Value.moveTo_of_inline hinline]
  have hpos : 0 < L v.tag := by omega
  have hobj := hv hpos
  have hend : v.offset + L v.tag ≤ L.total cs := Layout.end_le_of_mem_objects hobj
  have hlimit : ¬ c.limit < v.offset + L v.tag := by
    rw [hc.limit]
    omega
  simp only [hinline, hlimit, if_false]
  by_cases hmem : v.offset ∈ moved.map Prod.fst
  · -- the object has been moved: its first word is the marker with its new place
    obtain ⟨t, ht, hto⟩ := List.mem_map.mp hmem
    have hteq : t = v.object := Layout.eq_of_start_eq hsrc.pos (hc.objects t ht) hobj hto
    have hmark := hc.marked t ht
    rw [hto] at hmark
    refine ⟨[], c, ?_, by rwa [List.append_nil], fun _ => by rwa [List.append_nil, ← hteq]⟩
    rw [hmark, List.append_nil, Value.moveTo_of_pos hpos]
    simp
  · -- the object is still in its place, and its first word is no marker
    have hhead : (c.source.cell v.offset).tag ≠ .forwarded := by
      have h := hc.cell_of_not_mem hsrc hobj hmem hpos
      simp only [Value.object, Nat.add_zero] at h
      rw [h]
      exact (hsrc.words _ (by omega)).ordinary
    have hmoved := hc.move hsrc hobj (hlive hpos) hmem
    have hroom : ¬ c.target.size < c.top + L v.tag := by
      rw [hc.target_size]
      exact Nat.not_lt_of_le (hc.room hsrc hobj hmem)
    refine ⟨[v.object], _, ?_, hmoved, fun _ => by simp⟩
    simp only [hhead, hroom, if_false]
    rw [Value.moveTo_of_pos hpos]
    have hself := newPlace_append_self (L := L) (t := v.object) hmem
    simp only [Value.object] at hself ⊢
    rw [hself, ← hc.top]

/-- Values whose objects have been moved keep their new places when further
objects are moved. -/
lemma moveTo_newPlace_append {ts us : List Object} {v : Value} (h : 0 < L v.tag → v.object ∈ ts) :
    v.moveTo L (newPlace L (ts ++ us)) = v.moveTo L (newPlace L ts) :=
  Value.moveTo_congr fun hpos => newPlace_append_of_mem
    (List.mem_map_of_mem (f := Prod.fst) (h hpos))

/-- Forwarding a list of values succeeds and moves all their objects. -/
lemma forwardFrom_copying (hsrc : src.Collectable L cs capacity) {vs : List Value} :
    ∀ {moved : List Object} {c : Collection} (_ : Copying L cs src capacity live moved cursor c)
      (_ : ∀ v ∈ vs, v.Within L (L.objects cs)) (_ : ∀ v ∈ vs, 0 < L v.tag → live v.object)
      (acc : List Value),
    ∃ ts c', forwardFrom L acc vs c =
        .ok () (c', acc.reverse ++ vs.map (·.moveTo L (newPlace L (moved ++ ts)))) ∧
      Copying L cs src capacity live (moved ++ ts) cursor c' ∧
      ∀ v ∈ vs, 0 < L v.tag → v.object ∈ moved ++ ts := by
  induction vs with
  | nil =>
      intro moved c hc _ _ acc
      refine ⟨[], c, ?_, by rwa [List.append_nil], fun v hv => by cases hv⟩
      rw [forwardFrom, List.map_nil, List.append_nil]
  | cons v vs ih =>
      intro moved c hc hwithin hlive acc
      obtain ⟨ts₁, c₁, hf, hc₁, hmem₁⟩ := forward_copying hsrc hc (hwithin v List.mem_cons_self)
        (hlive v List.mem_cons_self)
      obtain ⟨ts₂, c₂, hfs, hc₂, hmem₂⟩ := ih hc₁
        (fun u hu => hwithin u (List.mem_cons_of_mem _ hu))
        (fun u hu => hlive u (List.mem_cons_of_mem _ hu))
        (v.moveTo L (newPlace L (moved ++ ts₁)) :: acc)
      refine ⟨ts₁ ++ ts₂, c₂, ?_, by rwa [← List.append_assoc], ?_⟩
      · -- moving further objects has not changed the place given to the first value
        rw [forwardFrom, hf]
        dsimp only
        rw [hfs, List.reverse_cons, List.append_assoc, List.singleton_append, List.map_cons,
          ← List.append_assoc, moveTo_newPlace_append hmem₁]
      · intro u hu hpos
        rw [← List.append_assoc]
        rcases List.mem_cons.mp hu with rfl | hu
        · exact List.mem_append_left _ (hmem₁ hpos)
        · exact hmem₂ u hu hpos

lemma forwardAll_copying (hsrc : src.Collectable L cs capacity)
    (hc : Copying L cs src capacity live moved cursor c) {vs : List Value}
    (hwithin : ∀ v ∈ vs, v.Within L (L.objects cs))
    (hlive : ∀ v ∈ vs, 0 < L v.tag → live v.object) :
    ∃ ts c', forwardAll L vs c =
        .ok () (c', vs.map (·.moveTo L (newPlace L (moved ++ ts)))) ∧
      Copying L cs src capacity live (moved ++ ts) cursor c' ∧
      ∀ v ∈ vs, 0 < L v.tag → v.object ∈ moved ++ ts :=
  forwardFrom_copying hsrc hc hwithin hlive []

/-- Scanning succeeds and ends with the cursor at the end of what has been
copied. The fuel suffices, since the cursor never passes the end of the
space. -/
lemma scanFrom_copying (hsrc : src.Collectable L cs capacity)
    (hfield : ∀ t ∈ L.objects cs, live t → ∀ i < L t.2, 0 < L (src.cell (t.1 + i)).tag →
      live (src.cell (t.1 + i)).object) (fuel : Nat) :
    ∀ {moved : List Object} {cursor : Nat} {c : Collection}
      (_ : Copying L cs src capacity live moved cursor c) (_ : capacity ≤ cursor + fuel),
    ∃ ts c', scanFrom L fuel cursor c = .ok () c' ∧
      Copying L cs src capacity live (moved ++ ts) c'.top c' := by
  induction fuel with
  | zero =>
      intro moved cursor c hc hfuel
      have htop : c.top = cursor := by
        have := hc.cursor_le
        have := Nat.le_trans hc.total_le hsrc.room
        rw [← hc.top] at this
        omega
      exact ⟨[], c, rfl, by rw [List.append_nil, htop]; exact hc⟩
  | succ fuel ih =>
      intro moved cursor c hc hfuel
      rw [scanFrom]
      by_cases hlt : cursor < c.top
      · -- the word at the cursor belongs to a moved object, so its value is sound
        obtain ⟨u, hu, hlo, hhi⟩ := Layout.exists_of_lt_total (L := L) (Nat.zero_le cursor)
          (by rwa [Nat.zero_add, ← hc.top])
        obtain ⟨t, ht, rfl⟩ := exists_of_mem_objects_map hc.once hu
        obtain ⟨i, rfl⟩ : ∃ i, cursor = newPlace L moved t.1 + i :=
          ⟨cursor - newPlace L moved t.1, by dsimp only at hlo; omega⟩
        have hi : i < L t.2 := by
          dsimp only at hhi
          omega
        have hobj := hc.objects t ht
        have hend := Layout.end_le_of_mem_objects hobj
        have hword := hc.todo t ht i hi (Nat.le_refl _)
        obtain ⟨ts₁, c₁, hf, hc₁, hmem⟩ := forward_copying hsrc hc
          (hsrc.words (t.1 + i) (by omega)).names
          (hfield t hobj (hc.alive t ht) i hi)
        -- and that object has not moved on meanwhile
        have hplace : newPlace L (moved ++ ts₁) t.1 = newPlace L moved t.1 :=
          newPlace_append_of_mem (List.mem_map_of_mem ht)
        have hword₁ : c₁.target.cell (newPlace L moved t.1 + i) = src.cell (t.1 + i) := by
          have h := hc₁.todo t (List.mem_append_left _ ht) i hi (by rw [hplace])
          rwa [hplace] at h
        have hlt₁ : newPlace L moved t.1 + i < c₁.top := by
          have h := hc₁.newPlace_end_le (List.mem_append_left _ ht)
          rw [hplace] at h
          omega
        obtain ⟨ts₂, c₂, hscan, hc₂⟩ := ih (hc₁.advance hsrc hlt₁ hword₁ hmem) (by omega)
        refine ⟨ts₁ ++ ts₂, c₂, ?_, by rwa [← List.append_assoc]⟩
        rw [if_pos hlt, hword, hf]
        exact hscan
      · have htop : c.top = cursor := by
          have := hc.cursor_le
          omega
        rw [if_neg hlt]
        exact ⟨[], c, rfl, by rw [List.append_nil, htop]; exact hc⟩

end Collection

/-! ### Whole collections -/

namespace Heap

variable {L : Layout} {cs : List ClassId} {h h' : Heap} {kept : List Object}

/-- The heap `h'` holds, one after the other, the objects of `h` in the list
`kept`, which lead to no others; the values in their words name the objects at
their new places. -/
structure Relocated (L : Layout) (cs : List ClassId) (h h' : Heap) (kept : List Object) : Prop where
  objects : ∀ t ∈ kept, t ∈ L.objects cs
  once : (kept.map Prod.fst).Nodup
  sound : h'.Sound L (kept.map Prod.snd)
  capacity : h'.capacity = h.capacity
  words : ∀ t ∈ kept, ∀ i < L t.2, h'.front.cell (newPlace L kept t.1 + i) =
    (h.front.cell (t.1 + i)).moveTo L (newPlace L kept)
  closed : ∀ t ∈ kept, ∀ i < L t.2, 0 < L (h.front.cell (t.1 + i)).tag →
    (h.front.cell (t.1 + i)).object ∈ kept

/-- The kept objects fit a space. -/
lemma Relocated.total_le (hrel : h.Relocated L cs h' kept) :
    L.total (kept.map Prod.snd) ≤ 2 ^ 32 := by
  rw [← hrel.sound.top]
  exact Nat.le_trans hrel.sound.room hrel.sound.small

/-- The back space of the heap `h'` has a marker, with the new place, where each kept object
started, and is the front space of `h` otherwise. -/
structure Marked (L : Layout) (h h' : Heap) (kept : List Object) : Prop where
  marked : ∀ t ∈ kept, h'.back.cell t.1 = ⟨.forwarded, UInt32.ofNat (newPlace L kept t.1)⟩
  rest : ∀ i < h.top, i ∉ kept.map Prod.fst → h'.back.cell i = h.front.cell i

lemma Sound.collectable (hs : h.Sound L cs) : h.front.Collectable L cs h.back.size where
  pos := hs.pos
  fits := hs.top ▸ hs.room
  room := by rw [hs.twin, ← hs.top]; exact hs.room
  small := hs.twin ▸ hs.small
  words i hi := hs.words i (hs.top ▸ hi)

/-- What a finished collection has copied is a sound heap again. -/
lemma relocated_of_copying (hs : h.Sound L cs) {live : Object → Prop} {c : Collection}
    (hc : Collection.Copying L cs h.front h.back.size live kept c.top c) (stats : Stats) :
    h.Relocated L cs ⟨c.target, c.source, c.top, stats⟩ kept := by
  have hsrc := hs.collectable
  have hsmall : L.total (kept.map Prod.snd) ≤ 2 ^ 32 :=
    Nat.le_trans hc.total_le (Nat.le_trans hsrc.room hsrc.small)
  have hdone : ∀ t ∈ kept, ∀ i < L t.2, _ := fun t ht i hi =>
    hc.done t ht i hi (by have := hc.newPlace_end_le ht; omega)
  refine
    { objects := hc.objects
      once := hc.once
      sound := ?_
      capacity := by rw [capacity, capacity, hc.target_size, hs.twin]
      words := fun t ht i hi => (hdone t ht i hi).1
      closed := fun t ht i hi => (hdone t ht i hi).2 }
  refine
    { pos := ?pos
      top := hc.top
      room := by dsimp only; rw [hc.target_size, hc.top]; exact Nat.le_trans hc.total_le hsrc.room
      twin := by dsimp only; rw [hc.source_size, hc.target_size, hs.twin]
      small := by dsimp only; rw [hc.target_size]; exact hsrc.small
      words := ?words }
  case pos =>
    intro k hk
    obtain ⟨t, ht, rfl⟩ := List.mem_map.mp hk
    exact hs.pos _ (Layout.class_mem_of_mem_objectsFrom (hc.objects t ht))
  case words =>
    intro j hj
    dsimp only at hj ⊢
    -- the word belongs to a copied object, whose words have all been forwarded
    obtain ⟨u, hu, hlo, hhi⟩ := Layout.exists_of_lt_total (L := L) (Nat.zero_le j)
      (by rwa [Nat.zero_add, ← hc.top])
    obtain ⟨t, ht, rfl⟩ := exists_of_mem_objects_map hc.once hu
    dsimp only at hlo hhi
    obtain ⟨i, rfl⟩ : ∃ i, j = newPlace L kept t.1 + i := ⟨j - newPlace L kept t.1, by omega⟩
    obtain ⟨hcell, hmem⟩ := hdone t ht i (by omega)
    have hend := Layout.end_le_of_mem_objects (hc.objects t ht)
    rw [hcell]
    exact Value.sound_moveTo hc.once hsmall (hsrc.words _ (by omega)).ordinary hmem

/-- A collection of a sound heap from roots that name objects of it succeeds, and leaves a
marker for exactly the objects that it keeps. -/
lemma collectWith_marked {ρ : Type} {R : Roots ρ} {holder : ρ} {pending : List Value}
    (hs : h.Sound L cs) (hroots : ∀ v ∈ R.get holder, v.Within L (L.objects cs))
    (hpending : ∀ v ∈ pending, v.Within L (L.objects cs)) :
    ∃ kept h', collectWith L R pending (h, holder) =
        .ok (pending.map (·.moveTo L (newPlace L kept)))
          (h', R.set holder ((R.get holder).map (·.moveTo L (newPlace L kept)))) ∧
      h.Relocated L cs h' kept ∧ h.Marked L h' kept ∧
      h'.stats = h.stats.recordCollection h.top h'.top ∧
      (∀ t, t ∈ kept ↔ h.front.Reaches L (R.get holder ++ pending) t) ∧
      ∀ v ∈ R.get holder ++ pending, 0 < L v.tag → v.object ∈ kept := by
  have hsrc := hs.collectable
  -- first the roots are forwarded, then the pending values, then the copied words
  obtain ⟨ts₁, c₁, hf₁, hc₁, hmem₁⟩ := Collection.forwardAll_copying hsrc
    (Collection.Copying.start (h.front.Reaches L (R.get holder ++ pending)) rfl) hroots
    (fun v hv hpos => .root (List.mem_append_left _ hv) hpos)
  obtain ⟨ts₂, c₂, hf₂, hc₂, hmem₂⟩ := Collection.forwardAll_copying hsrc hc₁ hpending
    (fun v hv hpos => .root (List.mem_append_right _ hv) hpos)
  obtain ⟨ts₃, c₃, hscan, hc₃⟩ := Collection.scanFrom_copying hsrc
    (fun t _ ht i hi hpos => .field ht hi hpos) c₂.target.size hc₂
    (by rw [hc₂.target_size]; omega)
  simp only [List.nil_append] at hf₁ hc₁ hmem₁ hf₂ hc₂ hmem₂ hc₃
  have hroots_mem : ∀ v ∈ R.get holder, 0 < L v.tag → v.object ∈ ts₁ ++ ts₂ := fun v hv hpos =>
    List.mem_append_left _ (hmem₁ v hv hpos)
  have hall : ∀ v ∈ R.get holder ++ pending, 0 < L v.tag → v.object ∈ ts₁ ++ ts₂ ++ ts₃ := by
    intro v hv hpos
    rcases List.mem_append.mp hv with hv | hv
    · exact List.mem_append_left _ (hroots_mem v hv hpos)
    · exact List.mem_append_left _ (hmem₂ v hv hpos)
  have hrel := relocated_of_copying hs hc₃ (h.stats.recordCollection h.top c₃.top)
  refine ⟨ts₁ ++ ts₂ ++ ts₃, _, ?_, hrel, ⟨hc₃.marked, fun i hi => hc₃.rest i ?_⟩, rfl,
    fun t => ⟨hc₃.alive t, fun ht => ?_⟩, hall⟩
  · -- later steps have not changed the places given to the roots and the pending values
    have hR : (R.get holder).map (·.moveTo L (newPlace L (ts₁ ++ ts₂ ++ ts₃))) =
        (R.get holder).map (·.moveTo L (newPlace L ts₁)) := by
      refine List.map_congr_left fun v hv => ?_
      rw [Collection.moveTo_newPlace_append (hroots_mem v hv),
        Collection.moveTo_newPlace_append (hmem₁ v hv)]
    have hP : pending.map (·.moveTo L (newPlace L (ts₁ ++ ts₂ ++ ts₃))) =
        pending.map (·.moveTo L (newPlace L (ts₁ ++ ts₂))) :=
      List.map_congr_left fun v hv => Collection.moveTo_newPlace_append (hmem₂ v hv)
    rw [hR, hP]
    obtain ⟨front, back, top, stats⟩ := h
    have htop : top = L.total cs := hs.top
    simp only [collectWith, htop, hf₁, hf₂, Collection.scan, hscan]
  · rw [hc₃.limit, ← hs.top]
    exact hi
  · -- conversely, the kept objects include the roots and are closed under fields
    induction ht with
    | root hv hpos => exact hall _ hv hpos
    | field _ hi hpos ih => exact hrel.closed _ ih _ hi hpos

/-- **Correctness of a collection.** From a sound heap, sound roots and sound
pending values a collection succeeds; it keeps exactly the objects that the
roots and the pending values reach, and gives these their new places. -/
theorem collectWith_relocated {ρ : Type} {R : Roots ρ} {holder : ρ} {pending : List Value}
    (hs : h.Sound L cs) (hroots : ∀ v ∈ R.get holder, v.Sound L cs)
    (hpending : ∀ v ∈ pending, v.Sound L cs) :
    ∃ kept h', collectWith L R pending (h, holder) =
        .ok (pending.map (·.moveTo L (newPlace L kept)))
          (h', R.set holder ((R.get holder).map (·.moveTo L (newPlace L kept)))) ∧
      h.Relocated L cs h' kept ∧
      h'.stats = h.stats.recordCollection h.top h'.top ∧
      (∀ t, t ∈ kept ↔ h.front.Reaches L (R.get holder ++ pending) t) ∧
      ∀ v ∈ R.get holder ++ pending, 0 < L v.tag → v.object ∈ kept := by
  obtain ⟨kept, h', hcollect, hrel, -, hstats, hreaches, hall⟩ :=
    collectWith_marked hs (fun v hv => (hroots v hv).names) fun v hv => (hpending v hv).names
  exact ⟨kept, h', hcollect, hrel, hstats, hreaches, hall⟩

end Heap

end EffectMachine
