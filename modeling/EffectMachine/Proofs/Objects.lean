/-
Objects on the heap.

The words in use are cut into objects, which stand one after the other without
gaps, so the list of their classes says where each of them starts.

* `Layout.total`, `Layout.objects`: the words that objects of given classes
  take, and the objects themselves when laid out from a word on;
* `Layout.Partitions`: a set of objects cuts the first words into disjoint
  pieces; laid out objects do (`partitions_objects`);
* `Value.Within`: a value is inline, or it names one of the objects, with its own
  class and first word;
* `Value.Sound`: the same among laid out objects, for a value that is no marker;
* `Heap.Sound`: the words in use are laid out objects and hold sound values;
* `Heap.collectWith_eq_ok`, `Heap.alloc_eq_ok`: the stages of a collection that
  succeeds, and the ways in which an allocation does;
* `newPlace`, `Value.moveTo`: where objects come to stand when they are laid
  out anew in another order, and the values that name them there.
-/
import EffectMachine.Heap
import Mathlib.Algebra.Order.BigOperators.Group.List
import Mathlib.Algebra.Order.Ring.Nat
import Mathlib.Data.List.Nodup
import Mathlib.Tactic.Common

namespace EffectMachine

/-! ### Cells -/

namespace Cells

/-- A cell reads as the array does, and as unset past its end. -/
lemma cell_eq_getD (s : Cells) (i : Nat) : s.cell i = (s[i]?).getD .nil := by
  rw [cell, Array.getD_eq_getD_getElem?]

lemma cell_setIfInBounds (s : Cells) (i j : Nat) (v : Value) :
    cell (s.setIfInBounds i v) j = if i = j ∧ i < s.size then v else s.cell j := by
  rw [cell_eq_getD, cell_eq_getD, Array.getElem?_setIfInBounds]
  by_cases h : i = j ∧ i < s.size
  · obtain ⟨rfl, hi⟩ := h
    simp [hi]
  · -- nothing is written, and a cell outside reads as unset before and after
    rw [if_neg h]
    by_cases hij : i = j
    · subst hij
      have hi : ¬ i < s.size := fun hi => h ⟨rfl, hi⟩
      simp [hi]
    · rw [if_neg hij]

lemma cell_overwrite (s : Cells) (start : Nat) (vs : List Value) (i : Nat) :
    (s.overwrite start vs).cell i =
      if start ≤ i ∧ i < start + vs.length ∧ i < s.size then (vs[i - start]?).getD .nil
      else s.cell i := by
  rw [cell_eq_getD, getElem?_overwrite, cell_eq_getD]
  split <;> rfl

lemma cell_copyFrom (s : Cells) (start : Nat) (source : Cells) (offset count i : Nat) :
    (s.copyFrom start source offset count).cell i =
      if start ≤ i ∧ i < start + count ∧ i < s.size then source.cell (offset + (i - start))
      else s.cell i := by
  induction count generalizing s start offset with
  | zero => rw [copyFrom, if_neg (by omega)]
  | succ count ih =>
      rw [copyFrom, ih, Array.size_setIfInBounds, cell_setIfInBounds]
      by_cases h : start + 1 ≤ i ∧ i < start + 1 + count ∧ i < s.size
      · rw [if_pos h, if_pos (by omega), show offset + 1 + (i - (start + 1)) = offset + (i - start)
          by omega]
      · rw [if_neg h]
        by_cases hi : start = i ∧ start < s.size
        · obtain ⟨rfl, hs⟩ := hi
          rw [if_pos ⟨rfl, hs⟩, if_pos (by omega), Nat.sub_self, Nat.add_zero]
        · rw [if_neg hi, if_neg (by omega)]

/-- The cells of a range, read one by one. -/
lemma getElem?_extract_toList (s : Cells) (start count i : Nat) (h : start + count ≤ s.size) :
    (s.extract start (start + count)).toList[i]? =
      if i < count then some (s.cell (start + i)) else none := by
  rw [Array.getElem?_toList, Array.getElem?_extract]
  by_cases hi : i < count
  · rw [if_pos (by omega), if_pos hi, cell_eq_getD,
      Array.getElem?_eq_getElem (by omega : start + i < s.size), Option.getD_some]
  · rw [if_neg (by omega), if_neg hi]

end Cells

/-! ### Laid out objects -/

/-- The number of fields that the objects of each class have. -/
abbrev Layout := ClassId → Nat

/-- An object: the word where it starts, and its class. -/
abbrev Object := Nat × ClassId

namespace Layout

variable (L : Layout)

/-- The number of words that objects of the given classes take. -/
def total (cs : List ClassId) : Nat := (cs.map L).sum

/-- The objects of the given classes, laid out from the word `base` on. -/
def objectsFrom : Nat → List ClassId → List Object
  | _, [] => []
  | base, c :: cs => (base, c) :: objectsFrom (base + L c) cs

/-- The objects of the given classes, laid out from the first word on. -/
def objects (cs : List ClassId) : List Object := L.objectsFrom 0 cs

@[simp] lemma total_nil : L.total [] = 0 := rfl

@[simp] lemma total_cons (c : ClassId) (cs : List ClassId) :
    L.total (c :: cs) = L c + L.total cs := List.sum_cons

@[simp] lemma total_append (cs ds : List ClassId) :
    L.total (cs ++ ds) = L.total cs + L.total ds := by
  rw [total, List.map_append, List.sum_append, total, total]

lemma objectsFrom_append (base : Nat) (cs ds : List ClassId) :
    L.objectsFrom base (cs ++ ds) =
      L.objectsFrom base cs ++ L.objectsFrom (base + L.total cs) ds := by
  induction cs generalizing base with
  | nil => rfl
  | cons c cs ih =>
      rw [List.cons_append, objectsFrom, ih, objectsFrom, total_cons, List.cons_append,
        Nat.add_assoc]

lemma objects_append_singleton (cs : List ClassId) (c : ClassId) :
    L.objects (cs ++ [c]) = L.objects cs ++ [(L.total cs, c)] := by
  rw [objects, objectsFrom_append, Nat.zero_add]
  rfl

variable {L}

lemma bounds_of_mem_objectsFrom {base : Nat} {cs : List ClassId} {t : Object}
    (h : t ∈ L.objectsFrom base cs) :
    base ≤ t.1 ∧ t.1 + L t.2 ≤ base + L.total cs := by
  induction cs generalizing base with
  | nil => cases h
  | cons c cs ih =>
      rw [total_cons]
      rcases List.mem_cons.mp h with rfl | h
      · dsimp only
        omega
      · have := ih h
        omega

lemma end_le_of_mem_objects {cs : List ClassId} {t : Object} (h : t ∈ L.objects cs) :
    t.1 + L t.2 ≤ L.total cs := by
  have := bounds_of_mem_objectsFrom h
  omega

lemma class_mem_of_mem_objectsFrom {base : Nat} {cs : List ClassId} {t : Object}
    (h : t ∈ L.objectsFrom base cs) : t.2 ∈ cs := by
  induction cs generalizing base with
  | nil => cases h
  | cons c cs ih =>
      rcases List.mem_cons.mp h with rfl | h
      · exact List.mem_cons_self
      · exact List.mem_cons_of_mem _ (ih h)

/-- Two laid out objects are one and the same, or one ends before the other
starts. -/
lemma eq_or_apart {base : Nat} {cs : List ClassId} {t u : Object}
    (ht : t ∈ L.objectsFrom base cs) (hu : u ∈ L.objectsFrom base cs) :
    t = u ∨ t.1 + L t.2 ≤ u.1 ∨ u.1 + L u.2 ≤ t.1 := by
  induction cs generalizing base with
  | nil => cases ht
  | cons c cs ih =>
      rcases List.mem_cons.mp ht with rfl | ht
      · rcases List.mem_cons.mp hu with rfl | hu
        · exact .inl rfl
        · exact .inr (.inl (bounds_of_mem_objectsFrom hu).1)
      · rcases List.mem_cons.mp hu with rfl | hu
        · exact .inr (.inr (bounds_of_mem_objectsFrom ht).1)
        · exact ih ht hu

lemma exists_of_lt_total {base : Nat} {cs : List ClassId} {i : Nat} (hlo : base ≤ i)
    (hhi : i < base + L.total cs) : ∃ t ∈ L.objectsFrom base cs, t.1 ≤ i ∧ i < t.1 + L t.2 := by
  induction cs generalizing base with
  | nil =>
      rw [total_nil] at hhi
      omega
  | cons c cs ih =>
      rw [total_cons] at hhi
      by_cases h : i < base + L c
      · exact ⟨(base, c), List.mem_cons_self, hlo, h⟩
      · obtain ⟨t, ht, hi⟩ := ih (by omega : base + L c ≤ i) (by omega)
        exact ⟨t, List.mem_cons_of_mem _ ht, hi⟩

/-- The sizes of laid out objects add up to the words that they take. -/
lemma sum_map_objectsFrom (base : Nat) (cs : List ClassId) :
    ((L.objectsFrom base cs).map fun t => L t.2).sum = L.total cs := by
  induction cs generalizing base with
  | nil => rfl
  | cons c cs ih => rw [objectsFrom, List.map_cons, List.sum_cons, ih, total_cons]

/-- Different laid out objects take together no more words than all of
them. -/
lemma total_le_of_subset {cs : List ClassId} {ts : List Object} (hnd : ts.Nodup)
    (hsub : ∀ t ∈ ts, t ∈ L.objects cs) : L.total (ts.map Prod.snd) ≤ L.total cs := by
  obtain ⟨us, hperm, hus⟩ := List.subperm_of_subset hnd (fun t ht => hsub t ht)
  calc L.total (ts.map Prod.snd) = (ts.map fun t => L t.2).sum := by
        rw [total, List.map_map]
        rfl
    _ = (us.map fun t => L t.2).sum := ((hperm.map _).sum_eq).symm
    _ ≤ ((L.objects cs).map fun t => L t.2).sum :=
        (hus.map _).sum_le_sum fun _ _ => Nat.zero_le _
    _ = L.total cs := sum_map_objectsFrom 0 cs

/-- Every object has at least one word, so two of them that start at one word
are the same. -/
lemma eq_of_start_eq {cs : List ClassId} (hpos : ∀ c ∈ cs, 0 < L c) {t u : Object}
    (ht : t ∈ L.objects cs) (hu : u ∈ L.objects cs) (h : t.1 = u.1) : t = u := by
  have h₁ := hpos _ (class_mem_of_mem_objectsFrom ht)
  have h₂ := hpos _ (class_mem_of_mem_objectsFrom hu)
  rcases eq_or_apart ht hu with h' | h' | h'
  · exact h'
  · omega
  · omega

/-! ### Partitions -/

/-- The objects cut the first `top` words into pieces: every object has a word
and ends among them, and every word belongs to exactly one object. -/
structure Partitions (L : Layout) (top : Nat) (ts : List Object) : Prop where
  pos : ∀ t ∈ ts, 0 < L t.2
  within : ∀ t ∈ ts, t.1 + L t.2 ≤ top
  cover : ∀ i < top, ∃! t, t ∈ ts ∧ t.1 ≤ i ∧ i < t.1 + L t.2

/-- Laid out objects are a partition of the words that they take. -/
lemma partitions_objects {cs : List ClassId} (hpos : ∀ c ∈ cs, 0 < L c) :
    L.Partitions (L.total cs) (L.objects cs) where
  pos t ht := hpos _ (class_mem_of_mem_objectsFrom ht)
  within _ ht := end_le_of_mem_objects ht
  cover i hi := by
    obtain ⟨t, ht, hti⟩ := exists_of_lt_total (Nat.zero_le i) (by omega : i < 0 + L.total cs)
    refine ⟨t, ⟨ht, hti⟩, fun u ⟨hu, hui⟩ => ?_⟩
    rcases eq_or_apart hu ht with h | h | h
    · exact h
    · omega
    · omega

end Layout

/-! ### Sound values and heaps -/

namespace Value

/-- The object that a value of a class with fields names. -/
def object (v : Value) : Object := (v.offset, v.tag)

/-- The value is inline, or it names one of the objects. -/
def Within (L : Layout) (ts : List Object) (v : Value) : Prop := 0 < L v.tag → v.object ∈ ts

/-- A value that makes sense among objects of the given classes: it does not
carry the marker of collections, and if its class has fields then it names one
of the objects. -/
structure Sound (L : Layout) (cs : List ClassId) (v : Value) : Prop where
  ordinary : v.tag ≠ .forwarded
  names : 0 < L v.tag → v.object ∈ L.objects cs

variable {L : Layout} {cs : List ClassId}

lemma Sound.inline {v : Value} (hv : v.tag ≠ .forwarded) (h : L v.tag = 0) : v.Sound L cs :=
  ⟨hv, fun hpos => absurd h (Nat.ne_of_gt hpos)⟩

lemma Sound.append {v : Value} (h : v.Sound L cs) (ds : List ClassId) : v.Sound L (cs ++ ds) where
  ordinary := h.ordinary
  names hpos := by
    rw [Layout.objects, Layout.objectsFrom_append]
    exact List.mem_append_left _ (h.names hpos)

end Value

/-- A heap whose words in use are objects of the given classes, all words in
use holding sound values. Offsets have 32 bits, so the spaces are bounded. -/
structure Heap.Sound (L : Layout) (cs : List ClassId) (h : Heap) : Prop where
  pos : ∀ c ∈ cs, 0 < L c
  top : h.top = L.total cs
  room : h.top ≤ h.front.size
  twin : h.back.size = h.front.size
  small : h.front.size ≤ 2 ^ 32
  words : ∀ i < h.top, (h.front.cell i).Sound L cs

namespace Heap.Sound

variable {L : Layout} {cs : List ClassId} {h : Heap}

lemma fresh {words : Nat} (hw : words ≤ 2 ^ 32) : (Heap.fresh words).Sound L [] where
  pos c hc := by cases hc
  top := rfl
  room := Nat.zero_le _
  twin := by simp [Heap.fresh]
  small := by simpa [Heap.fresh] using hw
  words i hi := absurd hi (Nat.not_lt_zero i)

/-- An object that a sound value names lies inside the words in use. -/
lemma end_le (hs : h.Sound L cs) {t : Object} (ht : t ∈ L.objects cs) : t.1 + L t.2 ≤ h.top := by
  rw [hs.top]
  exact Layout.end_le_of_mem_objects ht

/-- Writing a sound value into a sound heap leaves it sound. -/
lemma write (hs : h.Sound L cs) (i : Nat) {v : Value} (hv : v.Sound L cs) :
    (h.write i v).Sound L cs where
  pos := hs.pos
  top := hs.top
  room := by simpa [Heap.write] using hs.room
  twin := by simpa [Heap.write] using hs.twin
  small := by simpa [Heap.write] using hs.small
  words j hj := by
    rw [Heap.write, Cells.cell_setIfInBounds]
    split
    · exact hv
    · exact hs.words j hj

end Heap.Sound

namespace Heap

@[simp] lemma top_bump (cls : ClassId) (fields : List Value) (h : Heap) :
    (h.bump cls fields).2.top = h.top + fields.length := rfl

@[simp] lemma back_bump (cls : ClassId) (fields : List Value) (h : Heap) :
    (h.bump cls fields).2.back = h.back := rfl

@[simp] lemma size_front_bump (cls : ClassId) (fields : List Value) (h : Heap) :
    (h.bump cls fields).2.front.size = h.front.size := Cells.size_overwrite _ _ _

/-- The words after an object has been placed where there is room for it. -/
lemma cell_bump (cls : ClassId) {fields : List Value} {h : Heap} (htop : h.top ≤ h.front.size)
    (hroom : fields.length ≤ h.available) (j : Nat) :
    (h.bump cls fields).2.front.cell j =
      if h.top ≤ j ∧ j < h.top + fields.length then (fields[j - h.top]?).getD .nil
      else h.front.cell j := by
  rw [available, capacity] at hroom
  have hfront : (h.bump cls fields).2.front = h.front.overwrite h.top fields := rfl
  rw [hfront, Cells.cell_overwrite]
  by_cases hj : h.top ≤ j ∧ j < h.top + fields.length
  · rw [if_pos ⟨hj.1, hj.2, by omega⟩, if_pos hj]
  · rw [if_neg (by omega), if_neg hj]

lemma Sound.bump {L : Layout} {cs : List ClassId} {h : Heap} (hs : h.Sound L cs) {cls : ClassId}
    {fields : List Value} (hfields : ∀ v ∈ fields, v.Sound L cs) (hlen : fields.length = L cls)
    (hpos : 0 < fields.length) (hroom : fields.length ≤ h.available) :
    (h.bump cls fields).2.Sound L (cs ++ [cls]) where
  pos c hc := by
    rcases List.mem_append.mp hc with hc | hc
    · exact hs.pos c hc
    · rw [List.mem_singleton.mp hc]
      omega
  top := by
    have := hs.top
    simp only [top_bump, Layout.total_append, Layout.total_cons, Layout.total_nil]
    omega
  room := by
    have := hs.room
    rw [available, capacity] at hroom
    rw [top_bump, size_front_bump]
    omega
  twin := by rw [back_bump, size_front_bump, hs.twin]
  small := by rw [size_front_bump]; exact hs.small
  words j hj := by
    rw [top_bump] at hj
    rw [cell_bump cls hs.room hroom]
    by_cases hlt : j < h.top
    · rw [if_neg (by omega)]
      exact (hs.words j hlt).append _
    · have hj' : j - h.top < fields.length := by omega
      rw [if_pos (by omega), List.getElem?_eq_getElem hj', Option.getD_some]
      exact (hfields _ (List.getElem_mem hj')).append _

/-! ### What collections and allocations come to -/

section Outcomes

variable {L : Layout} {ρ : Type} {R : Roots ρ} {h h' : Heap} {holder holder' : ρ} {cls : ClassId}
  {pending pending' fields fields' : List Value}

/-- A collection that succeeds has forwarded the roots, then the pending values, and
then the copied words. -/
lemma collectWith_eq_ok (hc : collectWith L R pending (h, holder) = .ok pending' (h', holder')) :
    ∃ c₁ roots c₂ c,
      Collection.forwardFrom L [] (R.get holder) ⟨h.front, h.top, h.back, 0⟩ =
        .ok () (c₁, roots) ∧
      Collection.forwardFrom L [] pending c₁ = .ok () (c₂, pending') ∧
      Collection.scanFrom L c₂.target.size 0 c₂ = .ok () c ∧
      h' = ⟨c.target, c.source, c.top, h.stats.recordCollection h.top c.top⟩ ∧
      holder' = R.set holder roots := by
  obtain ⟨front, back, top, stats⟩ := h
  rw [collectWith] at hc
  dsimp only at hc
  split at hc
  · cases hc
  · rename_i c₁ roots hroots
    split at hc
    · cases hc
    · rename_i c₂ pending₂ hpending
      split at hc
      · cases hc
      · rename_i c hscan
        cases hc
        exact ⟨c₁, roots, c₂, c, hroots, hpending, hscan, rfl, rfl⟩

lemma alloc_of_length_zero (hzero : fields.length = 0) :
    alloc L R cls fields (h, holder) = .ok (⟨cls, 0⟩, fields) (h, holder) := by
  rw [alloc]
  dsimp only
  rw [if_pos hzero]

lemma alloc_of_room (hpos : 0 < fields.length) (hroom : fields.length ≤ h.available) :
    alloc L R cls fields (h, holder) =
      .ok ((h.bump cls fields).1, fields) ((h.bump cls fields).2, holder) := by
  rw [alloc]
  dsimp only
  rw [if_neg (by omega), if_pos hroom]

lemma alloc_of_collectWith (hpos : 0 < fields.length) (hroom : ¬fields.length ≤ h.available)
    (hcollect : collectWith L R fields (h, holder) = .ok fields' (h', holder')) :
    alloc L R cls fields (h, holder) =
      if fields.length ≤ h'.available then
        .ok ((h'.bump cls fields').1, fields') ((h'.bump cls fields').2, holder')
      else .error (.outOfMemory fields.length h'.available) (h', holder') := by
  rw [alloc]
  dsimp only
  rw [if_neg (by omega), if_neg hroom, hcollect]

lemma alloc_of_collectWith_error {e : Fault} {s : Rooted ρ} (hpos : 0 < fields.length)
    (hroom : ¬fields.length ≤ h.available)
    (hcollect : collectWith L R fields (h, holder) = .error e s) :
    alloc L R cls fields (h, holder) = .error e s := by
  rw [alloc]
  dsimp only
  rw [if_neg (by omega), if_neg hroom, hcollect]

/-- An allocation that succeeds has made an inline value, or has placed an object where
there was room for it at once or after a collection. -/
lemma alloc_eq_ok {x : Value × List Value} {s : Rooted ρ}
    (ha : alloc L R cls fields (h, holder) = .ok x s) :
    (fields.length = 0 ∧ x = (⟨cls, 0⟩, fields) ∧ s = (h, holder)) ∨
    (0 < fields.length ∧ fields.length ≤ h.available ∧ x = ((h.bump cls fields).1, fields) ∧
      s = ((h.bump cls fields).2, holder)) ∨
    (0 < fields.length ∧ ∃ fields' h₁ holder₁,
      collectWith L R fields (h, holder) = .ok fields' (h₁, holder₁) ∧
      fields.length ≤ h₁.available ∧ x = ((h₁.bump cls fields').1, fields') ∧
      s = ((h₁.bump cls fields').2, holder₁)) := by
  rcases Nat.eq_zero_or_pos fields.length with hzero | hpos
  · rw [alloc_of_length_zero hzero] at ha
    cases ha
    exact .inl ⟨hzero, rfl, rfl⟩
  by_cases hroom : fields.length ≤ h.available
  · rw [alloc_of_room hpos hroom] at ha
    cases ha
    exact .inr (.inl ⟨hpos, hroom, rfl, rfl⟩)
  cases hc : collectWith L R fields (h, holder) with
  | error e s' =>
    rw [alloc_of_collectWith_error hpos hroom hc] at ha
    cases ha
  | ok fields' s' =>
    rw [alloc_of_collectWith hpos hroom hc] at ha
    split at ha
    · rename_i hfits
      cases ha
      exact .inr (.inr ⟨hpos, fields', s'.1, s'.2, rfl, hfits, rfl, rfl⟩)
    · cases ha

end Outcomes

end Heap

/-! ### Laying out anew -/

section NewPlace

variable (L : Layout)

/-- The word at which the object that starts at `o` comes to stand when objects
are laid out in the order given. -/
def newPlace : List Object → Nat → Nat
  | [], _ => 0
  | t :: ts, o => if t.1 = o then 0 else L t.2 + newPlace ts o

/-- The value that names an object at its new place; an inline value stays as
it is. -/
def Value.moveTo (place : Nat → Nat) (v : Value) : Value :=
  if L v.tag = 0 then v else ⟨v.tag, UInt32.ofNat (place v.offset)⟩

variable {L}

lemma newPlace_append_of_mem {ts us : List Object} {o : Nat} (h : o ∈ ts.map Prod.fst) :
    newPlace L (ts ++ us) o = newPlace L ts o := by
  induction ts with
  | nil => cases h
  | cons t ts ih =>
      rw [List.cons_append, newPlace, newPlace]
      by_cases ht : t.1 = o
      · rw [if_pos ht, if_pos ht]
      · rw [if_neg ht, if_neg ht, ih]
        rw [List.map_cons, List.mem_cons] at h
        exact h.resolve_left fun h' => ht h'.symm

lemma newPlace_append_self {ts : List Object} {t : Object} (h : t.1 ∉ ts.map Prod.fst) :
    newPlace L (ts ++ [t]) t.1 = L.total (ts.map Prod.snd) := by
  induction ts with
  | nil => rw [List.nil_append, newPlace, if_pos rfl, List.map_nil, Layout.total_nil]
  | cons u ts ih =>
      rw [List.map_cons, List.mem_cons, not_or] at h
      rw [List.cons_append, newPlace, if_neg fun h' => h.1 h'.symm, ih h.2, List.map_cons,
        Layout.total_cons]

lemma mem_objectsFrom_newPlace {ts : List Object} (hnd : (ts.map Prod.fst).Nodup) {t : Object}
    (ht : t ∈ ts) (base : Nat) :
    (base + newPlace L ts t.1, t.2) ∈ L.objectsFrom base (ts.map Prod.snd) := by
  induction ts generalizing base with
  | nil => cases ht
  | cons u ts ih =>
      rw [List.map_cons, List.nodup_cons] at hnd
      rw [List.map_cons, Layout.objectsFrom]
      rcases List.mem_cons.mp ht with rfl | ht
      · rw [newPlace, if_pos rfl]
        exact List.mem_cons_self
      · have hne : u.1 ≠ t.1 := fun h => hnd.1 (h ▸ List.mem_map_of_mem ht)
        rw [newPlace, if_neg hne, ← Nat.add_assoc]
        exact List.mem_cons_of_mem _ (ih hnd.2 ht _)

/-- Laid out anew, an object of the list is an object at its new place. -/
lemma mem_objects_newPlace {ts : List Object} (hnd : (ts.map Prod.fst).Nodup) {t : Object}
    (ht : t ∈ ts) : (newPlace L ts t.1, t.2) ∈ L.objects (ts.map Prod.snd) := by
  have h := mem_objectsFrom_newPlace (L := L) hnd ht 0
  rwa [Nat.zero_add] at h

lemma exists_of_mem_objectsFrom_map {ts : List Object} (hnd : (ts.map Prod.fst).Nodup) {base : Nat}
    {u : Object} (hu : u ∈ L.objectsFrom base (ts.map Prod.snd)) :
    ∃ t ∈ ts, u = (base + newPlace L ts t.1, t.2) := by
  induction ts generalizing base with
  | nil => cases hu
  | cons t ts ih =>
      rw [List.map_cons, List.nodup_cons] at hnd
      rw [List.map_cons, Layout.objectsFrom] at hu
      rcases List.mem_cons.mp hu with rfl | hu
      · exact ⟨t, List.mem_cons_self, by rw [newPlace, if_pos rfl, Nat.add_zero]⟩
      · obtain ⟨t', ht', rfl⟩ := ih hnd.2 hu
        have hne : t.1 ≠ t'.1 := fun h => hnd.1 (h ▸ List.mem_map_of_mem ht')
        refine ⟨t', List.mem_cons_of_mem _ ht', ?_⟩
        rw [newPlace, if_neg hne, Nat.add_assoc]

/-- Every object laid out anew is one of the list at its new place. -/
lemma exists_of_mem_objects_map {ts : List Object} (hnd : (ts.map Prod.fst).Nodup) {u : Object}
    (hu : u ∈ L.objects (ts.map Prod.snd)) : ∃ t ∈ ts, u = (newPlace L ts t.1, t.2) := by
  obtain ⟨t, ht, rfl⟩ := exists_of_mem_objectsFrom_map hnd hu
  exact ⟨t, ht, by rw [Nat.zero_add]⟩

lemma newPlace_inj {ts : List Object} (hpos : ∀ t ∈ ts, 0 < L t.2) {t u : Object} (ht : t ∈ ts)
    (hu : u ∈ ts) (h : newPlace L ts t.1 = newPlace L ts u.1) : t.1 = u.1 := by
  induction ts with
  | nil => cases ht
  | cons s ts ih =>
      have hs := hpos s List.mem_cons_self
      rw [newPlace, newPlace] at h
      by_cases h₁ : s.1 = t.1
      · by_cases h₂ : s.1 = u.1
        · exact h₁.symm.trans h₂
        · rw [if_pos h₁, if_neg h₂] at h
          omega
      · by_cases h₂ : s.1 = u.1
        · rw [if_neg h₁, if_pos h₂] at h
          omega
        · rw [if_neg h₁, if_neg h₂] at h
          have ht' := (List.mem_cons.mp ht).resolve_left fun h' => h₁ (h' ▸ rfl)
          have hu' := (List.mem_cons.mp hu).resolve_left fun h' => h₂ (h' ▸ rfl)
          exact ih (fun x hx => hpos x (List.mem_cons_of_mem _ hx)) ht' hu' (by omega)

/-! ### Moved values -/

namespace Value

@[simp] lemma tag_moveTo (place : Nat → Nat) (v : Value) : (v.moveTo L place).tag = v.tag := by
  rw [moveTo]
  split <;> rfl

lemma moveTo_of_inline {v : Value} (h : L v.tag = 0) (place : Nat → Nat) :
    v.moveTo L place = v := if_pos h

lemma moveTo_of_pos {v : Value} (h : 0 < L v.tag) (place : Nat → Nat) :
    v.moveTo L place = ⟨v.tag, UInt32.ofNat (place v.offset)⟩ := if_neg (by omega)

/-- Two ways of laying out that agree on the object of a value move it
alike. -/
lemma moveTo_congr {v : Value} {p q : Nat → Nat} (h : 0 < L v.tag → p v.offset = q v.offset) :
    v.moveTo L p = v.moveTo L q := by
  by_cases hv : L v.tag = 0
  · rw [moveTo_of_inline hv, moveTo_of_inline hv]
  · rw [moveTo_of_pos (by omega), moveTo_of_pos (by omega), h (by omega)]

/-- A moved value names the new place, which has to fit into an offset. -/
lemma offset_moveTo {v : Value} (h : 0 < L v.tag) {place : Nat → Nat}
    (hlt : place v.offset < 2 ^ 32) : (v.moveTo L place).offset = place v.offset := by
  rw [moveTo_of_pos h, offset]
  exact UInt32.toNat_ofNat_of_lt' hlt

/-- A value whose object is laid out anew names it at its new place. -/
lemma object_moveTo {ts : List Object} (hnd : (ts.map Prod.fst).Nodup)
    (hsmall : L.total (ts.map Prod.snd) ≤ 2 ^ 32) {v : Value} (hpos : 0 < L v.tag)
    (hmem : v.object ∈ ts) :
    (v.moveTo L (newPlace L ts)).object = (newPlace L ts v.offset, v.tag) := by
  have hend := Layout.end_le_of_mem_objects (mem_objects_newPlace (L := L) hnd hmem)
  have hlt : newPlace L ts v.offset < 2 ^ 32 := by
    dsimp only [object] at hend
    omega
  rw [object, offset_moveTo hpos hlt, tag_moveTo]

lemma sound_moveTo {ts : List Object} (hnd : (ts.map Prod.fst).Nodup)
    (hsmall : L.total (ts.map Prod.snd) ≤ 2 ^ 32) {v : Value} (hv : v.tag ≠ .forwarded)
    (hmem : 0 < L v.tag → v.object ∈ ts) :
    (v.moveTo L (newPlace L ts)).Sound L (ts.map Prod.snd) where
  ordinary := by rwa [tag_moveTo]
  names hpos := by
    rw [tag_moveTo] at hpos
    rw [object_moveTo hnd hsmall hpos (hmem hpos)]
    exact mem_objects_newPlace hnd (hmem hpos)

end Value

end NewPlace

end EffectMachine
