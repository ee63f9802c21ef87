/-
The accounts of the heap.

Three counters are kept in different places: an allocation counts the words that
it places, a collection those that it keeps and those that it gives up. They are
about the same words as long as a collection keeps exactly what is reached.

* `Heap.Balanced`: every word ever allocated is in use or has been reclaimed, and
  what is in use is within the space;
* `Heap.Accounts`: what an operation does to the counters. A collection on the way
  leaves in use, and counts as copied, the words that are live;
* `Heap.Sound.collectWith_accounts`, `Heap.Sound.alloc_accounts`: collections and
  allocations, refused ones included, do this;
* `Image.Operation`: what can be asked of an image and the holder of its roots, and
  when the values in a request are valid;
* `Image.accounts_balance`: **after any sequence of operations the accounts
  balance**.
-/
import EffectMachine.Proofs.MovedValues
import EffectMachine.Proofs.StringObjects

namespace EffectMachine

namespace Heap

variable {L : Layout} {cs : List ClassId} {ρ : Type} {R : Roots ρ} {h h' : Heap}
  {holder : ρ} {pending fields : List Value}

/-! ### Counting words -/

/-- Every word that has been allocated is in use or has been reclaimed, and the
words in use are words of the space. -/
structure Balanced (h : Heap) : Prop where
  total : h.stats.totalAllocated = h.top + h.stats.totalReclaimed
  top_le : h.top ≤ h.capacity

lemma balanced_fresh (words : Nat) : (fresh words).Balanced :=
  ⟨rfl, Nat.zero_le _⟩

lemma Balanced.bump (hb : h.Balanced) (cls : ClassId) (hroom : fields.length ≤ h.available) :
    (h.bump cls fields).2.Balanced where
  total := by
    have htotal := hb.total
    have hcount : (h.bump cls fields).2.stats.totalAllocated =
      h.stats.totalAllocated + fields.length := rfl
    have hreclaimed : (h.bump cls fields).2.stats.totalReclaimed = h.stats.totalReclaimed := rfl
    rw [hcount, hreclaimed, top_bump]
    omega
  top_le := by
    have hcapacity : (h.bump cls fields).2.capacity = h.capacity := size_front_bump ..
    rw [hcapacity, top_bump]
    exact (le_available_iff hb.top_le).mp hroom

/-- What a collection gives up it counts as reclaimed. -/
lemma Balanced.collected (hb : h.Balanced)
    (hstats : h'.stats = h.stats.recordCollection h.top h'.top) (htop : h'.top ≤ h.top)
    (hcapacity : h'.capacity = h.capacity) : h'.Balanced where
  total := by
    have htotal := hb.total
    rw [hstats]
    simp only [Stats.recordCollection]
    omega
  top_le := by
    rw [hcapacity]
    exact htop.trans hb.top_le

/-- What an operation, with values pending, does to the counters of a heap. Those
of allocated words and of collections never decrease. If it has collected, then
right after the collection the words in use were those copied and those live, and
it has placed behind them what it has allocated since. -/
structure Accounts (L : Layout) (R : Roots ρ) (pending : List Value) (s : Rooted ρ) (h' : Heap) :
    Prop where
  balanced : s.1.Balanced → h'.Balanced
  capacity : h'.capacity = s.1.capacity
  allocated : s.1.stats.totalAllocated ≤ h'.stats.totalAllocated
  collections : s.1.stats.collections ≤ h'.stats.collections
  collected : s.1.stats.collections < h'.stats.collections → ∃ pending' h₁ holder₁,
    collectWith L R pending s = .ok pending' (h₁, holder₁) ∧
    s.1.Live L (R.get s.2 ++ pending) h₁.top ∧ h₁.stats.lastCopied = h₁.top ∧
    h'.stats.collections = s.1.stats.collections + 1 ∧ h'.stats.lastCopied = h₁.top ∧
    h'.top = h₁.top + (h'.stats.totalAllocated - s.1.stats.totalAllocated)

/-- An operation that neither places nor collects. -/
lemma Accounts.of_same {s : Rooted ρ} (htop : h'.top = s.1.top)
    (hcapacity : h'.capacity = s.1.capacity) (hstats : h'.stats = s.1.stats) :
    Accounts L R pending s h' where
  balanced hb := ⟨by rw [hstats, htop, hb.total], by rw [htop, hcapacity]; exact hb.top_le⟩
  capacity := hcapacity
  allocated := by rw [hstats]
  collections := by rw [hstats]
  collected hlt := by
    rw [hstats] at hlt
    exact absurd hlt (Nat.lt_irrefl _)

/-- An object placed after the rest of an operation. -/
lemma Accounts.bump {s : Rooted ρ} (ha : Accounts L R pending s h') (cls : ClassId)
    (hroom : fields.length ≤ h'.available) : Accounts L R pending s (h'.bump cls fields).2 where
  balanced hb := (ha.balanced hb).bump cls hroom
  capacity := (size_front_bump cls fields h').trans ha.capacity
  allocated := Nat.le_add_right_of_le ha.allocated
  collections := ha.collections
  collected hlt := by
    obtain ⟨pending', h₁, holder₁, hcollect, hlive, hcopied, hcount, hlast, htop⟩ :=
      ha.collected hlt
    refine ⟨pending', h₁, holder₁, hcollect, hlive, hcopied, hcount, hlast, ?_⟩
    have hle := ha.allocated
    have hmore : (h'.bump cls fields).2.stats.totalAllocated =
      h'.stats.totalAllocated + fields.length := rfl
    rw [top_bump, hmore]
    omega

/-- A collection of a sound heap leaves the live words in use, and no more than
were in use before. -/
lemma Sound.exists_collectWith_live (hs : h.Sound L cs)
    (hvs : ∀ v ∈ R.get holder ++ pending, v.Sound L cs) :
    ∃ pending' h₁ holder₁, collectWith L R pending (h, holder) = .ok pending' (h₁, holder₁) ∧
      h.Live L (R.get holder ++ pending) h₁.top ∧ h₁.top ≤ h.top ∧ h₁.capacity = h.capacity ∧
      h₁.stats = h.stats.recordCollection h.top h₁.top ∧ pending'.length = pending.length := by
  obtain ⟨kept, h₁, hcollect, hrel, hstats, hreaches, -⟩ := collectWith_relocated hs
    (fun v hv => hvs v (List.mem_append_left _ hv))
    fun v hv => hvs v (List.mem_append_right _ hv)
  have hnodup : kept.Nodup := List.Nodup.of_map _ hrel.once
  refine ⟨_, h₁, _, hcollect, ⟨kept, hnodup, hreaches, ?_⟩, ?_, hrel.capacity, hstats,
    List.length_map _⟩
  · rw [hrel.sound.top, Layout.total, List.map_map]
    rfl
  · rw [hrel.sound.top, hs.top]
    exact Layout.total_le_of_subset hnodup hrel.objects

/-- **A collection** keeps the accounts. -/
lemma Sound.collectWith_accounts (hs : h.Sound L cs)
    (hvs : ∀ v ∈ R.get holder ++ pending, v.Sound L cs) :
    ∃ pending' h₁ holder₁, collectWith L R pending (h, holder) = .ok pending' (h₁, holder₁) ∧
      pending'.length = pending.length ∧ h₁.stats.collections = h.stats.collections + 1 ∧
      Accounts L R pending (h, holder) h₁ := by
  obtain ⟨pending', h₁, holder₁, hcollect, hlive, htop, hcapacity, hstats, hlength⟩ :=
    hs.exists_collectWith_live hvs
  have hallocated : h₁.stats.totalAllocated = h.stats.totalAllocated := by rw [hstats]; rfl
  have hcollections : h₁.stats.collections = h.stats.collections + 1 := by rw [hstats]; rfl
  have hlast : h₁.stats.lastCopied = h₁.top := by rw [hstats]; rfl
  refine ⟨pending', h₁, holder₁, hcollect, hlength, hcollections,
    fun hb => hb.collected hstats htop hcapacity, hcapacity, Nat.le_of_eq hallocated.symm,
    hcollections ▸ Nat.le_succ _, fun _ => ?_⟩
  refine ⟨pending', h₁, holder₁, hcollect, hlive, hlast, hcollections, hlast, ?_⟩
  rw [hallocated, Nat.sub_self, Nat.add_zero]

/-- **An allocation** keeps the accounts, also if it is refused. -/
lemma Sound.alloc_accounts (hs : h.Sound L cs)
    (hvs : ∀ v ∈ R.get holder ++ fields, v.Sound L cs) (cls : ClassId) :
    Accounts L R fields (h, holder) (Fault.left (alloc L R cls fields (h, holder))).1 := by
  have hself : Accounts L R fields (h, holder) h := .of_same rfl rfl rfl
  by_cases hzero : fields.length = 0
  · rw [alloc_of_length_zero hzero]
    exact hself
  have hpos : 0 < fields.length := Nat.pos_of_ne_zero hzero
  by_cases hroom : fields.length ≤ h.available
  · rw [alloc_of_room hpos hroom]
    exact hself.bump cls hroom
  obtain ⟨fields', h₁, holder₁, hcollect, hlength, -, hcollected⟩ := hs.collectWith_accounts hvs
  rw [alloc_of_collectWith hpos hroom hcollect]
  by_cases hfits : fields.length ≤ h₁.available
  · rw [if_pos hfits]
    rw [← hlength] at hfits
    exact hcollected.bump cls hfits
  · rw [if_neg hfits]
    exact hcollected

end Heap

/-! ### Operations on images -/

namespace Image

variable {P : Program} {ρ : Type} {R : Roots ρ} {p : Image} {s : Rooted ρ}

/-- The heap of an image with all its roots. -/
def rootedHeap (s : Rooted ρ) : Heap.Rooted (Array Value × ρ) := (s.1.heap, (s.1.globals, s.2))

/-- What can be asked of an image and the holder of its roots. -/
inductive Operation (ρ : Type) where
  | alloc (cls : ClassId) (fields : List Value)
  | setField (v : Value) (index : Nat) (w : Value)
  | setGlobal (index : UInt32) (v : Value)
  | setRoots (holder : ρ)
  | collect

namespace Operation

/-- What an operation leaves, whether or not it succeeds. -/
def perform (P : Program) (R : Roots ρ) : Operation ρ → Rooted ρ → Rooted ρ
  | alloc cls fields, s => Fault.left (Image.alloc P R cls fields s)
  | setField v index w, (p, holder) => (Fault.left (Image.setField P v index w p), holder)
  | setGlobal index v, (p, holder) => (Fault.left (Image.setGlobal index v p), holder)
  | setRoots holder, (p, _) => (p, holder)
  | collect, s => Fault.left (Image.collect P R s)

/-- The values that count as roots while an operation is performed. -/
def pending : Operation ρ → List Value
  | alloc _ fields => fields
  | _ => []

/-- The values of an operation are valid, beside those that the image and the holder
of its roots have. -/
def Valid (P : Program) (R : Roots ρ) : Operation ρ → Rooted ρ → Prop
  | alloc _ fields, s => s.1.Valid P (R.get s.2 ++ fields)
  | setField v _ w, s => s.1.Valid P (R.get s.2 ++ [v, w])
  | setGlobal _ v, s => s.1.Valid P (R.get s.2 ++ [v])
  | setRoots holder, s => s.1.Valid P (R.get holder)
  | collect, s => s.1.Valid P (R.get s.2)

/-- What a sequence of operations leaves. -/
def run (P : Program) (R : Roots ρ) (ops : List (Operation ρ)) (s : Rooted ρ) : Rooted ρ :=
  ops.foldl (fun s op => op.perform P R s) s

/-- The values of each operation of a sequence are valid when it is performed. -/
def RunValid (P : Program) (R : Roots ρ) : List (Operation ρ) → Rooted ρ → Prop
  | [], _ => True
  | op :: ops, s => op.Valid P R s ∧ RunValid P R ops (op.perform P R s)

end Operation

lemma heap_left_alloc {cls : ClassId} {fields : List Value}
    (hlen : fields.length = P.fieldCount cls) :
    (Fault.left (alloc P R cls fields s)).1.heap =
      (Fault.left (Heap.alloc P.fieldCount (Roots.array.pair R) cls fields (rootedHeap s))).1 := by
  obtain ⟨⟨globals, heap, journal⟩, holder⟩ := s
  rw [alloc, if_pos hlen]
  simp only [bind, EStateM.bind, tracing, rootedHeap]
  cases Heap.alloc P.fieldCount (Roots.array.pair R) cls fields (heap, (globals, holder)) with
  | ok x s => rfl
  | error e s => rfl

lemma heap_left_collect :
    (Fault.left (collect P R s)).1.heap =
      (Fault.left (Heap.collectWith P.fieldCount (Roots.array.pair R) [] (rootedHeap s))).1 := by
  obtain ⟨⟨globals, heap, journal⟩, holder⟩ := s
  rw [collect, tracing, ← Heap.left_collect]
  simp only [rootedHeap]
  cases Heap.collect P.fieldCount (Roots.array.pair R) (heap, (globals, holder)) with
  | ok x s => rfl
  | error e s => rfl

/-- A collection of what is valid succeeds and keeps the accounts. -/
lemma Valid.collectWith_accounts (hv : s.1.Valid P (R.get s.2)) :
    ∃ pending' h₁ holder₁,
      Heap.collectWith P.fieldCount (Roots.array.pair R) [] (rootedHeap s) =
        .ok pending' (h₁, holder₁) ∧
      h₁.stats.collections = s.1.heap.stats.collections + 1 ∧
      Heap.Accounts P.fieldCount (Roots.array.pair R) [] (rootedHeap s) h₁ := by
  obtain ⟨cs, hs, hvs⟩ := hv
  have hvs' : ∀ v ∈ (Roots.array.pair R).get (s.1.globals, s.2) ++ [],
      v.Sound P.fieldCount cs := by
    rw [List.append_nil]
    exact hvs
  obtain ⟨pending', h₁, holder₁, hcollect, -, hcollections, haccounts⟩ :=
    hs.collectWith_accounts hvs'
  exact ⟨pending', h₁, holder₁, hcollect, hcollections, haccounts⟩

lemma Valid.exists_collect (hv : s.1.Valid P (R.get s.2)) :
    ∃ s', collect P R s = .ok () s' ∧
      s'.1.heap.stats.collections = s.1.heap.stats.collections + 1 := by
  obtain ⟨pending', h₁, holder₁, hcollect, hcollections, -⟩ := hv.collectWith_accounts
  obtain ⟨⟨globals, heap, journal⟩, holder⟩ := s
  rw [rootedHeap] at hcollect
  rw [collect, tracing]
  simp only [Heap.collect, bind, EStateM.bind, hcollect]
  exact ⟨_, rfl, hcollections⟩

namespace Operation

variable {op : Operation ρ}

/-- **One operation** on valid values keeps the accounts. -/
lemma Valid.accounts (hv : op.Valid P R s) :
    Heap.Accounts P.fieldCount (Roots.array.pair R) op.pending (rootedHeap s)
      (op.perform P R s).1.heap := by
  obtain ⟨p, holder⟩ := s
  cases op with
  | alloc cls fields =>
    obtain ⟨cs, hs, hvs⟩ := hv
    rw [← List.append_assoc] at hvs
    by_cases hlen : fields.length = P.fieldCount cls
    · rw [perform, heap_left_alloc hlen]
      exact hs.alloc_accounts hvs cls
    · rw [perform, alloc_of_length_ne hlen]
      exact .of_same rfl rfl rfl
  | collect =>
    obtain ⟨pending', h₁, holder₁, hcollect, -, haccounts⟩ := Image.Valid.collectWith_accounts hv
    rw [perform, heap_left_collect, hcollect]
    exact haccounts
  | setField v index w =>
    rw [perform]
    rcases left_setField P v index w p with hsame | ⟨-, hwrite⟩
    · rw [hsame]
      exact .of_same rfl rfl rfl
    · rw [hwrite]
      exact .of_same rfl Array.size_setIfInBounds rfl
  | setGlobal index v =>
    rw [perform, Image.setGlobal]
    split
    · exact .of_same rfl rfl rfl
    · exact .of_same rfl rfl rfl
  | setRoots holder' => exact .of_same rfl rfl rfl

/-- One operation on valid values leaves all valid. -/
lemma Valid.perform (hv : op.Valid P R s) :
    (op.perform P R s).1.Valid P (R.get (op.perform P R s).2) := by
  obtain ⟨p, holder⟩ := s
  cases op with
  | alloc cls fields =>
    obtain ⟨place, hl, -⟩ := alloc_leaves hv cls
    exact hl.valid
  | collect =>
    obtain ⟨place, hl⟩ := collect_leaves hv
    exact hl.valid
  | setField v index w =>
    have hroots : p.Valid P (R.get holder) := Image.Valid.mono hv (List.subset_append_left _ _)
    rw [Operation.perform]
    rcases left_setField P v index w p with hsame | ⟨-, hwrite⟩
    · rw [hsame]
      exact hroots
    · rw [hwrite]
      obtain ⟨cs, hs, hvs⟩ := hv
      refine ⟨cs, hs.write _ (hvs w (by simp)), fun u hu => hvs u ?_⟩
      rw [← List.append_assoc]
      exact List.mem_append_left _ hu
  | setGlobal index v =>
    have hroots : p.Valid P (R.get holder) := Image.Valid.mono hv (List.subset_append_left _ _)
    rw [Operation.perform, Image.setGlobal]
    split
    · obtain ⟨cs, hs, hvs⟩ := hv
      refine ⟨cs, hs, fun u hu => hvs u ?_⟩
      change u ∈ (p.globals.setIfInBounds index.toNat v).toList ++ R.get holder at hu
      rw [Array.toList_setIfInBounds] at hu
      rcases List.mem_append.mp hu with hu | hu
      · rcases List.mem_or_eq_of_mem_set hu with hu | rfl
        · exact List.mem_append_left _ hu
        · simp
      · exact List.mem_append_right _ (List.mem_append_left _ hu)
    · exact hroots
  | setRoots holder' => exact hv

/-- The invariant of a sequence: the accounts balance, and all is valid. -/
lemma RunValid.balanced {ops : List (Operation ρ)} (hops : RunValid P R ops s)
    (hb : s.1.heap.Balanced) (hv : s.1.Valid P (R.get s.2)) :
    (run P R ops s).1.heap.Balanced ∧
      (run P R ops s).1.heap.capacity = s.1.heap.capacity ∧
      (run P R ops s).1.Valid P (R.get (run P R ops s).2) := by
  induction ops generalizing s with
  | nil => exact ⟨hb, rfl, hv⟩
  | cons op ops ih =>
    obtain ⟨hop, hops⟩ := hops
    have haccounts := hop.accounts
    obtain ⟨hb', hcapacity, hv'⟩ := ih hops (haccounts.balanced hb) hop.perform
    exact ⟨hb', hcapacity.trans haccounts.capacity, hv'⟩

/-- The values of the two allocations that make a string are valid. -/
def StringValid (P : Program) (R : Roots ρ) (text : String) (s : Rooted ρ) : Prop :=
  s.1.Valid P (R.get s.2 ++ P.byteValues text) ∧
    ∀ cls array s₁, P.builtins.get? .string = some cls →
      Image.alloc P R (.array (P.byteValues text).length) (P.byteValues text) s = .ok array s₁ →
      s₁.1.Valid P (R.get s₁.2 ++ array :: List.replicate (P.fieldCount cls - 1) .nil)

/-- Making a string is a sequence of allocations. -/
lemma StringValid.exists_run {text : String} (hv : StringValid P R text s) :
    ∃ ops, RunValid P R ops s ∧ run P R ops s = Fault.left (allocString P R text s) := by
  obtain ⟨hbytes, hfields⟩ := hv
  rcases allocString_cases P R text s with ⟨e, heq⟩ | ⟨e, s₁, harray, heq⟩ |
    ⟨cls, array, s₁, hcls, -, harray, heq⟩
  · refine ⟨[], trivial, ?_⟩
    rw [heq]
    rfl
  · refine ⟨[.alloc (.array (P.byteValues text).length) (P.byteValues text)], ⟨hbytes, trivial⟩, ?_⟩
    rw [heq, run, List.foldl_cons, List.foldl_nil, perform, harray]
  · have hfirst : perform P R (.alloc (.array (P.byteValues text).length) (P.byteValues text)) s =
        s₁ := by
      rw [perform, harray]
      rfl
    refine ⟨[.alloc (.array (P.byteValues text).length) (P.byteValues text),
      .alloc cls (array :: List.replicate (P.fieldCount cls - 1) .nil)], ⟨hbytes, ?_, trivial⟩, ?_⟩
    · rw [hfirst]
      exact hfields cls array s₁ hcls harray
    · rw [heq, run, List.foldl_cons, List.foldl_cons, List.foldl_nil, hfirst]
      rfl

/-- In programs whose strings last, every string is made of valid values. -/
lemma stringValid_of_holdsText (hP : P.HoldsText) (hv : s.1.Valid P (R.get s.2)) (text : String) :
    StringValid P R text s := by
  have hbytes : ∀ e ∈ P.byteValues text, e.tag ≠ .forwarded ∧ P.fieldCount e.tag = 0 := by
    intro e he
    obtain ⟨b, -, rfl⟩ := List.mem_map.mp he
    exact ⟨hP.int_ne, hP.int⟩
  refine ⟨hv.append_inline hbytes, fun cls array s₁ hcls harray => ?_⟩
  have hnil : ∀ u ∈ List.replicate (P.fieldCount cls - 1) Value.nil,
      u.tag ≠ .forwarded ∧ P.fieldCount u.tag = 0 := by
    intro u hu
    rw [List.eq_of_mem_replicate hu]
    exact ⟨by decide, hP.unset⟩
  have hnew := (asArray_alloc hP hv hbytes harray).2.1.append_inline hnil
  rwa [List.append_assoc, List.singleton_append] at hnew

end Operation

/-- An image is valid at first, if all that it and the holder of its roots have is
inline. -/
lemma valid_fresh {options : Options} (hwords : options.heapWords ≤ 2 ^ 32) {journal : Journal}
    {vs : List Value} (hvs : ∀ v ∈ (fresh P options journal).globals.toList ++ vs,
      v.tag ≠ .forwarded ∧ P.fieldCount v.tag = 0) : (fresh P options journal).Valid P vs :=
  ⟨[], .fresh hwords, fun v hv => .inline (hvs v hv).1 (hvs v hv).2⟩

/-- **The accounts of the heap balance.** Let an image be loaded with a heap of at
most `2 ^ 32` words, nothing but inline values being held at first, and let any
sequence of allocations, writes, changes of the roots and collections follow, each
with valid values, whether or not it succeeds. Then the words allocated are those in
use and those reclaimed, the words in use are within the capacity, and all is still
valid. One further operation does not decrease the number of words allocated and the
number of collections; and if it collects, forced to or to make room, then right
after the collection the words copied are those in use, which are the words that the
roots and the pending values reach. A collection that is asked for takes place.
Making a string is such a sequence, too, always so in programs whose strings last. -/
theorem accounts_balance (P : Program) (R : Roots ρ) (options : Options)
    (hwords : options.heapWords ≤ 2 ^ 32) (journal : Journal) (holder : ρ)
    (hstart : ∀ v ∈ (fresh P options journal).globals.toList ++ R.get holder,
      v.tag ≠ .forwarded ∧ P.fieldCount v.tag = 0)
    (ops : List (Operation ρ))
    (hops : Operation.RunValid P R ops (fresh P options journal, holder)) (s : Rooted ρ)
    (hs : Operation.run P R ops (fresh P options journal, holder) = s) :
    s.1.heap.stats.totalAllocated = s.1.heap.top + s.1.heap.stats.totalReclaimed ∧
    s.1.heap.top ≤ s.1.heap.capacity ∧ s.1.heap.capacity = options.heapWords ∧
    s.1.Valid P (R.get s.2) ∧
    (∀ op : Operation ρ, op.Valid P R s →
      Heap.Accounts P.fieldCount (Roots.array.pair R) op.pending (rootedHeap s)
        (op.perform P R s).1.heap) ∧
    (∃ s', collect P R s = .ok () s' ∧
      s'.1.heap.stats.collections = s.1.heap.stats.collections + 1) ∧
    (∀ text, Operation.StringValid P R text s → ∃ ops', Operation.RunValid P R ops' s ∧
      Operation.run P R ops' s = Fault.left (allocString P R text s)) ∧
    (P.HoldsText → ∀ text, Operation.StringValid P R text s) := by
  obtain ⟨hb, hcapacity, hv⟩ :=
    hops.balanced (Heap.balanced_fresh options.heapWords) (valid_fresh hwords hstart)
  rw [hs] at hb hcapacity hv
  exact ⟨hb.total, hb.top_le, hcapacity.trans (Cells.size_fresh _), hv,
    fun op hop => hop.accounts, hv.exists_collect, fun text htext => htext.exists_run,
    fun hP text => Operation.stringValid_of_holdsText hP hv text⟩

instance (L : Layout) (cs : List ClassId) (v : Value) : Decidable (v.Sound L cs) :=
  decidable_of_iff (v.tag ≠ .forwarded ∧ (0 < L v.tag → v.object ∈ L.objects cs))
    ⟨fun h => ⟨h.1, h.2⟩, fun h => ⟨h.1, h.2⟩⟩

instance (L : Layout) (cs : List ClassId) (h : Heap) : Decidable (h.Sound L cs) :=
  decidable_of_iff ((∀ c ∈ cs, 0 < L c) ∧ h.top = L.total cs ∧ h.top ≤ h.front.size ∧
      h.back.size = h.front.size ∧ h.front.size ≤ 2 ^ 32 ∧
      ∀ i < h.top, (h.front.cell i).Sound L cs)
    ⟨fun h => ⟨h.1, h.2.1, h.2.2.1, h.2.2.2.1, h.2.2.2.2.1, h.2.2.2.2.2⟩,
      fun h => ⟨h.pos, h.top, h.room, h.twin, h.small, h.words⟩⟩

/-- In a heap of four words: a box, which becomes a root, an array, a box that holds
the first one, and an array of that box and an integer, for which room has to be
made; then an array for which there cannot be room. -/
def boxOperations : List (Operation (List Value)) :=
  [.alloc ⟨3⟩ [⟨⟨1⟩, 5⟩], .setRoots [⟨⟨3⟩, 0⟩], .alloc (.array 2) [⟨⟨1⟩, 1⟩, ⟨⟨1⟩, 2⟩],
    .alloc ⟨3⟩ [⟨⟨3⟩, 0⟩], .alloc (.array 2) [⟨⟨3⟩, 3⟩, ⟨⟨1⟩, 9⟩],
    .alloc (.array 4) [⟨⟨1⟩, 1⟩, ⟨⟨1⟩, 2⟩, ⟨⟨1⟩, 3⟩, ⟨⟨1⟩, 4⟩]]

lemma runValid_boxOperations :
    Operation.RunValid (boxProgram 0 ⟨1⟩) .list boxOperations
      (fresh (boxProgram 0 ⟨1⟩) ⟨4, 16⟩ {}, []) := by
  refine ⟨⟨[], ?_⟩, ⟨[⟨3⟩], ?_⟩, ⟨[⟨3⟩], ?_⟩, ⟨[⟨3⟩, .array 2], ?_⟩, ⟨[⟨3⟩, .array 2, ⟨3⟩], ?_⟩,
    ⟨[⟨3⟩, ⟨3⟩, .array 2], ?_⟩, trivial⟩
  all_goals decide +kernel

/-- Six words have been allocated, of which one is left after two collections; and
a third one would find it live. -/
theorem accounts_balance_boxes :
    ∃ s, Operation.run (boxProgram 0 ⟨1⟩) .list boxOperations
        (fresh (boxProgram 0 ⟨1⟩) ⟨4, 16⟩ {}, []) = s ∧
      s.1.heap.stats = ⟨2, 1, 5, 6⟩ ∧ s.1.heap.top = 1 ∧
      s.1.heap.stats.totalAllocated = s.1.heap.top + s.1.heap.stats.totalReclaimed ∧
      s.1.heap.top ≤ s.1.heap.capacity ∧
      Heap.Accounts (boxProgram 0 ⟨1⟩).fieldCount (Roots.array.pair .list) [] (rootedHeap s)
        (Operation.collect.perform (boxProgram 0 ⟨1⟩) .list s).1.heap := by
  obtain ⟨htotal, htop, -, hvalid, haccounts, -⟩ := accounts_balance (boxProgram 0 ⟨1⟩) .list
    ⟨4, 16⟩ (by decide) {} [] (by decide) boxOperations runValid_boxOperations _ rfl
  exact ⟨_, rfl, by decide +kernel, by decide +kernel, htotal, htop, haccounts .collect hvalid⟩

end Image

end EffectMachine
