/-
Images that show an object graph.

The globals are roots of every collection. With them an image shows a graph
and a reference for every global, and its operations follow those on graphs.

* `Image.Shows`: the heap of the image holds the graph, and the globals stand
  for the given references;
* `Image.Shows.field`, `Image.Shows.asArray`, `Image.Shows.setField`,
  `Image.Shows.setGlobal`: reading and writing follow the graph;
* `Image.alloc_shows`, `Image.collect_shows`: so do allocations and collections,
  whatever else holds roots.
-/
import EffectMachine.Image
import EffectMachine.Proofs.ObjectGraph

namespace EffectMachine

open EffectMachine.Graph (Ref Node)

/-- A holder that has been given other roots has both its parts updated. -/
lemma Roots.Updated.of_pair {ρ τ : Type} {R : Roots ρ} {T : Roots τ} {x y : ρ × τ}
    (h : (R.pair T).Updated x y) : R.Updated x.1 y.1 ∧ T.Updated x.2 y.2 := by
  rcases h with rfl | ⟨vs, hlen, rfl⟩
  · exact ⟨.inl rfl, .inl rfl⟩
  · have hlen' : vs.length = (R.get x.1).length + (T.get x.2).length := by
      rw [hlen, pair, List.length_append]
    refine ⟨.inr ⟨_, ?_, rfl⟩, .inr ⟨_, ?_, rfl⟩⟩
    · rw [List.length_take]
      omega
    · rw [List.length_drop]
      omega

lemma forall₂_set {α β : Type} {R : α → β → Prop} {xs : List α} {ys : List β}
    (h : List.Forall₂ R xs ys) {x : α} {y : β} (hxy : R x y) (i : Nat) :
    List.Forall₂ R (xs.set i x) (ys.set i y) := by
  induction h generalizing i with
  | nil => exact .nil
  | cons hd tl ih =>
      cases i with
      | zero => exact .cons hxy tl
      | succ i => exact .cons hd (ih i)

namespace Image

/-- The image shows the graph, its globals standing for the given references. -/
structure Shows (P : Program) (cs : List ClassId) (g : Graph) (place : Nat → Option Nat)
    (globals : List Ref) (p : Image) : Prop where
  heap : p.heap.Holds P.fieldCount cs g place
  globals : List.Forall₂ (Ref.At P.fieldCount g place) globals p.globals.toList

variable {P : Program} {cs : List ClassId} {g : Graph} {place : Nat → Option Nat}
  {globals : List Ref} {p : Image}

namespace Shows

/-- A fresh image shows the empty graph, and globals that are unset. -/
lemma fresh (hempty : P.fieldCount .empty = 0) {options : Options}
    (hwords : options.heapWords ≤ 2 ^ 32) (journal : Journal) :
    (Image.fresh P options journal).Shows P [] [] (fun _ => none)
      (List.replicate P.globalCount.toNat (.inline .nil)) where
  heap := .fresh hwords
  globals := by
    have hnil : (Ref.inline .nil).At P.fieldCount [] (fun _ => none) .nil :=
      ⟨rfl, hempty, by decide⟩
    rw [Image.fresh, Array.toList_replicate]
    generalize P.globalCount.toNat = n
    induction n with
    | zero => exact .nil
    | succ n ih => exact .cons hnil ih

/-- A field of a node stands for what the graph has there. -/
lemma field (hp : p.Shows P cs g place globals) {a i : Nat} {v : Value}
    (hv : (Ref.node a).At P.fieldCount g place v) (hi : i < P.fieldCount v.tag) :
    ∃ r w, g.field? a i = some r ∧ p.field P v i = .ok w ∧ r.At P.fieldCount g place w := by
  obtain ⟨r, w, hr, hw, -, hat⟩ := hp.heap.field hv hi
  refine ⟨r, w, hr, ?_, hat⟩
  rw [Image.field, checkField, if_pos hi]
  exact hw

/-- The elements of an array stand for the fields of its node; an array
without elements has no node. -/
lemma asArray (hp : p.Shows P cs g place globals) {r : Ref} {v : Value} {n : Nat}
    (hv : r.At P.fieldCount g place v) (hn : v.tag.arrayLength? = some n) :
    ∃ refs ws, p.asArray v = .ok ws ∧ ws.length = n ∧
      (refs = [] ∨ ∃ a nd, r = .node a ∧ g[a]? = some nd ∧ refs = nd.fields) ∧
      List.Forall₂ (Ref.At P.fieldCount g place) refs ws := by
  have hcount : P.fieldCount v.tag = n := by rw [Program.fieldCount, hn]
  rw [Image.asArray, hn]
  dsimp only
  by_cases hzero : n = 0
  · exact ⟨[], [], by rw [Heap.fields, if_pos hzero], hzero.symm, .inl rfl, .nil⟩
  · obtain ⟨a, rfl, hcls, hplace⟩ := hv.eq_node (by omega)
    obtain ⟨nd, hnd, hobj, -, hlen, hfields⟩ := hp.heap.node hplace
    rw [Graph.class?, hnd, Option.map_some, Option.some.injEq] at hcls
    have hend := hp.heap.sound.end_le hobj
    rw [hcls, hcount] at hend
    dsimp only at hend
    have hroom := hp.heap.sound.room
    have hsize : v.offset + n ≤ p.heap.front.size := by omega
    refine ⟨nd.fields, (p.heap.front.extract v.offset (v.offset + n)).toList, ?_, ?_,
      .inr ⟨a, nd, rfl, hnd, rfl⟩, List.forall₂_iff_get.mpr ⟨?_, fun i hi hi' => ?_⟩⟩
    · rw [Heap.fields, if_neg hzero, Heap.slot, Heap.slot, if_pos (by omega), if_pos (by omega)]
      rfl
    · rw [Array.length_toList, Array.size_extract]
      omega
    · rw [Array.length_toList, Array.size_extract, hlen, hcls]
      omega
    · have hin : i < n := by
        rw [hlen, hcls] at hi
        omega
      have hget := Cells.getElem?_extract_toList p.heap.front v.offset n i hsize
      rw [if_pos hin, List.getElem?_eq_getElem hi', Option.some.injEq] at hget
      rw [List.get_eq_getElem, List.get_eq_getElem, hget]
      exact hfields i _ (List.getElem?_eq_getElem hi)

lemma setField (hp : p.Shows P cs g place globals) {a i : Nat} {v w : Value} {r : Ref}
    (hv : (Ref.node a).At P.fieldCount g place v) (hi : i < P.fieldCount v.tag)
    (hw : r.At P.fieldCount g place w) :
    Image.setField P v i w p = .ok () { p with heap := p.heap.write (v.offset + i) w } ∧
      Shows P cs (g.setField a i r) place globals
        { p with heap := p.heap.write (v.offset + i) w } := by
  obtain ⟨hset, hheap⟩ := hp.heap.setField hv hi hw
  refine ⟨?_, hheap, hp.globals.imp fun _ _ hr => hr.of_class_eq fun _ _ hc => ?_⟩
  · obtain ⟨gs, heap, journal⟩ := p
    simp only [Image.setField, checkField, if_pos hi, Action.ofExcept, bind, EStateM.bind, onHeap]
    dsimp only at hset
    rw [hset]
  · rwa [Graph.class?_setField]

lemma setGlobal (hp : p.Shows P cs g place globals) {i : UInt32} {w : Value} {r : Ref}
    (hi : i.toNat < globals.length) (hw : r.At P.fieldCount g place w) :
    Image.setGlobal i w p = .ok () { p with globals := p.globals.setIfInBounds i.toNat w } ∧
      Shows P cs g place (globals.set i.toNat r)
        { p with globals := p.globals.setIfInBounds i.toNat w } := by
  have hlen : globals.length = p.globals.size := by
    rw [hp.globals.length_eq, Array.length_toList]
  refine ⟨by rw [Image.setGlobal, if_pos (by omega)], hp.heap, ?_⟩
  dsimp only
  rw [Array.toList_setIfInBounds]
  exact forall₂_set hp.globals hw _

end Shows

/-! ### Allocation and collection -/

variable {ρ : Type} {R : Roots ρ} {holder : ρ} {roots : List Ref}

/-- The references of the globals and of a holder, beside the roots of a
collection. -/
lemma forall₂_roots (hp : p.Shows P cs g place globals)
    (hroots : List.Forall₂ (Ref.At P.fieldCount g place) roots (R.get holder)) :
    List.Forall₂ (Ref.At P.fieldCount g place) (globals ++ roots)
      ((Roots.array.pair R).get (p.globals, holder)) :=
  List.rel_append hp.globals hroots

/-- The roots of a collection, split into globals and those of the holder. -/
lemma split_roots {g' : Graph} {place' : Nat → Option Nat} {x : Array Value × ρ}
    (hlen : globals.length = x.1.size)
    (h : List.Forall₂ (Ref.At P.fieldCount g' place') (globals ++ roots)
      ((Roots.array.pair R).get x)) :
    List.Forall₂ (Ref.At P.fieldCount g' place') globals x.1.toList ∧
      List.Forall₂ (Ref.At P.fieldCount g' place') roots (R.get x.2) := by
  have hlen' : globals.length = (Roots.array.get x.1).length := by
    rw [hlen]
    exact Array.length_toList.symm
  have h₁ := List.forall₂_take_append _ _ _ h
  have h₂ := List.forall₂_drop_append _ _ _ h
  rw [List.take_left' hlen'] at h₁
  rw [List.drop_left' hlen'] at h₂
  exact ⟨h₁, h₂⟩

lemma size_of_updated {x y : Array Value} (h : Roots.array.Updated x y) : y.size = x.size := by
  rcases h with rfl | ⟨vs, hlen, rfl⟩
  · rfl
  · simpa [Roots.array] using hlen

/-- **Allocation in an image follows the graph**, the globals and the holder
keeping what they stand for. -/
theorem alloc_shows (hp : p.Shows P cs g place globals)
    (hroots : List.Forall₂ (Ref.At P.fieldCount g place) roots (R.get holder)) {cls : ClassId}
    {refs : List Ref} {fields : List Value}
    (hfields : List.Forall₂ (Ref.At P.fieldCount g place) refs fields) (hcls : cls ≠ .forwarded)
    (hlen : fields.length = P.fieldCount cls) :
    (∃ v p' holder' cs' place', alloc P R cls fields (p, holder) = .ok v (p', holder') ∧
      p'.Shows P cs' (g.alloc cls refs).2 place' globals ∧ R.Updated holder holder' ∧
      List.Forall₂ (Ref.At P.fieldCount (g.alloc cls refs).2 place') roots (R.get holder') ∧
      (g.alloc cls refs).1.At P.fieldCount (g.alloc cls refs).2 place' v) ∨
    ∃ n k s, alloc P R cls fields (p, holder) = .error (.outOfMemory n k) s := by
  rcases Heap.alloc_holds hp.heap (forall₂_roots hp hroots) hfields hcls hlen with
    ⟨v, fields', h', ⟨globals', holder'⟩, cs', place', hrun, hh', -, hupd, hroots', hv⟩ |
    ⟨n, k, s, hrun⟩
  · obtain ⟨hupd₁, hupd₂⟩ := hupd.of_pair
    have hsize : globals.length = globals'.size := by
      rw [size_of_updated hupd₁, hp.globals.length_eq, Array.length_toList]
    obtain ⟨hglobals', hholder'⟩ := split_roots hsize hroots'
    refine .inl ⟨v, ⟨globals', h', reportCollection p.heap.stats p.heap.top h' p.journal⟩,
      holder', cs', place', ?_, ⟨hh', hglobals'⟩, hupd₂, hholder', hv⟩
    rw [alloc, if_pos hlen]
    simp only [bind, EStateM.bind, tracing, hrun, pure, EStateM.pure]
  · refine .inr ⟨n, k, (⟨s.2.1, s.1, reportCollection p.heap.stats p.heap.top s.1 p.journal⟩,
      s.2.2), ?_⟩
    rw [alloc, if_pos hlen]
    simp only [bind, EStateM.bind, tracing, hrun]

/-- An allocation with the wrong number of fields changes nothing. -/
lemma alloc_of_length_ne {cls : ClassId} {fields : List Value}
    (hlen : fields.length ≠ P.fieldCount cls) :
    alloc P R cls fields (p, holder) =
      .error (.typeError (.fieldCount cls (P.fieldCount cls) fields.length)) (p, holder) := by
  rw [alloc, if_neg hlen]
  rfl

lemma collect_shows (hp : p.Shows P cs g place globals)
    (hroots : List.Forall₂ (Ref.At P.fieldCount g place) roots (R.get holder)) :
    ∃ p' holder' cs' place', collect P R (p, holder) = .ok () (p', holder') ∧
      p'.Shows P cs' g place' globals ∧ R.Updated holder holder' ∧
      List.Forall₂ (Ref.At P.fieldCount g place') roots (R.get holder') := by
  obtain ⟨h', ⟨globals', holder'⟩, cs', place', hrun, hh', -, hupd, hroots'⟩ :=
    Heap.collect_holds hp.heap (forall₂_roots hp hroots)
  obtain ⟨hupd₁, hupd₂⟩ := hupd.of_pair
  have hsize : globals.length = globals'.size := by
    rw [size_of_updated hupd₁, hp.globals.length_eq, Array.length_toList]
  obtain ⟨hglobals', hholder'⟩ := split_roots hsize hroots'
  refine ⟨⟨globals', h', reportCollection p.heap.stats p.heap.top h' p.journal⟩, holder', cs',
    place', ?_, ⟨hh', hglobals'⟩, hupd₂, hholder'⟩
  simp only [collect, tracing, hrun]

end Image

end EffectMachine
