/-
Object graphs, and heaps that hold them.

An object graph has nodes with a class and fields, and no addresses: nodes are
told apart by the order in which they were made, and none is ever given up.

* `Graph.Ref`, `Graph.Node`: what fields hold, and nodes;
* `Graph.alloc`, `Graph.field?`, `Graph.setField`: the operations;
* `Heap.Holds`: a heap holds a graph under a placement of its nodes, which has
  no place for nodes that a collection has given up;
* `Graph.Ref.At`: the value that stands for a reference under a placement;
* `Heap.Holds.field`, `Heap.Holds.setField`, `Heap.Holds.relocated`,
  `Heap.Holds.bump`: reading, writing, collecting and placing follow the graph;
* `Heap.alloc_holds`, `Heap.collect_holds`: **allocations and collections
  change the placement, but not what is held**.
-/
import EffectMachine.Proofs.Collecting
import Mathlib.Data.List.Forall2

namespace EffectMachine

/-! ### Object graphs -/

namespace Graph

/-- What a field holds: an inline value, or a node. -/
inductive Ref where
  | inline (v : Value)
  | node (id : Nat)
deriving DecidableEq

/-- A node: an object with its fields. -/
structure Node where
  cls : ClassId
  fields : List Ref
deriving DecidableEq

end Graph

/-- The nodes in the order in which they were made. -/
abbrev Graph := List Graph.Node

namespace Graph

/-- The class of a node. -/
def class? (g : Graph) (id : Nat) : Option ClassId := (g[id]?).map (·.cls)

/-- A field of a node. -/
def field? (g : Graph) (id index : Nat) : Option Ref := (g[id]?).bind (·.fields[index]?)

/-- A new object: a node, or an inline value if it has no fields. -/
def alloc (g : Graph) (cls : ClassId) (fields : List Ref) : Ref × Graph :=
  if fields = [] then (.inline ⟨cls, 0⟩, g) else (.node g.length, g ++ [⟨cls, fields⟩])

/-- The graph with a field of a node replaced. -/
def setField (g : Graph) (id index : Nat) (r : Ref) : Graph :=
  g.modify id fun n => { n with fields := n.fields.set index r }

@[simp] lemma class?_setField (g : Graph) (id index : Nat) (r : Ref) (a : Nat) :
    (g.setField id index r).class? a = g.class? a := by
  rw [class?, setField, List.getElem?_modify, class?]
  cases g[a]? with
  | none => rfl
  | some n => by_cases h : id = a <;> simp [h]

lemma class?_append {g : Graph} {a : Nat} {c : ClassId} (h : g.class? a = some c)
    (ns : List Node) : (g ++ ns).class? a = some c := by
  rw [class?, Option.map_eq_some_iff] at h ⊢
  obtain ⟨n, hn, hc⟩ := h
  refine ⟨n, ?_, hc⟩
  rw [List.getElem?_append_left (List.getElem?_eq_some_iff.mp hn).1, hn]

/-- The value stands for the reference when nodes are placed as given. -/
def Ref.At (L : Layout) (g : Graph) (place : Nat → Option Nat) : Ref → Value → Prop
  | .inline u, v => v = u ∧ L u.tag = 0 ∧ u.tag ≠ .forwarded
  | .node a, v => g.class? a = some v.tag ∧ place a = some v.offset

end Graph

/-! ### Heaps that hold a graph -/

open EffectMachine.Graph (Ref Node)

/-- The heap, with objects of the given classes, holds the graph: every node
that has a place is an object there, whose words stand for the fields of the
node, and different nodes have different places. -/
structure Heap.Holds (L : Layout) (cs : List ClassId) (g : Graph) (place : Nat → Option Nat)
    (h : Heap) : Prop where
  sound : h.Sound L cs
  inj : ∀ {a b o : Nat}, place a = some o → place b = some o → a = b
  node : ∀ {a o : Nat}, place a = some o → ∃ n, g[a]? = some n ∧ (o, n.cls) ∈ L.objects cs ∧
    n.cls ≠ .forwarded ∧ n.fields.length = L n.cls ∧
    ∀ (i : Nat) (r : Ref), n.fields[i]? = some r → r.At L g place (h.front.cell (o + i))

namespace Graph.Ref.At

variable {L : Layout} {cs : List ClassId} {g : Graph} {place : Nat → Option Nat} {h : Heap}
  {r s : Ref} {v w : Value}

lemma pos_of_node (hh : h.Holds L cs g place) {a : Nat} (hr : (Ref.node a).At L g place v) :
    0 < L v.tag := by
  obtain ⟨hcls, hplace⟩ := hr
  obtain ⟨n, hn, hobj, -⟩ := hh.node hplace
  rw [class?, hn, Option.map_some, Option.some.injEq] at hcls
  rw [← hcls]
  exact hh.sound.pos _ (Layout.class_mem_of_mem_objectsFrom hobj)

lemma sound (hh : h.Holds L cs g place) (hr : r.At L g place v) : v.Sound L cs := by
  cases r with
  | inline u =>
      obtain ⟨rfl, hu, hne⟩ := hr
      exact .inline hne hu
  | node a =>
      obtain ⟨hcls, hplace⟩ := hr
      obtain ⟨n, hn, hobj, hne, -⟩ := hh.node hplace
      rw [class?, hn, Option.map_some, Option.some.injEq] at hcls
      exact ⟨hcls ▸ hne, fun _ => by rw [Value.object, ← hcls]; exact hobj⟩

lemma value_eq (hv : r.At L g place v) (hw : r.At L g place w) : v = w := by
  cases r with
  | inline u => exact hv.1.trans hw.1.symm
  | node a =>
      obtain ⟨hcv, hpv⟩ := hv
      obtain ⟨hcw, hpw⟩ := hw
      have htag : v.tag = w.tag := Option.some.inj (hcv.symm.trans hcw)
      have hdata : v.data = w.data := UInt32.toNat_inj.mp (Option.some.inj (hpv.symm.trans hpw))
      cases v
      cases w
      exact congrArg₂ Value.mk htag hdata

lemma ref_eq (hh : h.Holds L cs g place) (hr : r.At L g place v) (hs : s.At L g place v) :
    r = s := by
  cases r with
  | inline u =>
      cases s with
      | inline u' => rw [← hr.1, hs.1]
      | node b =>
          have hpos := pos_of_node hh hs
          rw [hr.1] at hpos
          exact absurd hr.2.1 (Nat.ne_of_gt hpos)
  | node a =>
      cases s with
      | inline u =>
          have hpos := pos_of_node hh hr
          rw [hs.1] at hpos
          exact absurd hs.2.1 (Nat.ne_of_gt hpos)
      | node b => rw [hh.inj hr.2 hs.2]

/-- A value of a class with fields stands for a node. -/
lemma eq_node (hr : r.At L g place v) (hv : 0 < L v.tag) :
    ∃ a, r = .node a ∧ g.class? a = some v.tag ∧ place a = some v.offset := by
  cases r with
  | inline u =>
      rw [hr.1] at hv
      exact absurd hr.2.1 (Nat.ne_of_gt hv)
  | node a => exact ⟨a, rfl, hr⟩

/-- What stands for a reference does not depend on the fields of nodes. -/
lemma of_class_eq {g' : Graph} (hclass : ∀ a c, g.class? a = some c → g'.class? a = some c)
    (hr : r.At L g place v) : r.At L g' place v := by
  cases r with
  | inline u => exact hr
  | node a => exact ⟨hclass a _ hr.1, hr.2⟩

end Graph.Ref.At

namespace Heap.Holds

variable {L : Layout} {cs : List ClassId} {g : Graph} {place : Nat → Option Nat} {h : Heap}

/-- A fresh heap holds the empty graph. -/
lemma fresh {words : Nat} (hw : words ≤ 2 ^ 32) :
    (Heap.fresh words).Holds L [] [] fun _ => none where
  sound := .fresh hw
  inj h _ := by cases h
  node h := by cases h

lemma lt_length (hh : h.Holds L cs g place) {a o : Nat} (ha : place a = some o) : a < g.length := by
  obtain ⟨n, hn, -⟩ := hh.node ha
  exact (List.getElem?_eq_some_iff.mp hn).1

lemma place_lt (hh : h.Holds L cs g place) {a o : Nat} (ha : place a = some o) : o < h.top := by
  obtain ⟨n, -, hobj, -⟩ := hh.node ha
  have hend : o + L n.cls ≤ h.top := hh.sound.end_le hobj
  have hpos : 0 < L n.cls := hh.sound.pos _ (Layout.class_mem_of_mem_objectsFrom hobj)
  omega

/-- Every value of a list stands for a reference of the list beside it. -/
lemma exists_at_of_mem {refs : List Ref} {vs : List Value}
    (hvs : List.Forall₂ (Ref.At L g place) refs vs) {v : Value} (hv : v ∈ vs) :
    ∃ r : Ref, r.At L g place v := by
  obtain ⟨i, hi, rfl⟩ := List.mem_iff_getElem.mp hv
  exact ⟨_, (List.forall₂_iff_get.mp hvs).2 i (hvs.length_eq ▸ hi) hi⟩

/-! ### Fields -/

/-- Reading a field that the class has follows the graph. -/
lemma field (hh : h.Holds L cs g place) {a i : Nat} {v : Value} (hv : (Ref.node a).At L g place v)
    (hi : i < L v.tag) :
    ∃ r w, g.field? a i = some r ∧ h.field v i = .ok w ∧ w = h.front.cell (v.offset + i) ∧
      r.At L g place w := by
  obtain ⟨hcls, hplace⟩ := hv
  obtain ⟨n, hn, hobj, -, hlen, hfields⟩ := hh.node hplace
  rw [Graph.class?, hn, Option.map_some, Option.some.injEq] at hcls
  have hlt : i < n.fields.length := by rw [hlen, hcls]; exact hi
  have hend := hh.sound.end_le hobj
  have hslot : v.offset + i < h.top := by
    rw [hcls] at hend
    dsimp only at hend
    omega
  refine ⟨n.fields[i], h.front.cell (v.offset + i), ?_, ?_, rfl, ?_⟩
  · rw [Graph.field?, hn, Option.bind_some, List.getElem?_eq_getElem hlt]
  · rw [Heap.field, Heap.slot, if_pos hslot]
  · exact hfields i _ (List.getElem?_eq_getElem hlt)

lemma cell_ne (hh : h.Holds L cs g place) {a b o p i j : Nat} {n m : Node}
    (ha : place a = some o) (hn : g[a]? = some n) (hi : i < n.fields.length)
    (hb : place b = some p) (hm : g[b]? = some m) (hj : j < m.fields.length)
    (heq : o + i = p + j) : a = b ∧ i = j := by
  obtain ⟨n', hn', hobj, -, hlen, -⟩ := hh.node ha
  obtain ⟨m', hm', hobj', -, hlen', -⟩ := hh.node hb
  cases hn.symm.trans hn'
  cases hm.symm.trans hm'
  rcases Layout.eq_or_apart hobj hobj' with h | h | h
  · have hop : o = p := congrArg Prod.fst h
    exact ⟨hh.inj ha (hop ▸ hb), by omega⟩
  · dsimp only at h
    omega
  · dsimp only at h
    omega

/-- Writing a field that the class has follows the graph. -/
lemma setField (hh : h.Holds L cs g place) {a i : Nat} {v w : Value} {r : Ref}
    (hv : (Ref.node a).At L g place v) (hi : i < L v.tag) (hw : r.At L g place w) :
    Heap.setField v i w h = .ok () (h.write (v.offset + i) w) ∧
      (h.write (v.offset + i) w).Holds L cs (g.setField a i r) place := by
  obtain ⟨hcls, hplace⟩ := hv
  obtain ⟨n, hn, hobj, -, hlen, -⟩ := hh.node hplace
  rw [Graph.class?, hn, Option.map_some, Option.some.injEq] at hcls
  have hend := hh.sound.end_le hobj
  have hslot : v.offset + i < h.top := by
    rw [hcls] at hend
    dsimp only at hend
    omega
  refine ⟨by rw [Heap.setField, Heap.slot, if_pos hslot], ?_⟩
  refine ⟨hh.sound.write _ (hw.sound hh), hh.inj, ?_⟩
  intro b p hb
  obtain ⟨m, hm, hobj', hne', hlen', hfields'⟩ := hh.node hb
  have hsize : v.offset + i < h.front.size := Nat.lt_of_lt_of_le hslot hh.sound.room
  refine ⟨if a = b then { m with fields := m.fields.set i r } else m, ?_, ?_⟩
  · rw [Graph.setField, List.getElem?_modify, hm]
    by_cases hab : a = b <;> simp [hab]
  have hcls' : (if a = b then { m with fields := m.fields.set i r } else m).cls = m.cls := by
    split <;> rfl
  have hlen'' : (if a = b then { m with fields := m.fields.set i r } else m).fields.length =
      m.fields.length := by
    split
    · exact List.length_set
    · rfl
  refine ⟨by rwa [hcls'], by rwa [hcls'], by rw [hlen'', hcls', hlen'], fun j s hs => ?_⟩
  have hj : j < m.fields.length := by
    rw [← hlen'']
    exact (List.getElem?_eq_some_iff.mp hs).1
  have hmono : ∀ {s : Ref} {u : Value}, s.At L g place u → s.At L (g.setField a i r) place u :=
    fun hs => hs.of_class_eq fun _ _ hc => by rwa [Graph.class?_setField]
  rw [Heap.write, Cells.cell_setIfInBounds]
  by_cases hcell : v.offset + i = p + j
  · -- the word written belongs to the node written, and to no other
    obtain ⟨rfl, rfl⟩ := hh.cell_ne hplace hn (by rw [hlen, hcls]; exact hi) hb hm hj hcell
    rw [if_pos ⟨hcell, hsize⟩]
    rw [if_pos rfl, List.getElem?_set_self hj, Option.some.injEq] at hs
    exact hs ▸ hmono hw
  · rw [if_neg fun hc => hcell hc.1]
    refine hmono (hfields' j s ?_)
    by_cases hab : a = b
    · subst hab
      have hpo : p = v.offset := Option.some.inj (hb.symm.trans hplace)
      rw [if_pos rfl, List.getElem?_set_ne (by omega)] at hs
      exact hs
    · rwa [if_neg hab] at hs

/-! ### Collections and new objects -/

/-- The placement after a collection. -/
def replace (L : Layout) (kept : List Object) (place : Nat → Option Nat) (a : Nat) : Option Nat :=
  (place a).bind fun o => if o ∈ kept.map Prod.fst then some (newPlace L kept o) else none

lemma replace_eq_some {kept : List Object} {a p : Nat} (ha : replace L kept place a = some p) :
    ∃ o, place a = some o ∧ o ∈ kept.map Prod.fst ∧ p = newPlace L kept o := by
  obtain ⟨o, ho, hp⟩ := Option.bind_eq_some_iff.mp ha
  by_cases hmem : o ∈ kept.map Prod.fst
  · rw [if_pos hmem, Option.some.injEq] at hp
    exact ⟨o, ho, hmem, hp.symm⟩
  · rw [if_neg hmem] at hp
    cases hp

/-- What stood for a reference stands for it after a collection that has kept
its object. -/
lemma at_replace {h' : Heap} {kept : List Object} (hh : h.Holds L cs g place)
    (hrel : h.Relocated L cs h' kept) {r : Ref} {v : Value} (hr : r.At L g place v)
    (hmem : 0 < L v.tag → v.object ∈ kept) :
    r.At L g (replace L kept place) (v.moveTo L (newPlace L kept)) := by
  cases r with
  | inline u =>
      obtain ⟨rfl, hu, hne⟩ := hr
      exact ⟨Value.moveTo_of_inline hu _, hu, hne⟩
  | node a =>
      have hpos := hr.pos_of_node hh
      have hsmall := hrel.total_le
      have hobj := Value.object_moveTo hrel.once hsmall hpos (hmem hpos)
      refine ⟨by rw [Value.tag_moveTo]; exact hr.1, ?_⟩
      have hoff : (v.moveTo L (newPlace L kept)).offset = newPlace L kept v.offset :=
        congrArg Prod.fst hobj
      have hkept : v.offset ∈ kept.map Prod.fst := List.mem_map_of_mem (f := Prod.fst) (hmem hpos)
      rw [replace, hr.2, Option.bind_some, hoff, if_pos hkept]

/-- A collection leaves the graph as it is. -/
lemma relocated {h' : Heap} {kept : List Object} (hh : h.Holds L cs g place)
    (hrel : h.Relocated L cs h' kept) :
    h'.Holds L (kept.map Prod.snd) g (replace L kept place) := by
  have hkept : ∀ {a o : Nat} {n : Node}, place a = some o → g[a]? = some n →
      o ∈ kept.map Prod.fst → (o, n.cls) ∈ kept := by
    intro a o n ha hn hmem
    obtain ⟨t, ht, hto⟩ := List.mem_map.mp hmem
    obtain ⟨n', hn', hobj, -⟩ := hh.node ha
    cases hn.symm.trans hn'
    rwa [← Layout.eq_of_start_eq hh.sound.pos (hrel.objects t ht) hobj hto]
  refine ⟨hrel.sound, fun {a b p} ha hb => ?_, fun {a p} ha => ?_⟩
  · obtain ⟨o, ho, hmem, rfl⟩ := replace_eq_some ha
    obtain ⟨o', ho', hmem', heq⟩ := replace_eq_some hb
    obtain ⟨t, ht, rfl⟩ := List.mem_map.mp hmem
    obtain ⟨t', ht', rfl⟩ := List.mem_map.mp hmem'
    have hpos : ∀ u ∈ kept, 0 < L u.2 := fun u hu =>
      hh.sound.pos _ (Layout.class_mem_of_mem_objectsFrom (hrel.objects u hu))
    exact hh.inj ho (newPlace_inj hpos ht ht' heq ▸ ho')
  · obtain ⟨o, ho, hmem, rfl⟩ := replace_eq_some ha
    obtain ⟨n, hn, hobj, hne, hlen, hfields⟩ := hh.node ho
    have ht := hkept ho hn hmem
    refine ⟨n, hn, mem_objects_newPlace hrel.once ht, hne, hlen, fun i r hr => ?_⟩
    have hi : i < L n.cls := by
      rw [← hlen]
      exact (List.getElem?_eq_some_iff.mp hr).1
    rw [hrel.words _ ht i hi]
    exact hh.at_replace hrel (hfields i r hr) (hrel.closed _ ht i hi)

/-- The placement after a new node has been placed. -/
def extend (place : Nat → Option Nat) (id o : Nat) (a : Nat) : Option Nat :=
  if a = id then some o else place a

/-- What stood for a reference stands for it when a node has been added. -/
lemma at_extend (hh : h.Holds L cs g place) (n : Node) (o : Nat) {r : Ref} {v : Value}
    (hr : r.At L g place v) : r.At L (g ++ [n]) (extend place g.length o) v := by
  cases r with
  | inline u => exact hr
  | node a =>
      refine ⟨Graph.class?_append hr.1 _, ?_⟩
      rw [extend, if_neg (Nat.ne_of_lt (hh.lt_length hr.2)), hr.2]

/-- Placing a new object behind the others adds a node to the graph. -/
lemma bump (hh : h.Holds L cs g place) {cls : ClassId} {fields : List Value} {refs : List Ref}
    (hfields : List.Forall₂ (Ref.At L g place) refs fields) (hcls : cls ≠ .forwarded)
    (hlen : fields.length = L cls) (hpos : 0 < fields.length)
    (hroom : fields.length ≤ h.available) :
    (h.bump cls fields).2.Holds L (cs ++ [cls]) (g ++ [⟨cls, refs⟩])
      (extend place g.length h.top) := by
  have hs := hh.sound
  have hreflen : refs.length = fields.length := hfields.length_eq
  have hfield : ∀ (i : Nat) (r : Ref), refs[i]? = some r →
      r.At L g place ((h.bump cls fields).2.front.cell (h.top + i)) := by
    intro i r hr
    have hi : i < refs.length := (List.getElem?_eq_some_iff.mp hr).1
    have hi' : i < fields.length := by omega
    rw [Heap.cell_bump cls hs.room hroom, if_pos (by omega), Nat.add_sub_cancel_left,
      List.getElem?_eq_getElem hi', Option.getD_some]
    rw [List.getElem?_eq_getElem hi, Option.some.injEq] at hr
    rw [← hr]
    exact (List.forall₂_iff_get.mp hfields).2 i hi hi'
  refine ⟨hs.bump (fun v hv => ?_) hlen hpos hroom, fun {a b o} ha hb => ?_, fun {a o} ha => ?_⟩
  · obtain ⟨r, hr⟩ := exists_at_of_mem hfields hv
    exact hr.sound hh
  · -- the new object starts where all others have ended
    rw [extend] at ha hb
    by_cases hag : a = g.length
    · by_cases hbg : b = g.length
      · omega
      · rw [if_pos hag, Option.some.injEq] at ha
        rw [if_neg hbg] at hb
        have := hh.place_lt hb
        omega
    · by_cases hbg : b = g.length
      · rw [if_pos hbg, Option.some.injEq] at hb
        rw [if_neg hag] at ha
        have := hh.place_lt ha
        omega
      · rw [if_neg hag] at ha
        rw [if_neg hbg] at hb
        exact hh.inj ha hb
  · rw [extend] at ha
    by_cases hag : a = g.length
    · rw [if_pos hag, Option.some.injEq] at ha
      subst ha hag
      refine ⟨⟨cls, refs⟩, by simp, ?_, hcls, by rw [hreflen, hlen], fun i r hr => ?_⟩
      · rw [Layout.objects_append_singleton, hs.top]
        exact List.mem_append_right _ (List.mem_singleton_self _)
      · exact hh.at_extend _ _ (hfield i r hr)
    · rw [if_neg hag] at ha
      obtain ⟨n, hn, hobj, hne, hn_len, hn_fields⟩ := hh.node ha
      have hend : o + L n.cls ≤ h.top := hs.end_le hobj
      refine ⟨n, ?_, ?_, hne, hn_len, fun i r hr => ?_⟩
      · rw [List.getElem?_append_left (hh.lt_length ha), hn]
      · rw [Layout.objects_append_singleton]
        exact List.mem_append_left _ hobj
      · have hi := (List.getElem?_eq_some_iff.mp hr).1
        rw [Heap.cell_bump cls hs.room hroom, if_neg (by omega)]
        exact hh.at_extend _ _ (hn_fields i r hr)

/-- The value that placing an object gives stands for the new node. -/
lemma at_bump (hh : h.Holds L cs g place) {cls : ClassId} {fields : List Value} {refs : List Ref}
    (hpos : 0 < fields.length) (hroom : fields.length ≤ h.available) :
    (Ref.node g.length).At L (g ++ [⟨cls, refs⟩]) (extend place g.length h.top)
      (h.bump cls fields).1 := by
  have hclass : Graph.class? (g ++ [⟨cls, refs⟩]) g.length = some cls := by simp [Graph.class?]
  refine ⟨hclass, ?_⟩
  -- the new place fits into an offset
  have hlt : h.top < 2 ^ 32 := by
    have := hh.sound.small
    rw [Heap.available, Heap.capacity] at hroom
    omega
  rw [extend, if_pos rfl, Option.some.injEq]
  exact (UInt32.toNat_ofNat_of_lt' hlt).symm

end Heap.Holds

/-! ### Allocation and collection -/

/-- The holder has at most been given other roots, as many as it had. -/
def Roots.Updated {ρ : Type} (R : Roots ρ) (x y : ρ) : Prop :=
  y = x ∨ ∃ vs, vs.length = (R.get x).length ∧ y = R.set x vs

namespace Heap

variable {L : Layout} {cs : List ClassId} {g : Graph} {place : Nat → Option Nat} {h : Heap}
  {ρ : Type} {R : Roots ρ} {holder : ρ} {roots : List Ref}

/-- A collection succeeds, keeps the graph, and leaves its roots and the
pending values standing for what they stood for. -/
lemma collectWith_holds (hh : h.Holds L cs g place)
    (hroots : List.Forall₂ (Ref.At L g place) roots (R.get holder)) {refs : List Ref}
    {pending : List Value} (hpending : List.Forall₂ (Ref.At L g place) refs pending) :
    ∃ fields h' holder' cs' place',
      collectWith L R pending (h, holder) = .ok fields (h', holder') ∧
      h'.Holds L cs' g place' ∧ h'.capacity = h.capacity ∧ R.Updated holder holder' ∧
      List.Forall₂ (Ref.At L g place') roots (R.get holder') ∧
      List.Forall₂ (Ref.At L g place') refs fields := by
  have hsound : ∀ {us : List Ref} {vs : List Value}, List.Forall₂ (Ref.At L g place) us vs →
      ∀ v ∈ vs, v.Sound L cs := by
    intro us vs hvs v hv
    obtain ⟨r, hr⟩ := Holds.exists_at_of_mem hvs hv
    exact hr.sound hh
  obtain ⟨kept, h', hrun, hrel, -, -, hmem⟩ :=
    collectWith_relocated hh.sound (hsound hroots) (hsound hpending)
  have hmoved : ∀ {us : List Ref} {vs : List Value}, List.Forall₂ (Ref.At L g place) us vs →
      vs ⊆ R.get holder ++ pending →
      List.Forall₂ (Ref.At L g (Holds.replace L kept place)) us
        (vs.map (·.moveTo L (newPlace L kept))) := by
    intro us vs hvs hsub
    induction hvs with
    | nil => exact .nil
    | @cons r v us vs hr _ ih =>
        refine .cons (hh.at_replace hrel hr (hmem v (hsub List.mem_cons_self))) (ih fun u hu => ?_)
        exact hsub (List.mem_cons_of_mem _ hu)
  refine ⟨_, h', _, _, _, hrun, hh.relocated hrel, hrel.capacity, .inr ⟨_, ?_, rfl⟩, ?_,
    hmoved hpending (List.subset_append_right _ _)⟩
  · exact List.length_map ..
  · rw [R.get_set _ _ (List.length_map ..)]
    exact hmoved hroots (List.subset_append_left _ _)

/-- A forced collection keeps the graph. -/
lemma collect_holds (hh : h.Holds L cs g place)
    (hroots : List.Forall₂ (Ref.At L g place) roots (R.get holder)) :
    ∃ h' holder' cs' place', collect L R (h, holder) = .ok () (h', holder') ∧
      h'.Holds L cs' g place' ∧ h'.capacity = h.capacity ∧ R.Updated holder holder' ∧
      List.Forall₂ (Ref.At L g place') roots (R.get holder') := by
  obtain ⟨fields, h', holder', cs', place', hrun, hh', hcap, hupd, hroots', -⟩ :=
    collectWith_holds hh hroots (List.Forall₂.nil : List.Forall₂ (Ref.At L g place) [] [])
  refine ⟨h', holder', cs', place', ?_, hh', hcap, hupd, hroots'⟩
  simp [collect, bind, EStateM.bind, hrun, pure, EStateM.pure]

/-- **Allocation follows the graph.** Allocating an object with as many fields
as its class has either ends out of memory, or adds the object to the graph and
leaves the roots standing for what they stood for. -/
theorem alloc_holds (hh : h.Holds L cs g place)
    (hroots : List.Forall₂ (Ref.At L g place) roots (R.get holder)) {cls : ClassId}
    {refs : List Ref} {fields : List Value}
    (hfields : List.Forall₂ (Ref.At L g place) refs fields) (hcls : cls ≠ .forwarded)
    (hlen : fields.length = L cls) :
    (∃ v fields' h' holder' cs' place',
      alloc L R cls fields (h, holder) = .ok (v, fields') (h', holder') ∧
      h'.Holds L cs' (g.alloc cls refs).2 place' ∧ h'.capacity = h.capacity ∧
      R.Updated holder holder' ∧
      List.Forall₂ (Ref.At L (g.alloc cls refs).2 place') roots (R.get holder') ∧
      (g.alloc cls refs).1.At L (g.alloc cls refs).2 place' v) ∨
    ∃ n k s, alloc L R cls fields (h, holder) = .error (.outOfMemory n k) s := by
  have hreflen : refs.length = fields.length := hfields.length_eq
  by_cases hzero : fields.length = 0
  · -- an object without fields is inline
    have hnil : refs = [] := List.eq_nil_of_length_eq_zero (by omega)
    have hgraph : g.alloc cls refs = (.inline ⟨cls, 0⟩, g) := if_pos hnil
    refine .inl ⟨⟨cls, 0⟩, fields, h, holder, cs, place, ?_, ?_, rfl, .inl rfl, ?_, ?_⟩
    · simp [alloc, hzero]
    · rw [hgraph]; exact hh
    · rw [hgraph]; exact hroots
    · rw [hgraph]; exact ⟨rfl, by rw [← hlen, hzero], hcls⟩
  have hgraph : g.alloc cls refs = (.node g.length, g ++ [⟨cls, refs⟩]) :=
    if_neg fun hnil => hzero (by rw [← hreflen, hnil, List.length_nil])
  rw [hgraph]
  have hextend : ∀ {cs : List ClassId} {place : Nat → Option Nat} {h : Heap} {us : List Ref}
      {vs : List Value} (_ : h.Holds L cs g place) (_ : List.Forall₂ (Ref.At L g place) us vs),
      List.Forall₂ (Ref.At L (g ++ [⟨cls, refs⟩]) (Holds.extend place g.length h.top)) us vs :=
    fun hh hvs => hvs.imp fun _ _ hr => hh.at_extend _ _ hr
  by_cases hroom : fields.length ≤ h.available
  · refine .inl ⟨(h.bump cls fields).1, fields, (h.bump cls fields).2, holder, _, _, ?_,
      hh.bump hfields hcls hlen (by omega) hroom, size_front_bump _ _ _, .inl rfl,
      hextend hh hroots, hh.at_bump (by omega) hroom⟩
    simp [alloc, hzero, hroom]
  · -- there is no room, so a collection is tried
    obtain ⟨fields', h', holder', cs', place', hrun, hh', hcap, hupd, hroots', hfields'⟩ :=
      collectWith_holds hh hroots hfields
    have hlen' : fields'.length = fields.length := by rw [← hfields'.length_eq, hreflen]
    by_cases hroom' : fields.length ≤ h'.available
    · refine .inl ⟨(h'.bump cls fields').1, fields', (h'.bump cls fields').2, holder', _, _, ?_,
        hh'.bump hfields' hcls (by omega) (by omega) (by omega),
        (size_front_bump _ _ _).trans hcap, hupd, hextend hh' hroots',
        hh'.at_bump (by omega) (by omega)⟩
      simp [alloc, hzero, hroom, hrun, hroom']
    · refine .inr ⟨fields.length, h'.available, (h', holder'), ?_⟩
      simp [alloc, hzero, hroom, hrun, hroom']

end Heap

end EffectMachine
