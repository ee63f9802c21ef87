/-
The heap of an image refines an unbounded object graph.

Someone who uses an image holds values in roots and in globals, and may use
what was read or made since the last allocation or collection. Beside such a
use of an image stands the same use of an object graph, which has no addresses,
no collector and no limit.

* `Argument`, `Operation`: what is done, and with which values;
* `Session.perform`, `GraphSession.perform`: how an image and how a graph
  answer an operation;
* `Session.Mirrors`: every value held stands for the reference held on the side
  of the graph;
* `Session.perform_mirrors`, `Session.replay_mirrors`: one operation, and every
  sequence of operations, keeps this and is answered alike;
* `Session.replay_refines_graph`: **nothing that is read through an image tells
  it from the graph, as long as it does not run out of memory**;
* `Session.replay_loses_field`: this needs unset values to be inline.
-/
import EffectMachine.Proofs.ImageGraph
import EffectMachine.Proofs.LinkedProgram

namespace EffectMachine

open EffectMachine.Graph (Ref Node)

/-! ### Operations -/

/-- A value that an operation is given: an inline one, or one that is held. What
holds nothing counts as unset. -/
inductive Argument where
  | inline (v : Value)
  | root (index : Nat)
  | global (index : Nat)
  /-- A value that was read or made since the last allocation or collection. -/
  | recent (index : Nat)

/-- An operation on an image whose user holds roots. -/
inductive Operation where
  | alloc (cls : ClassId) (fields : List Argument)
  | allocArray (elements : List Argument)
  | field (object : Argument) (index : Nat)
  | setField (object : Argument) (index : Nat) (value : Argument)
  | setGlobal (index : UInt32) (value : Argument)
  | push (value : Argument)
  | drop (index : Nat)
  | collect

/-- What reading shows: the class, and the data of an inline value. -/
structure View where
  cls : ClassId
  data : Option UInt32
deriving DecidableEq

/-- What a value shows. -/
def Value.view (P : Program) (v : Value) : View :=
  ⟨v.tag, if P.fieldCount v.tag = 0 then some v.data else none⟩

namespace Argument

/-- The argument, given how inline values are held and what is held. -/
def pick {α : Type} (inline : Value → α) (globals roots recent : List α) : Argument → α
  | .inline v => inline v
  | .root i => roots.getD i (inline .nil)
  | .global i => globals.getD i (inline .nil)
  | .recent i => recent.getD i (inline .nil)

/-- An inline argument has a class that is known and has no fields. -/
def Admissible (P : Program) : Argument → Prop
  | .inline v => P.Knows v.tag ∧ P.fieldCount v.tag = 0
  | _ => True

instance (P : Program) : DecidablePred (Admissible P)
  | .inline _ => inferInstanceAs (Decidable (_ ∧ _))
  | .root _ | .global _ | .recent _ => .isTrue trivial

end Argument

/-- The operation makes objects of classes that are known only, and is given
arguments only. -/
def Operation.Admissible (P : Program) : Operation → Prop
  | .alloc cls fields => P.Knows cls ∧ ∀ o ∈ fields, o.Admissible P
  | .allocArray elements => ∀ o ∈ elements, o.Admissible P
  | .field object _ => object.Admissible P
  | .setField object _ value => object.Admissible P ∧ value.Admissible P
  | .setGlobal _ value => value.Admissible P
  | .push value => value.Admissible P
  | .drop _ => True
  | .collect => True

instance (P : Program) : DecidablePred (Operation.Admissible P)
  | .alloc _ _ => inferInstanceAs (Decidable (_ ∧ _))
  | .allocArray elements => inferInstanceAs (Decidable (∀ o ∈ elements, o.Admissible P))
  | .field object _ => inferInstanceAs (Decidable (object.Admissible P))
  | .setField _ _ _ => inferInstanceAs (Decidable (_ ∧ _))
  | .setGlobal _ value | .push value => inferInstanceAs (Decidable (value.Admissible P))
  | .drop _ | .collect => .isTrue trivial

/-- The answers to a sequence of operations, and the state that they lead to. A
fault does not end the sequence. -/
def replay {σ : Type} (perform : Operation → Action σ (Option View)) :
    List Operation → σ → List (Except Fault (Option View)) × σ
  | [], s => ([], s)
  | op :: ops, s =>
    match perform op s with
    | .ok answer s =>
      let (answers, s) := replay perform ops s
      (.ok answer :: answers, s)
    | .error e s =>
      let (answers, s) := replay perform ops s
      (.error e :: answers, s)

/-! ### Images with roots -/

/-- An image, the roots that its user holds, and what was read or made since
the last allocation or collection. -/
structure Session where
  image : Image
  roots : List Value
  recent : List Value

namespace Session

/-- A session with a fresh image. -/
def fresh (P : Program) (options : Options) (journal : Journal) : Session :=
  ⟨.fresh P options journal, [], []⟩

/-- The value of an argument. -/
def value (s : Session) (o : Argument) : Value :=
  o.pick id s.image.globals.toList s.roots s.recent

/-- Takes note of a value that was read or made. -/
def note (P : Program) (v : Value) : Action Session (Option View) := fun s =>
  .ok (some (v.view P)) { s with recent := s.recent ++ [v] }

/-- Runs an operation that may collect. What was read before is given up. -/
def collecting {α : Type} (act : Action (Image.Rooted (List Value)) α) : Action Session α :=
  fun s =>
    match act (s.image, s.roots) with
    | .ok a (image, roots) => .ok a { image, roots, recent := [] }
    | .error e (image, roots) => .error e { s with image, roots }

/-- Runs an operation that only writes. -/
def writing (act : Action Image Unit) : Action Session (Option View) := fun s =>
  match act s.image with
  | .ok _ image => .ok none { s with image }
  | .error e image => .error e { s with image }

/-- How a session answers an operation. -/
def perform (P : Program) (op : Operation) : Action Session (Option View) := fun s =>
  match op with
  | .alloc cls fields =>
    (collecting (Image.alloc P .list cls (fields.map s.value)) >>= note P) s
  | .allocArray elements =>
    (collecting (Image.allocArray P .list (elements.map s.value)) >>= note P) s
  | .field object index =>
    match s.image.field P (s.value object) index with
    | .ok v => note P v s
    | .error e => .error e s
  | .setField object index v => writing (Image.setField P (s.value object) index (s.value v)) s
  | .setGlobal index v => writing (Image.setGlobal index (s.value v)) s
  | .push v => .ok none { s with roots := s.roots ++ [s.value v] }
  | .drop index => .ok none { s with roots := s.roots.eraseIdx index }
  | .collect => (collecting (Image.collect P .list) >>= fun _ => pure none) s

end Session

/-- Follows fields from a value on. -/
def Image.follow (P : Program) (p : Image) (v : Value) (path : List Nat) : Except Fault Value :=
  path.foldlM (p.field P) v

/-! ### Graphs with roots -/

namespace Graph

/-- The class of what a reference leads to. -/
def Ref.cls (g : Graph) : Ref → ClassId
  | .inline v => v.tag
  | .node a => (g.class? a).getD .empty

/-- What a reference shows. -/
def Ref.view (g : Graph) : Ref → View
  | .inline v => ⟨v.tag, some v.data⟩
  | .node a => ⟨(Ref.node a).cls g, none⟩

/-- A field of what a reference leads to. -/
def read (g : Graph) (r : Ref) (index : Nat) : Except Fault Ref :=
  match r with
  | .inline _ => .error (.fieldOutOfRange (r.cls g) index)
  | .node a =>
    match g.field? a index with
    | some s => .ok s
    | none => .error (.fieldOutOfRange (r.cls g) index)

/-- Sets a field of what a reference leads to. -/
def write (g : Graph) (r : Ref) (index : Nat) (s : Ref) : Except Fault Graph :=
  match r with
  | .inline _ => .error (.fieldOutOfRange (r.cls g) index)
  | .node a =>
    if (g.field? a index).isSome then .ok (g.setField a index s)
    else .error (.fieldOutOfRange (r.cls g) index)

/-- A field that is set is read back, and the others stay as they are. -/
lemma field?_setField (g : Graph) (a i b j : Nat) (s : Ref) :
    (g.setField a i s).field? b j =
      if a = b ∧ i = j then (g.field? b j).map fun _ => s else g.field? b j := by
  rw [field?, setField, List.getElem?_modify, field?]
  cases g[b]? with
  | none => simp
  | some n =>
      by_cases hab : a = b
      · subst hab
        by_cases hij : i = j
        · subst hij
          by_cases hi : i < n.fields.length
          · simp [hi]
          · have hle : n.fields.length ≤ i := Nat.le_of_not_lt hi
            simp [hle]
        · simp [hij, List.getElem?_set_ne hij]
      · simp [hab]

/-- Follows fields from a reference on. -/
def follow (g : Graph) (r : Ref) (path : List Nat) : Except Fault Ref :=
  path.foldlM g.read r

end Graph

/-- A graph, with references in place of the values of a session. -/
structure GraphSession where
  graph : Graph
  globals : List Ref
  roots : List Ref
  recent : List Ref

namespace GraphSession

/-- A session with no nodes, and unset globals. -/
def fresh (P : Program) : GraphSession :=
  ⟨[], List.replicate P.globalCount.toNat (.inline .nil), [], []⟩

/-- The reference of an argument. -/
def ref (t : GraphSession) (o : Argument) : Ref :=
  o.pick .inline t.globals t.roots t.recent

/-- Takes note of a reference that was read or made. -/
def note (r : Ref) : Action GraphSession (Option View) := fun t =>
  .ok (some (r.view t.graph)) { t with recent := t.recent ++ [r] }

/-- Adds an object with as many fields as its class has. There is always room. -/
def alloc (P : Program) (cls : ClassId) (fields : List Ref) :
    Action GraphSession (Option View) := fun t =>
  if fields.length = P.fieldCount cls then
    note (t.graph.alloc cls fields).1 { t with graph := (t.graph.alloc cls fields).2, recent := [] }
  else .error (.typeError (.fieldCount cls (P.fieldCount cls) fields.length)) t

/-- How a graph answers an operation. -/
def perform (P : Program) (op : Operation) : Action GraphSession (Option View) := fun t =>
  match op with
  | .alloc cls fields => alloc P cls (fields.map t.ref) t
  | .allocArray elements => alloc P (.array elements.length) (elements.map t.ref) t
  | .field object index =>
    match t.graph.read (t.ref object) index with
    | .ok r => note r t
    | .error e => .error e t
  | .setField object index v =>
    match t.graph.write (t.ref object) index (t.ref v) with
    | .ok graph => .ok none { t with graph }
    | .error e => .error e t
  | .setGlobal index v =>
    if index.toNat < t.globals.length then
      .ok none { t with globals := t.globals.set index.toNat (t.ref v) }
    else .error (.invalidGlobal index) t
  | .push v => .ok none { t with roots := t.roots ++ [t.ref v] }
  | .drop index => .ok none { t with roots := t.roots.eraseIdx index }
  | .collect => .ok none { t with recent := [] }

end GraphSession

/-! ### Reading and writing -/

section

variable {P : Program} {cs : List ClassId} {g : Graph} {place : Nat → Option Nat}
  {globals : List Ref} {p : Image} {r s : Ref} {v w : Value}

lemma Graph.Ref.At.cls_eq {L : Layout} (hr : r.At L g place v) : r.cls g = v.tag := by
  cases r with
  | inline u => rw [hr.1, Ref.cls]
  | node a => rw [Ref.cls, hr.1, Option.getD_some]

lemma Image.Shows.view_eq (hp : p.Shows P cs g place globals) (hr : r.At P.fieldCount g place v) :
    r.view g = v.view P := by
  have hcls := hr.cls_eq
  cases r with
  | inline u =>
      obtain ⟨rfl, hzero, -⟩ := hr
      rw [Ref.view, Value.view, if_pos hzero]
  | node a =>
      rw [Ref.view, Value.view, if_neg (Nat.ne_of_gt (hr.pos_of_node hp.heap)), hcls]

/-- A field past the fields of the class is out of range on both sides. -/
lemma Image.Shows.read_of_le (hp : p.Shows P cs g place globals)
    (hr : r.At P.fieldCount g place v) {i : Nat} (hi : P.fieldCount v.tag ≤ i) :
    g.read r i = .error (.fieldOutOfRange v.tag i) ∧
      g.write r i s = .error (.fieldOutOfRange v.tag i) := by
  have hcls := hr.cls_eq
  cases r with
  | inline u => exact ⟨by rw [Graph.read, hcls], by rw [Graph.write, hcls]⟩
  | node a =>
      obtain ⟨hclass, hplace⟩ := hr
      obtain ⟨n, hn, -, -, hlen, -⟩ := hp.heap.node hplace
      rw [Graph.class?, hn, Option.map_some, Option.some.injEq] at hclass
      have hnone : g.field? a i = none := by
        rw [Graph.field?, hn, Option.bind_some, List.getElem?_eq_none_iff, hlen, hclass]
        exact hi
      constructor
      · rw [Graph.read, hnone, hcls]
      · rw [Graph.write, hnone, hcls]
        rfl

/-- Reading a field of an image follows the graph, faults included. -/
lemma Image.Shows.read (hp : p.Shows P cs g place globals) (hr : r.At P.fieldCount g place v)
    (i : Nat) :
    (∃ (t : Ref) (u : Value), g.read r i = .ok t ∧ p.field P v i = .ok u ∧
      t.At P.fieldCount g place u) ∨
    ∃ e, g.read r i = .error e ∧ p.field P v i = .error e := by
  by_cases hi : i < P.fieldCount v.tag
  · obtain ⟨a, rfl, -⟩ := hr.eq_node (by omega)
    obtain ⟨t, u, ht, hu, hat⟩ := hp.field hr hi
    refine .inl ⟨t, u, ?_, hu, hat⟩
    rw [Graph.read, ht]
  · refine .inr ⟨.fieldOutOfRange v.tag i, (hp.read_of_le (s := r) hr (by omega)).1, ?_⟩
    rw [Image.field, checkField, if_neg hi]
    rfl

/-- Following a path through an image follows the graph. -/
lemma Image.Shows.follow (hp : p.Shows P cs g place globals) (hr : r.At P.fieldCount g place v)
    (path : List Nat) :
    (∃ (t : Ref) (u : Value), g.follow r path = .ok t ∧ p.follow P v path = .ok u ∧
      t.At P.fieldCount g place u) ∨
    ∃ e, g.follow r path = .error e ∧ p.follow P v path = .error e := by
  induction path generalizing r v with
  | nil => exact .inl ⟨r, v, rfl, rfl, hr⟩
  | cons i path ih =>
      rw [Graph.follow, Image.follow, List.foldlM_cons, List.foldlM_cons]
      rcases hp.read hr i with ⟨t, u, ht, hu, hat⟩ | ⟨e, hr, hv⟩
      · rw [ht, hu]
        exact ih hat
      · rw [hr, hv]
        exact .inr ⟨e, rfl, rfl⟩

/-- Setting a field of an image follows the graph, faults included. -/
lemma Image.Shows.write (hp : p.Shows P cs g place globals) (hr : r.At P.fieldCount g place v)
    (hs : s.At P.fieldCount g place w) (i : Nat) :
    (∃ g' p', g.write r i s = .ok g' ∧ (∀ a, g'.class? a = g.class? a) ∧
      Image.setField P v i w p = .ok () p' ∧ p'.Shows P cs g' place globals) ∨
    ∃ e, g.write r i s = .error e ∧ Image.setField P v i w p = .error e p := by
  by_cases hi : i < P.fieldCount v.tag
  · obtain ⟨a, rfl, -⟩ := hr.eq_node (by omega)
    obtain ⟨t, u, ht, -⟩ := hp.field hr hi
    obtain ⟨hset, hp'⟩ := hp.setField hr hi hs
    refine .inl ⟨g.setField a i s, _, ?_, Graph.class?_setField g a i s, hset, hp'⟩
    rw [Graph.write, ht]
    rfl
  · refine .inr ⟨.fieldOutOfRange v.tag i, (hp.read_of_le hr (by omega)).2, ?_⟩
    simp [Image.setField, checkField, if_neg hi, Action.ofExcept, bind, EStateM.bind]

end

/-! ### Simulation -/

lemma forall₂_eraseIdx {α β : Type} {R : α → β → Prop} {xs : List α} {ys : List β}
    (h : List.Forall₂ R xs ys) (i : Nat) : List.Forall₂ R (xs.eraseIdx i) (ys.eraseIdx i) := by
  induction h generalizing i with
  | nil => exact .nil
  | cons hd tl ih =>
      cases i with
      | zero => exact tl
      | succ i => exact .cons hd (ih i)

namespace Session

variable {P : Program} {s : Session} {t : GraphSession}

/-- Every value that the session holds stands for the reference that the graph
session holds in the same place. -/
def Mirrors (P : Program) (s : Session) (t : GraphSession) : Prop :=
  ∃ cs place, s.image.Shows P cs t.graph place t.globals ∧
    List.Forall₂ (Ref.At P.fieldCount t.graph place) t.roots s.roots ∧
    List.Forall₂ (Ref.At P.fieldCount t.graph place) t.recent s.recent

lemma argument_at (hempty : P.fieldCount .empty = 0) (hclasses : P.classes.size < 2 ^ 31)
    {g : Graph} {place : Nat → Option Nat}
    (hglobals : List.Forall₂ (Ref.At P.fieldCount g place) t.globals s.image.globals.toList)
    (hroots : List.Forall₂ (Ref.At P.fieldCount g place) t.roots s.roots)
    (hrecent : List.Forall₂ (Ref.At P.fieldCount g place) t.recent s.recent)
    {o : Argument} (ho : o.Admissible P) :
    (t.ref o).At P.fieldCount g place (s.value o) := by
  have hnil : (Ref.inline .nil).At P.fieldCount g place .nil := ⟨rfl, hempty, by decide⟩
  have hget : ∀ {rs : List Ref} {vs : List Value} (i : Nat),
      List.Forall₂ (Ref.At P.fieldCount g place) rs vs →
      (rs.getD i (.inline .nil)).At P.fieldCount g place (vs.getD i .nil) := by
    intro rs vs i h
    by_cases hi : i < vs.length
    · have hi' : i < rs.length := h.length_eq ▸ hi
      rw [List.getD_eq_getElem?_getD, List.getD_eq_getElem?_getD, List.getElem?_eq_getElem hi,
        List.getElem?_eq_getElem hi']
      exact (List.forall₂_iff_get.mp h).2 i hi' hi
    · have hi' : rs.length ≤ i := by
        rw [h.length_eq]
        omega
      rw [List.getD_eq_getElem?_getD, List.getD_eq_getElem?_getD, List.getElem?_eq_none hi',
        List.getElem?_eq_none (by omega)]
      exact hnil
  cases o with
  | inline v => exact ⟨rfl, ho.2, ho.1.ne_forwarded hclasses⟩
  | root i => exact hget i hroots
  | global i => exact hget i hglobals
  | recent i => exact hget i hrecent

lemma arguments_at (hempty : P.fieldCount .empty = 0) (hclasses : P.classes.size < 2 ^ 31)
    {g : Graph} {place : Nat → Option Nat}
    (hglobals : List.Forall₂ (Ref.At P.fieldCount g place) t.globals s.image.globals.toList)
    (hroots : List.Forall₂ (Ref.At P.fieldCount g place) t.roots s.roots)
    (hrecent : List.Forall₂ (Ref.At P.fieldCount g place) t.recent s.recent)
    {os : List Argument} (hos : ∀ o ∈ os, o.Admissible P) :
    List.Forall₂ (Ref.At P.fieldCount g place) (os.map t.ref) (os.map s.value) := by
  induction os with
  | nil => exact .nil
  | cons o os ih =>
      refine .cons (argument_at hempty hclasses hglobals hroots hrecent (hos o List.mem_cons_self))
        (ih fun o' ho' => hos o' (List.mem_cons_of_mem _ ho'))

/-- Two answers are the same, and lead to states of which one mirrors the
other. -/
def Alike (P : Program) : EStateM.Result Fault Session (Option View) →
    EStateM.Result Fault GraphSession (Option View) → Prop
  | .ok a s, .ok b t => a = b ∧ s.Mirrors P t
  | .error e s, .error e' t => e = e' ∧ s.Mirrors P t
  | _, _ => False

lemma note_alike {cs : List ClassId} {place : Nat → Option Nat} {r : Ref} {v : Value}
    (hp : s.image.Shows P cs t.graph place t.globals)
    (hroots : List.Forall₂ (Ref.At P.fieldCount t.graph place) t.roots s.roots)
    (hrecent : List.Forall₂ (Ref.At P.fieldCount t.graph place) t.recent s.recent)
    (hr : r.At P.fieldCount t.graph place v) :
    Alike P (note P v s) (GraphSession.note r t) := by
  refine ⟨congrArg some (hp.view_eq hr).symm, cs, place, hp, hroots, ?_⟩
  exact List.rel_append hrecent (.cons hr .nil)

/-- An allocation is answered alike, unless it runs out of memory. -/
lemma alloc_alike {cs : List ClassId} {place : Nat → Option Nat}
    (hp : s.image.Shows P cs t.graph place t.globals)
    (hroots : List.Forall₂ (Ref.At P.fieldCount t.graph place) t.roots s.roots)
    (hrecent : List.Forall₂ (Ref.At P.fieldCount t.graph place) t.recent s.recent)
    {cls : ClassId} {refs : List Ref} {fields : List Value}
    (hfields : List.Forall₂ (Ref.At P.fieldCount t.graph place) refs fields)
    (hcls : fields.length = P.fieldCount cls → cls ≠ .forwarded) :
    (∃ n k s', (collecting (Image.alloc P .list cls fields) >>= note P) s =
      .error (.outOfMemory n k) s') ∨
    Alike P ((collecting (Image.alloc P .list cls fields) >>= note P) s)
      (GraphSession.alloc P cls refs t) := by
  have hreflen : refs.length = fields.length := hfields.length_eq
  by_cases hlen : fields.length = P.fieldCount cls
  · rcases Image.alloc_shows (R := Roots.list) hp hroots hfields (hcls hlen) hlen with
      ⟨v, p', roots', cs', place', hrun, hp', -, hroots', hv⟩ | ⟨n, k, s', hrun⟩
    · right
      have hs : (collecting (Image.alloc P .list cls fields) >>= note P) s =
          note P v ⟨p', roots', []⟩ := by
        simp only [bind, EStateM.bind, collecting, hrun]
      rw [hs, GraphSession.alloc, if_pos (by omega)]
      exact note_alike hp' hroots' .nil hv
    · left
      refine ⟨n, k, { s with image := s'.1, roots := s'.2 }, ?_⟩
      simp only [bind, EStateM.bind, collecting, hrun]
  · right
    have hs : (collecting (Image.alloc P .list cls fields) >>= note P) s =
        .error (.typeError (.fieldCount cls (P.fieldCount cls) fields.length)) s := by
      simp only [bind, EStateM.bind, collecting, Image.alloc_of_length_ne hlen]
    rw [hs, GraphSession.alloc, if_neg (by omega), hreflen]
    exact ⟨rfl, cs, place, hp, hroots, hrecent⟩

lemma writing_alike {cs : List ClassId} {place : Nat → Option Nat} {t' : GraphSession}
    {act : Action Image Unit} {p' : Image} (hact : act s.image = .ok () p')
    (hp : p'.Shows P cs t'.graph place t'.globals)
    (hroots : List.Forall₂ (Ref.At P.fieldCount t'.graph place) t'.roots s.roots)
    (hrecent : List.Forall₂ (Ref.At P.fieldCount t'.graph place) t'.recent s.recent) :
    Alike P (writing act s) (.ok none t') := by
  rw [writing, hact]
  exact ⟨rfl, cs, place, hp, hroots, hrecent⟩

/-- A fault that leaves the state as it was is answered alike. -/
lemma writing_error_alike (hm : s.Mirrors P t) {act : Action Image Unit} {e : Fault}
    (hact : act s.image = .error e s.image) : Alike P (writing act s) (.error e t) := by
  rw [writing, hact]
  exact ⟨rfl, hm⟩

/-- **One operation** is answered alike and keeps the two sides together, unless
it runs out of memory. -/
theorem perform_mirrors (hempty : P.fieldCount .empty = 0) (hclasses : P.classes.size < 2 ^ 31)
    (hm : s.Mirrors P t) {op : Operation} (hop : op.Admissible P) :
    (∃ n k s', perform P op s = .error (.outOfMemory n k) s') ∨
    Alike P (perform P op s) (GraphSession.perform P op t) := by
  obtain ⟨cs, place, hp, hroots, hrecent⟩ := id hm
  have hone : ∀ {o : Argument}, o.Admissible P →
      (t.ref o).At P.fieldCount t.graph place (s.value o) := fun ho =>
    argument_at hempty hclasses hp.globals hroots hrecent ho
  have hmany : ∀ {os : List Argument}, (∀ o ∈ os, o.Admissible P) →
      List.Forall₂ (Ref.At P.fieldCount t.graph place) (os.map t.ref) (os.map s.value) :=
    fun hos => arguments_at hempty hclasses hp.globals hroots hrecent hos
  cases op with
  | alloc cls fields =>
      exact alloc_alike hp hroots hrecent (hmany hop.2) fun _ => hop.1.ne_forwarded hclasses
  | allocArray elements =>
      rw [perform, GraphSession.perform, Image.allocArray, List.length_map]
      refine alloc_alike hp hroots hrecent (hmany hop) fun hlen => ?_
      rw [List.length_map] at hlen
      exact Program.array_ne_forwarded (Program.fieldCount_forwarded hclasses) hlen
  | field object index =>
      right
      rw [perform, GraphSession.perform]
      rcases hp.read (hone hop) index with ⟨r, v, hr, hv, hat⟩ | ⟨e, hr, hv⟩
      · rw [hr, hv]
        exact note_alike hp hroots hrecent hat
      · rw [hr, hv]
        exact ⟨rfl, hm⟩
  | setField object index v =>
      right
      rw [perform, GraphSession.perform]
      rcases hp.write (hone hop.1) (hone hop.2) index with
        ⟨g', p', hg', hclass, hset, hp'⟩ | ⟨e, hg', hset⟩
      · have hmono : ∀ r u, Ref.At P.fieldCount t.graph place r u →
            Ref.At P.fieldCount g' place r u :=
          fun r u hr => hr.of_class_eq fun a c hc => (hclass a).trans hc
        rw [hg']
        exact writing_alike hset hp' (hroots.imp hmono) (hrecent.imp hmono)
      · rw [hg']
        exact writing_error_alike hm hset
  | setGlobal index v =>
      right
      rw [perform, GraphSession.perform]
      by_cases hi : index.toNat < t.globals.length
      · obtain ⟨hset, hp'⟩ := hp.setGlobal hi (hone hop)
        rw [if_pos hi]
        exact writing_alike hset hp' hroots hrecent
      · have hsize : ¬index.toNat < s.image.globals.size := by
          rwa [← Array.length_toList, ← hp.globals.length_eq]
        rw [if_neg hi]
        exact writing_error_alike hm (by rw [Image.setGlobal, if_neg hsize])
  | push v =>
      exact .inr ⟨rfl, cs, place, hp, List.rel_append hroots (.cons (hone hop) .nil), hrecent⟩
  | drop index =>
      exact .inr ⟨rfl, cs, place, hp, forall₂_eraseIdx hroots index, hrecent⟩
  | collect =>
      right
      obtain ⟨p', roots', cs', place', hrun, hp', -, hroots'⟩ :=
        Image.collect_shows (R := Roots.list) hp hroots
      have hs : perform P .collect s = .ok none ⟨p', roots', []⟩ := by
        simp only [perform, bind, EStateM.bind, collecting, hrun, pure, EStateM.pure]
      rw [hs]
      exact ⟨rfl, cs', place', hp', hroots', .nil⟩

/-- **A sequence of operations** in which none runs out of memory is answered
alike and keeps the two sides together. -/
theorem replay_mirrors (hempty : P.fieldCount .empty = 0) (hclasses : P.classes.size < 2 ^ 31)
    (hm : s.Mirrors P t) {ops : List Operation} (hops : ∀ op ∈ ops, op.Admissible P)
    (hmemory : ∀ n k, .error (.outOfMemory n k) ∉ (replay (perform P) ops s).1) :
    (replay (perform P) ops s).1 = (replay (GraphSession.perform P) ops t).1 ∧
      (replay (perform P) ops s).2.Mirrors P (replay (GraphSession.perform P) ops t).2 := by
  induction ops generalizing s t with
  | nil => exact ⟨rfl, hm⟩
  | cons op ops ih =>
      have hrest : ∀ op' ∈ ops, op'.Admissible P := fun op' h => hops op' (List.mem_cons_of_mem _ h)
      rw [replay] at hmemory
      rw [replay, replay]
      rcases perform_mirrors hempty hclasses hm (hops op List.mem_cons_self) with
        ⟨n, k, s', hs⟩ | halike
      · rw [hs] at hmemory
        exact absurd List.mem_cons_self (hmemory n k)
      · revert hmemory halike
        cases perform P op s with
        | ok a s' =>
            intro hmemory halike
            cases ht : GraphSession.perform P op t with
            | ok b t' =>
                rw [ht] at halike
                obtain ⟨hanswers, hfinal⟩ := ih halike.2 hrest fun n k h =>
                  hmemory n k (List.mem_cons_of_mem _ h)
                exact ⟨congrArg₂ List.cons (congrArg Except.ok halike.1) hanswers, hfinal⟩
            | error e' t' => rw [ht] at halike; exact halike.elim
        | error e s' =>
            intro hmemory halike
            cases ht : GraphSession.perform P op t with
            | ok b t' => rw [ht] at halike; exact halike.elim
            | error e' t' =>
                rw [ht] at halike
                obtain ⟨hanswers, hfinal⟩ := ih halike.2 hrest fun n k h =>
                  hmemory n k (List.mem_cons_of_mem _ h)
                exact ⟨congrArg₂ List.cons (congrArg Except.error halike.1) hanswers, hfinal⟩

/-! ### What can be read -/

/-- The same path of fields, from the same argument on, leads to the value and to
the reference. -/
def Meet (P : Program) (s : Session) (t : GraphSession) (v : Value) (r : Ref) : Prop :=
  ∃ (o : Argument) (path : List Nat), o.Admissible P ∧ s.image.follow P (s.value o) path = .ok v ∧
    t.graph.follow (t.ref o) path = .ok r

/-- What paths lead to stands for what they lead to in the graph. -/
lemma Meet.at {cs : List ClassId} {place : Nat → Option Nat} {v : Value} {r : Ref}
    (hempty : P.fieldCount .empty = 0) (hclasses : P.classes.size < 2 ^ 31)
    (hp : s.image.Shows P cs t.graph place t.globals)
    (hroots : List.Forall₂ (Ref.At P.fieldCount t.graph place) t.roots s.roots)
    (hrecent : List.Forall₂ (Ref.At P.fieldCount t.graph place) t.recent s.recent)
    (h : Meet P s t v r) : r.At P.fieldCount t.graph place v := by
  obtain ⟨o, path, ho, hv, hr⟩ := h
  rcases hp.follow (argument_at hempty hclasses hp.globals hroots hrecent ho) path with
    ⟨r', v', hr', hv', hat⟩ | ⟨e, he, -⟩
  · cases hr.symm.trans hr'
    cases hv.symm.trans hv'
    exact hat
  · cases hr.symm.trans he

/-- Every path shows on both sides the same. -/
lemma Mirrors.follow_view (hempty : P.fieldCount .empty = 0) (hclasses : P.classes.size < 2 ^ 31)
    (hm : s.Mirrors P t) {o : Argument} (ho : o.Admissible P) (path : List Nat) :
    (s.image.follow P (s.value o) path).map (·.view P) =
      (t.graph.follow (t.ref o) path).map (·.view t.graph) := by
  obtain ⟨cs, place, hp, hroots, hrecent⟩ := hm
  rcases hp.follow (argument_at hempty hclasses hp.globals hroots hrecent ho) path with
    ⟨r, v, hr, hv, hat⟩ | ⟨e, hr, hv⟩
  · rw [hr, hv, Except.map, Except.map, hp.view_eq hat]
  · rw [hr, hv, Except.map, Except.map]

/-- Two paths lead to the same object exactly when they lead to the same node. -/
lemma Mirrors.eq_iff (hempty : P.fieldCount .empty = 0) (hclasses : P.classes.size < 2 ^ 31)
    (hm : s.Mirrors P t) {v v' : Value} {r r' : Ref} (h : Meet P s t v r)
    (h' : Meet P s t v' r') : v = v' ↔ r = r' := by
  obtain ⟨cs, place, hp, hroots, hrecent⟩ := hm
  have hat := h.at hempty hclasses hp hroots hrecent
  have hat' := h'.at hempty hclasses hp hroots hrecent
  constructor
  · rintro rfl
    exact hat.ref_eq hp.heap hat'
  · rintro rfl
    exact hat.value_eq hat'

/-- A field that is set is read back through every path to the node, and nothing
else changes. -/
lemma Mirrors.field_setField (hempty : P.fieldCount .empty = 0)
    (hclasses : P.classes.size < 2 ^ 31) (hm : s.Mirrors P t) {v : Value} {r : Ref}
    (h : Meet P s t v r) {i : Nat} (hi : i < P.fieldCount v.tag) {x : Argument}
    (hx : x.Admissible P) :
    ∃ p', Image.setField P v i (s.value x) s.image = .ok () p' ∧
      ∀ (v' : Value) (r' : Ref), Meet P s t v' r' → ∀ j, p'.field P v' j =
        if r = r' ∧ i = j then .ok (s.value x) else s.image.field P v' j := by
  obtain ⟨cs, place, hp, hroots, hrecent⟩ := hm
  have hat := h.at hempty hclasses hp hroots hrecent
  have hxat := argument_at hempty hclasses hp.globals hroots hrecent hx
  obtain ⟨a, rfl, -⟩ := hat.eq_node (Nat.zero_lt_of_lt hi)
  obtain ⟨hset, hp'⟩ := hp.setField hat hi hxat
  refine ⟨_, hset, fun v' r' h' j => ?_⟩
  have hat' := h'.at hempty hclasses hp hroots hrecent
  by_cases hj : j < P.fieldCount v'.tag
  · obtain ⟨b, rfl, -⟩ := hat'.eq_node (Nat.zero_lt_of_lt hj)
    have hmono : ∀ {q : Ref} {u : Value}, q.At P.fieldCount t.graph place u →
        q.At P.fieldCount (t.graph.setField a i (t.ref x)) place u :=
      fun hq => hq.of_class_eq fun _ _ hc => by rwa [Graph.class?_setField]
    obtain ⟨q, u, hq, hu, hqat⟩ := hp.field hat' hj
    obtain ⟨q', u', hq', hu', hqat'⟩ := hp'.field (hmono hat') hj
    rw [Graph.field?_setField, hq] at hq'
    rw [hu', hu]
    by_cases hsame : a = b ∧ i = j
    · rw [if_pos hsame, Option.map_some, Option.some.injEq] at hq'
      subst hq'
      rw [if_pos ⟨congrArg Ref.node hsame.1, hsame.2⟩, hqat'.value_eq (hmono hxat)]
    · rw [if_neg hsame, Option.some.injEq] at hq'
      subst hq'
      rw [if_neg fun hc => hsame ⟨Ref.node.inj hc.1, hc.2⟩, hqat'.value_eq (hmono hqat)]
  · have hne : ¬(Ref.node a = r' ∧ i = j) := by
      rintro ⟨rfl, rfl⟩
      rw [hat'.value_eq hat] at hj
      exact hj hi
    rw [if_neg hne, Image.field, Image.field, Image.checkField, if_neg hj]
    rfl

/-- **The heap refines the graph.** Whatever operations are done on a fresh
image, if none runs out of memory, then all are answered as by a graph without
limit; every path of fields shows the class and the inline data that it shows
in the graph; two paths lead to the same object exactly when they lead to the
same node; and a field that is set is seen through every path to its node, and
through no other. What marks a global as unset has to be inline, and the words
of the heap and the classes of the table have to fit the 32 bits with which values
name them. -/
theorem replay_refines_graph (P : Program) (options : Options) (journal : Journal)
    (hempty : P.fieldCount .empty = 0) (hclasses : P.classes.size < 2 ^ 31)
    (hwords : options.heapWords ≤ 2 ^ 32) (ops : List Operation)
    (hops : ∀ op ∈ ops, op.Admissible P)
    (hmemory : ∀ n k, .error (.outOfMemory n k) ∉
      (replay (perform P) ops (fresh P options journal)).1) :
    let s := (replay (perform P) ops (fresh P options journal)).2
    let t := (replay (GraphSession.perform P) ops (GraphSession.fresh P)).2
    (replay (perform P) ops (fresh P options journal)).1 =
      (replay (GraphSession.perform P) ops (GraphSession.fresh P)).1 ∧
    (∀ (o : Argument) (path : List Nat), o.Admissible P →
      (s.image.follow P (s.value o) path).map (·.view P) =
        (t.graph.follow (t.ref o) path).map (·.view t.graph)) ∧
    (∀ (v v' : Value) (r r' : Ref), Meet P s t v r → Meet P s t v' r' → (v = v' ↔ r = r')) ∧
    ∀ (v : Value) (r : Ref) (i : Nat) (x : Argument), Meet P s t v r → i < P.fieldCount v.tag →
      x.Admissible P → ∃ p', Image.setField P v i (s.value x) s.image = .ok () p' ∧
        ∀ (v' : Value) (r' : Ref), Meet P s t v' r' → ∀ j, p'.field P v' j =
          if r = r' ∧ i = j then .ok (s.value x) else s.image.field P v' j := by
  intro s t
  have hfresh : (fresh P options journal).Mirrors P (GraphSession.fresh P) :=
    ⟨[], _, .fresh hempty hwords journal, .nil, .nil⟩
  obtain ⟨hanswers, hfinal⟩ := replay_mirrors hempty hclasses hfresh hops hmemory
  exact ⟨hanswers, fun o path ho => hfinal.follow_view hempty hclasses ho path,
    fun v v' r r' h h' => hfinal.eq_iff hempty hclasses h h',
    fun v r i x h hi hx => hfinal.field_setField hempty hclasses h hi hx⟩

/-- A program with pairs and one global. -/
def pairProgram : Program where
  globalCount := 1
  classes := #[⟨"Empty", .user, 0⟩, ⟨"Pair", .user, 2⟩]

/-- Makes a pair that is given up and one that is kept, and then a pair of the
kept one with itself, for which two pairs leave no room; and sets a field of the
kept one through a path. -/
def pairOperations : List Operation :=
  [.alloc ⟨1⟩ [.inline .nil, .inline .nil], .alloc ⟨1⟩ [.inline .nil, .inline .nil],
    .push (.recent 0), .alloc ⟨1⟩ [.root 0, .root 0], .setGlobal 0 (.recent 0),
    .field (.global 0) 1, .setField (.recent 1) 0 (.global 0), .collect]

/-- A heap of two pairs, in which collections have moved the pair that is kept,
shows the object graph. -/
theorem replay_refines_graph_pairs :
    let s := (replay (perform pairProgram) pairOperations (fresh pairProgram ⟨4, 4⟩ {})).2
    s.image.heap.stats.collections = 2 ∧
    (s.image.follow pairProgram (s.value (.root 0)) [0, 1]).map (·.view pairProgram) =
      .ok ⟨⟨1⟩, none⟩ := by
  refine ⟨by decide +kernel, ?_⟩
  have hmemory : (replay (perform pairProgram) pairOperations (fresh pairProgram ⟨4, 4⟩ {})).1 =
    [.ok (some ⟨⟨1⟩, none⟩), .ok (some ⟨⟨1⟩, none⟩), .ok none, .ok (some ⟨⟨1⟩, none⟩), .ok none,
      .ok (some ⟨⟨1⟩, none⟩), .ok none, .ok none] := by rfl
  obtain ⟨-, hviews, -, -⟩ := replay_refines_graph pairProgram ⟨4, 4⟩ {} (by decide) (by decide)
    (by decide) pairOperations (by decide) (by rw [hmemory]; simp)
  exact (hviews (.root 0) [0, 1] trivial).trans (by rfl)

/-- A program whose unset global names an object of one field. -/
def fieldedProgram : Program where
  globalCount := 1
  classes := #[⟨"Empty", .user, 1⟩, ⟨"Pair", .user, 2⟩, ⟨"Int", .int, 0⟩]

/-- Makes a pair of two numbers, keeps it and collects. -/
def keepPair : List Operation :=
  [.alloc ⟨1⟩ [.inline ⟨⟨2⟩, 1⟩, .inline ⟨⟨2⟩, 2⟩], .push (.recent 0), .collect]

/-- If the values that mark what is unset have fields, a collection takes the unset global for an
object at the first word. It copies this word and leaves its marker there, and the second field of
the pair is lost, which the graph keeps. -/
theorem replay_loses_field :
    let s := (replay (perform fieldedProgram) keepPair (fresh fieldedProgram ⟨8, 4⟩ {})).2
    let t := (replay (GraphSession.perform fieldedProgram) keepPair
      (GraphSession.fresh fieldedProgram)).2
    fieldedProgram.fieldCount .empty = 1 ∧
    (∀ op ∈ keepPair, op.Admissible fieldedProgram) ∧
    (replay (perform fieldedProgram) keepPair (fresh fieldedProgram ⟨8, 4⟩ {})).1 =
      [.ok (some ⟨⟨1⟩, none⟩), .ok none, .ok none] ∧
    (s.image.follow fieldedProgram (s.value (.root 0)) [1]).map (·.view fieldedProgram) =
      .error (.invalidReference ⟨1⟩ 0) ∧
    (t.graph.follow (t.ref (.root 0)) [1]).map (·.view t.graph) = .ok ⟨⟨2⟩, some 2⟩ :=
  ⟨rfl, by decide, rfl, rfl, rfl⟩

end Session

end EffectMachine
