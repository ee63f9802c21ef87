/-
Two machines in lockstep.

The machines run one program in heaps and register files of different sizes.
Their heaps hold the same object graph, each in its own places, and what they
hold in the same register stands for the same reference. A machine beside
itself is the special case in which all its values name objects.

* `Agrees`: two results are faults of one kind, or results that satisfy a
  condition; only for want of registers or heap can one be a fault alone, and no
  fault is about a value that names no object. `Agrees.bind` is the rule for
  sequences;
* `World`, `World.Pairs`: the graph with its two placements, and values that
  stand for the same reference;
* `Together`: machines in lockstep, whose registers correspond up to an extent;
* `Together.setRegister`, `Together.field`, `Together.alloc` and so on: **the
  operations of the machine keep machines in lockstep**.
-/
import EffectMachine.Proofs.ImageGraph
import EffectMachine.Proofs.LinkedProgram
import EffectMachine.Proofs.Primitives

namespace EffectMachine

open EffectMachine.Graph (Ref Node)

/-! ### Results that agree -/

/-- The fault is about too few registers or too small a heap. -/
def Fault.starved : Fault → Bool
  | .stackOverflow => true
  | .outOfMemory _ _ => true
  | _ => false

/-- The fault is about a value that names no object. -/
def Fault.dangling : Fault → Bool
  | .invalidReference _ _ => true
  | _ => false

/-- Two faults agree: one is about size, or both are of one kind and not about
a value that names no object. -/
def Fault.Agrees (e₁ e₂ : Fault) : Prop :=
  e₁.starved = true ∨ e₂.starved = true ∨ (e₁.ctorIdx = e₂.ctorIdx ∧ e₁.dangling = false)

/-- Two results agree: they satisfy the condition, or are faults that agree, or
one alone is a fault, which is about size. -/
def Agrees {α : Type} (Q : α → Machine → α → Machine → Prop) :
    EStateM.Result Fault Machine α → EStateM.Result Fault Machine α → Prop
  | .ok a₁ m₁, .ok a₂ m₂ => Q a₁ m₁ a₂ m₂
  | .ok _ _, .error e₂ _ => e₂.starved = true
  | .error e₁ _, .ok _ _ => e₁.starved = true
  | .error e₁ _, .error e₂ _ => e₁.Agrees e₂

namespace Agrees

variable {α β : Type} {Q Q' : α → Machine → α → Machine → Prop}
  {R : β → Machine → β → Machine → Prop} {m₁ m₂ : Machine}

lemma mono {r₁ r₂ : EStateM.Result Fault Machine α} (h : Agrees Q r₁ r₂)
    (hQ : ∀ a₁ s₁ a₂ s₂, Q a₁ s₁ a₂ s₂ → Q' a₁ s₁ a₂ s₂) : Agrees Q' r₁ r₂ := by
  cases r₁ <;> cases r₂
  · exact hQ _ _ _ _ h
  · exact h
  · exact h
  · exact h

lemma bind {x₁ x₂ : MachineM α} {f₁ f₂ : α → MachineM β} (hx : Agrees Q (x₁ m₁) (x₂ m₂))
    (hf : ∀ a₁ s₁ a₂ s₂, Q a₁ s₁ a₂ s₂ → Agrees R (f₁ a₁ s₁) (f₂ a₂ s₂)) :
    Agrees R ((x₁ >>= f₁) m₁) ((x₂ >>= f₂) m₂) := by
  rw [Machine.bind_apply, Machine.bind_apply]
  revert hx
  cases x₁ m₁ with
  | ok a₁ s₁ =>
      cases x₂ m₂ with
      | ok a₂ s₂ => exact fun hx => hf a₁ s₁ a₂ s₂ hx
      | error e₂ s₂ =>
          -- the first machine may go on as it likes
          intro hx
          dsimp only
          cases f₁ a₁ s₁ with
          | ok b t => exact hx
          | error e t => exact .inr (.inl hx)
  | error e₁ s₁ =>
      cases x₂ m₂ with
      | ok a₂ s₂ =>
          intro hx
          dsimp only
          cases f₂ a₂ s₂ with
          | ok b t => exact hx
          | error e t => exact .inl hx
      | error e₂ s₂ => exact id

/-- The condition may speak of what the first result is. -/
lemma with_eq {r₁ r₂ : EStateM.Result Fault Machine α} (h : Agrees Q r₁ r₂) :
    Agrees (fun a₁ s₁ a₂ s₂ => r₁ = .ok a₁ s₁ ∧ Q a₁ s₁ a₂ s₂) r₁ r₂ := by
  cases r₁ <;> cases r₂
  · exact ⟨rfl, h⟩
  · exact h
  · exact h
  · exact h

lemma of_error {e₁ e₂ : Fault} (hkind : e₁.ctorIdx = e₂.ctorIdx) (hdangling : e₁.dangling = false) :
    Agrees Q (.error e₁ m₁) (.error e₂ m₂) :=
  .inr (.inr ⟨hkind, hdangling⟩)

/-- If one machine lacks registers or heap, the other may do as it likes. -/
lemma of_starved_left {e₁ : Fault} (h : e₁.starved = true)
    (r₂ : EStateM.Result Fault Machine α) : Agrees Q (.error e₁ m₁) r₂ := by
  cases r₂ with
  | ok a s => exact h
  | error e s => exact .inl h

lemma of_starved_right {e₂ : Fault} (h : e₂.starved = true)
    (r₁ : EStateM.Result Fault Machine α) : Agrees Q r₁ (.error e₂ m₂) := by
  cases r₁ with
  | ok a s => exact h
  | error e s => exact .inr (.inl h)

lemma throw {e : Fault} (h : e.dangling = false) :
    Agrees Q ((throw e : MachineM α) m₁) ((throw e : MachineM α) m₂) :=
  of_error rfl h

end Agrees

/-! ### Threads as holders of roots -/

/-- What steers a machine, apart from values. -/
structure Control where
  pos : UInt32
  frame : Nat
  frameEnd : Nat
  context : Nat
  transfer : Option Transfer

/-- What steers the machine. -/
def Machine.control (m : Machine) : Control :=
  ⟨m.thread.pos, m.thread.frame, m.thread.frameEnd, m.thread.context, m.transfer⟩

/-- The references of a thread: that of the value register, and then those of the
registers in use. -/
lemma Thread.refs_of_roots {R : Ref → Value → Prop} {refs : List Ref} {t : Thread}
    (h : List.Forall₂ R refs (Thread.roots.get t)) (hlive : t.liveEnd ≤ t.registers.size) :
    (∃ r, refs[0]? = some r ∧ R r t.value) ∧
      ∀ i < t.liveEnd, ∃ r, refs[i + 1]? = some r ∧ R r (t.registers.cell i) := by
  cases h with
  | @cons r _ refs _ hv htail =>
      refine ⟨⟨r, rfl, hv⟩, fun i hi => ?_⟩
      have hget := Cells.getElem?_extract_toList t.registers 0 t.liveEnd i (by omega)
      rw [if_pos hi, Nat.zero_add, Nat.zero_add] at hget
      obtain ⟨hi', hcell⟩ := List.getElem?_eq_some_iff.mp hget
      have hi'' : i < refs.length := by
        rw [htail.length_eq]
        exact hi'
      refine ⟨refs[i], List.getElem?_eq_getElem hi'', ?_⟩
      rw [← hcell]
      exact (List.forall₂_iff_get.mp htail).2 i hi'' hi'

/-- Allocation in a machine follows the graph, the thread keeping what its
registers stand for. -/
lemma Machine.alloc_shows {P : Program} {cs : List ClassId} {g : Graph}
    {place : Nat → Option Nat} {globals roots refs : List Ref} {m : Machine}
    (hp : m.image.Shows P cs g place globals)
    (hroots : List.Forall₂ (Ref.At P.fieldCount g place) roots (Thread.roots.get m.thread))
    {cls : ClassId} {fields : List Value}
    (hfields : List.Forall₂ (Ref.At P.fieldCount g place) refs fields) (hcls : cls ≠ .forwarded)
    (hlen : fields.length = P.fieldCount cls) :
    (∃ v m' cs' place', alloc P cls fields m = .ok v m' ∧ m'.control = m.control ∧
      m'.thread.registers.size = m.thread.registers.size ∧
      m'.image.Shows P cs' (g.alloc cls refs).2 place' globals ∧
      List.Forall₂ (Ref.At P.fieldCount (g.alloc cls refs).2 place') roots
        (Thread.roots.get m'.thread) ∧
      (g.alloc cls refs).1.At P.fieldCount (g.alloc cls refs).2 place' v) ∨
    ∃ k l s, alloc P cls fields m = .error (.outOfMemory k l) s := by
  rcases Image.alloc_shows hp hroots hfields hcls hlen with
    ⟨v, p', t', cs', place', hrun, hp', hupd, hroots', hv⟩ | ⟨k, l, s, hrun⟩
  · have hcontrol : Machine.control ⟨p', t', m.transfer⟩ = m.control ∧
        t'.registers.size = m.thread.registers.size := by
      rcases hupd with rfl | ⟨vs, -, rfl⟩
      · exact ⟨rfl, rfl⟩
      · cases vs with
        | nil => exact ⟨rfl, rfl⟩
        | cons v vs => exact ⟨rfl, Cells.size_overwrite _ _ _⟩
    refine .inl ⟨v, ⟨p', t', m.transfer⟩, cs', place', ?_, hcontrol.1, hcontrol.2, hp', hroots',
      hv⟩
    rw [alloc, tracing, hrun]
  · refine .inr ⟨k, l, ⟨s.1, s.2, m.transfer⟩, ?_⟩
    rw [alloc, tracing, hrun]

lemma Graph.class?_alloc {g : Graph} {a : Nat} {k : ClassId} (h : g.class? a = some k)
    (cls : ClassId) (refs : List Ref) : (g.alloc cls refs).2.class? a = some k := by
  rw [Graph.alloc]
  split
  · exact h
  · exact Graph.class?_append h _

/-- What stands for a reference keeps its class. -/
lemma Graph.Ref.At.tag_eq {L : Layout} {g g' : Graph} {place place' : Nat → Option Nat} {r : Ref}
    {v v' : Value} (hclass : ∀ a k, g.class? a = some k → g'.class? a = some k)
    (h : r.At L g place v) (h' : r.At L g' place' v') : v'.tag = v.tag := by
  cases r with
  | inline u => rw [h.1, h'.1]
  | node a => exact Option.some.inj (h'.1.symm.trans (hclass a _ h.1))

/-! ### Machines in lockstep -/

/-- A graph with two placements, the references that the globals hold, and
whether the two machines are one and the same. -/
structure World where
  graph : Graph
  globals : List Ref
  classes₁ : List ClassId
  classes₂ : List ClassId
  place₁ : Nat → Option Nat
  place₂ : Nat → Option Nat
  same : Bool

namespace World

/-- The values stand for the same reference. -/
def Pairs (P : Program) (w : World) (v₁ v₂ : Value) : Prop :=
  (w.same = true → v₁ = v₂) ∧
    ∃ r : Ref, r.At P.fieldCount w.graph w.place₁ v₁ ∧ r.At P.fieldCount w.graph w.place₂ v₂

lemma pairs_inline {P : Program} (w : World) {v : Value} (hv : P.fieldCount v.tag = 0)
    (hne : v.tag ≠ .forwarded) : w.Pairs P v v :=
  ⟨fun _ => rfl, .inline v, ⟨rfl, hv, hne⟩, rfl, hv, hne⟩

lemma pairs_int {P : Program} (hP : P.Plain) (w : World) (n : Int32) :
    w.Pairs P (P.int n) (P.int n) :=
  w.pairs_inline hP.int hP.int_ne

lemma pairs_empty {P : Program} (hP : P.Plain) (w : World) (data : UInt32) :
    w.Pairs P ⟨.empty, data⟩ ⟨.empty, data⟩ :=
  w.pairs_inline hP.empty (show ClassId.empty ≠ .forwarded by decide)

/-- Values that stand for the same references, one by one. -/
lemma forall₂_pairs {P : Program} {w : World} {refs : List Ref} {vs₁ vs₂ : List Value}
    (h₁ : List.Forall₂ (Ref.At P.fieldCount w.graph w.place₁) refs vs₁)
    (h₂ : List.Forall₂ (Ref.At P.fieldCount w.graph w.place₂) refs vs₂)
    (hsame : w.same = true → vs₁ = vs₂) : List.Forall₂ (w.Pairs P) vs₁ vs₂ := by
  induction h₁ generalizing vs₂ with
  | nil =>
      cases h₂
      exact .nil
  | cons hv _ ih =>
      cases h₂ with
      | cons hv' htail =>
          exact .cons ⟨fun hs => List.head_eq_of_cons_eq (hsame hs), _, hv, hv'⟩
            (ih htail fun hs => List.tail_eq_of_cons_eq (hsame hs))

/-- The references for which values stand, one by one. -/
lemma exists_refs {P : Program} {w : World} {vs₁ vs₂ : List Value}
    (h : List.Forall₂ (w.Pairs P) vs₁ vs₂) :
    ∃ refs, List.Forall₂ (Ref.At P.fieldCount w.graph w.place₁) refs vs₁ ∧
      List.Forall₂ (Ref.At P.fieldCount w.graph w.place₂) refs vs₂ := by
  induction h with
  | nil => exact ⟨[], .nil, .nil⟩
  | cons hv _ ih =>
      obtain ⟨-, r, hr₁, hr₂⟩ := hv
      obtain ⟨refs, h₁, h₂⟩ := ih
      exact ⟨r :: refs, .cons hr₁ h₁, .cons hr₂ h₂⟩

/-- Values that stand for the same references are equal if the machines are. -/
lemma eq_of_same {P : Program} {w : World} {vs₁ vs₂ : List Value}
    (h : List.Forall₂ (w.Pairs P) vs₁ vs₂) (hs : w.same = true) : vs₁ = vs₂ := by
  induction h with
  | nil => rfl
  | cons hv _ ih => rw [hv.1 hs, ih]

end World

namespace Control

/-- The end of the registers in use. -/
def liveEnd (c : Control) : Nat := c.frame + c.frameEnd

/-- The frame has its record, and the innermost context record has room for a
return record above it. -/
structure Settled (c : Control) : Prop where
  frameEnd : recordSize ≤ c.frameEnd
  context : c.context = 0 ∨ c.context + 2 * recordSize ≤ c.liveEnd

lemma Settled.frame_le {c : Control} (h : c.Settled) : c.frame + recordSize ≤ c.liveEnd :=
  Nat.add_le_add_left h.frameEnd _

lemma Settled.context_le {c : Control} (h : c.Settled) : c.context + recordSize ≤ c.liveEnd := by
  have hframe := h.frame_le
  rcases h.context with h | h
  · omega
  · rw [recordSize] at h ⊢
    omega

end Control

/-- The machines are in lockstep: they are steered alike, their heaps hold the
same graph, and their registers, up to an extent, stand for the same
references. -/
structure Together (P : Program) (w : World) (c : Control) (n : Nat) (m₁ m₂ : Machine) : Prop where
  same : w.same = true → m₁ = m₂
  control₁ : m₁.control = c
  control₂ : m₂.control = c
  image₁ : m₁.image.Shows P w.classes₁ w.graph w.place₁ w.globals
  image₂ : m₂.image.Shows P w.classes₂ w.graph w.place₂ w.globals
  value : w.Pairs P m₁.thread.value m₂.thread.value
  size₁ : n ≤ m₁.thread.registers.size
  size₂ : n ≤ m₂.thread.registers.size
  registers : ∀ i < n, w.Pairs P (m₁.thread.registers.cell i) (m₂.thread.registers.cell i)

namespace Together

variable {P : Program} {w : World} {c : Control} {n : Nat} {m₁ m₂ : Machine}

lemma frame₁ (h : Together P w c n m₁ m₂) : m₁.thread.frame = c.frame :=
  congrArg Control.frame h.control₁

lemma frame₂ (h : Together P w c n m₁ m₂) : m₂.thread.frame = c.frame :=
  congrArg Control.frame h.control₂

lemma context₁ (h : Together P w c n m₁ m₂) : m₁.thread.context = c.context :=
  congrArg Control.context h.control₁

lemma context₂ (h : Together P w c n m₁ m₂) : m₂.thread.context = c.context :=
  congrArg Control.context h.control₂

lemma liveEnd₁ (h : Together P w c n m₁ m₂) : m₁.thread.liveEnd = c.liveEnd := by
  rw [← h.control₁]
  rfl

lemma mono (h : Together P w c n m₁ m₂) {n' : Nat} (hn : n' ≤ n) : Together P w c n' m₁ m₂ :=
  { h with
    size₁ := Nat.le_trans hn h.size₁
    size₂ := Nat.le_trans hn h.size₂
    registers := fun i hi => h.registers i (Nat.lt_of_lt_of_le hi hn) }

lemma alike (h : Together P w c n m₁ m₂) {v₁ v₂ : Value} (hv : w.Pairs P v₁ v₂) :
    v₁.Alike P v₂ := by
  obtain ⟨-, r, h₁, h₂⟩ := hv
  cases r with
  | inline u => exact ⟨by rw [h₁.1, h₂.1], fun _ => by rw [h₁.1, h₂.1]⟩
  | node a =>
      refine ⟨Option.some.inj (h₁.1.symm.trans h₂.1), fun hzero => ?_⟩
      exact absurd hzero (Nat.ne_of_gt (h₁.pos_of_node h.image₁.heap))

lemma alikeRegisters (h : Together P w c n m₁ m₂) :
    m₁.thread.registers.Alike P n m₂.thread.registers where
  size := h.size₁
  size' := h.size₂
  cell i hi := h.alike (h.registers i hi)

/-! ### Reading and steering -/

/-- Reports are no part of what machines in lockstep share. -/
lemma record_agrees (h : Together P w c n m₁ m₂) {e₁ e₂ : Entry} (he : w.same = true → e₁ = e₂) :
    Agrees (fun _ s₁ _ s₂ => s₁.thread = m₁.thread ∧ Together P w c n s₁ s₂)
      (Machine.record e₁ m₁) (Machine.record e₂ m₂) := by
  refine ⟨rfl, ?_, h.control₁, h.control₂, ⟨h.image₁.heap, h.image₁.globals⟩,
    ⟨h.image₂.heap, h.image₂.globals⟩, h.value, h.size₁, h.size₂, h.registers⟩
  intro hs
  obtain rfl := h.same hs
  rw [he hs]

lemma frame_agrees (h : Together P w c n m₁ m₂) :
    Agrees (fun a₁ s₁ a₂ s₂ => a₁ = c.frame ∧ a₂ = c.frame ∧ s₁ = m₁ ∧ s₂ = m₂)
      (Machine.frame m₁) (Machine.frame m₂) :=
  ⟨h.frame₁, h.frame₂, rfl, rfl⟩

lemma frameEnd_agrees (h : Together P w c n m₁ m₂) :
    Agrees (fun a₁ s₁ a₂ s₂ => a₁ = c.frameEnd ∧ a₂ = c.frameEnd ∧ s₁ = m₁ ∧ s₂ = m₂)
      (Machine.frameEnd m₁) (Machine.frameEnd m₂) :=
  ⟨congrArg Control.frameEnd h.control₁, congrArg Control.frameEnd h.control₂, rfl, rfl⟩

lemma context_agrees (h : Together P w c n m₁ m₂) :
    Agrees (fun a₁ s₁ a₂ s₂ => a₁ = c.context ∧ a₂ = c.context ∧ s₁ = m₁ ∧ s₂ = m₂)
      (Machine.context m₁) (Machine.context m₂) :=
  ⟨h.context₁, h.context₂, rfl, rfl⟩

lemma pos_agrees (h : Together P w c n m₁ m₂) :
    Agrees (fun a₁ s₁ a₂ s₂ => a₁ = c.pos ∧ a₂ = c.pos ∧ s₁ = m₁ ∧ s₂ = m₂)
      (Machine.pos m₁) (Machine.pos m₂) :=
  ⟨congrArg Control.pos h.control₁, congrArg Control.pos h.control₂, rfl, rfl⟩

lemma value_agrees (h : Together P w c n m₁ m₂) :
    Agrees (fun a₁ s₁ a₂ s₂ => w.Pairs P a₁ a₂ ∧ s₁ = m₁ ∧ s₂ = m₂)
      (Machine.value m₁) (Machine.value m₂) :=
  ⟨h.value, rfl, rfl⟩

/-- What the two machines determine alike. -/
lemma query_agrees {α : Type} {f₁ f₂ : Machine → Except Fault α} {x : Except Fault α}
    (h₁ : f₁ m₁ = x) (h₂ : f₂ m₂ = x) (hx : ∀ e, x = .error e → e.dangling = false) :
    Agrees (fun a₁ s₁ a₂ s₂ => x = .ok a₁ ∧ a₁ = a₂ ∧ s₁ = m₁ ∧ s₂ = m₂)
      (Machine.query f₁ m₁) (Machine.query f₂ m₂) := by
  rw [Machine.query, Machine.query, h₁, h₂]
  cases x with
  | ok a => exact ⟨rfl, rfl, rfl, rfl⟩
  | error e => exact .of_error rfl (hx e rfl)

/-- What depends on the program only. -/
lemma ofExcept_agrees {α : Type} (x : Except Fault α)
    (hx : ∀ e, x = .error e → e.dangling = false) :
    Agrees (fun a₁ s₁ a₂ s₂ => x = .ok a₁ ∧ a₁ = a₂ ∧ s₁ = m₁ ∧ s₂ = m₂)
      ((Action.ofExcept x : MachineM α) m₁) ((Action.ofExcept x : MachineM α) m₂) := by
  cases x with
  | ok a => exact ⟨rfl, rfl, rfl, rfl⟩
  | error e => exact .of_error rfl (hx e rfl)

lemma register_agrees (h : Together P w c n m₁ m₂) {i : Nat} (hi : i < n) :
    Agrees (fun a₁ s₁ a₂ s₂ => a₁ = m₁.thread.registers.cell i ∧ w.Pairs P a₁ a₂ ∧ s₁ = m₁ ∧
      s₂ = m₂) (Machine.register i m₁) (Machine.register i m₂) := by
  rw [Machine.register,
    Machine.query_of_ok (Registers.get_of_lt (Nat.lt_of_lt_of_le hi h.size₁)),
    Machine.query_of_ok (Registers.get_of_lt (Nat.lt_of_lt_of_le hi h.size₂))]
  exact ⟨rfl, h.registers i hi, rfl, rfl⟩

lemma readInt_agrees (hP : P.Plain) (h : Together P w c n m₁ m₂) {i : Nat} (hi : i < n) :
    Agrees (fun a₁ s₁ a₂ s₂ => a₁ = a₂ ∧ s₁ = m₁ ∧ s₂ = m₂)
      (Machine.readInt P i m₁) (Machine.readInt P i m₂) := by
  have heq := Context.readInt_congr hP.int h.alikeRegisters hi
  refine (query_agrees rfl heq.symm fun e he => ?_).mono fun _ _ _ _ hq => hq.2
  rw [Context.readInt, Registers.get_of_lt (Nat.lt_of_lt_of_le hi h.size₁)] at he
  dsimp only at he
  split at he
  · cases he
  · cases he
    rfl

/-- Consecutive registers within the extent stand for the same references. -/
lemma forall₂_extract (h : Together P w c n m₁ m₂) {base count : Nat} (hn : base + count ≤ n) :
    List.Forall₂ (w.Pairs P) (m₁.thread.registers.extract base (base + count)).toList
      (m₂.thread.registers.extract base (base + count)).toList := by
  have hsize₁ := Nat.le_trans hn h.size₁
  have hsize₂ := Nat.le_trans hn h.size₂
  have hlen₁ : (m₁.thread.registers.extract base (base + count)).toList.length = count := by
    rw [Array.length_toList, Array.size_extract]
    omega
  have hlen₂ : (m₂.thread.registers.extract base (base + count)).toList.length = count := by
    rw [Array.length_toList, Array.size_extract]
    omega
  refine List.forall₂_iff_get.mpr ⟨hlen₁.trans hlen₂.symm, fun i hi hi' => ?_⟩
  have hcount : i < count := by rwa [hlen₁] at hi
  have hcell : ∀ {rs : Registers} (_ : base + count ≤ rs.size)
      (hi : i < (rs.extract base (base + count)).toList.length),
      (rs.extract base (base + count)).toList.get ⟨i, hi⟩ = rs.cell (base + i) := by
    intro rs hrs hi
    have hget := Cells.getElem?_extract_toList rs base count i hrs
    rw [if_pos hcount, List.getElem?_eq_getElem hi, Option.some.injEq] at hget
    exact hget
  rw [hcell hsize₁ hi, hcell hsize₂ hi']
  exact h.registers _ (by omega)

lemma slice_agrees (h : Together P w c n m₁ m₂) {base count : Nat} (hn : base + count ≤ n) :
    Agrees (fun a₁ s₁ a₂ s₂ => a₁.length = count ∧ List.Forall₂ (w.Pairs P) a₁ a₂ ∧ s₁ = m₁ ∧
      s₂ = m₂) (Machine.query (·.thread.registers.slice base count) m₁)
      (Machine.query (·.thread.registers.slice base count) m₂) := by
  have hsize₁ := Nat.le_trans hn h.size₁
  rw [Machine.query_of_ok (if_pos hsize₁),
    Machine.query_of_ok (if_pos (Nat.le_trans hn h.size₂))]
  refine ⟨?_, h.forall₂_extract hn, rfl, rfl⟩
  rw [Array.length_toList, Array.size_extract]
  omega

/-- Machines whose threads have been changed, but not in their registers. -/
lemma withThread (h : Together P w c n m₁ m₂) {t₁ t₂ : Thread} {c' : Control}
    (hc₁ : Machine.control ⟨m₁.image, t₁, m₁.transfer⟩ = c')
    (hc₂ : Machine.control ⟨m₂.image, t₂, m₂.transfer⟩ = c')
    (hr₁ : t₁.registers = m₁.thread.registers) (hr₂ : t₂.registers = m₂.thread.registers)
    (hv : w.Pairs P t₁.value t₂.value) :
    Together P w c' n ⟨m₁.image, t₁, m₁.transfer⟩ ⟨m₂.image, t₂, m₂.transfer⟩ where
  same hs := by
    have ht : t₁ = t₂ := by
      have hc := hc₁.trans hc₂.symm
      have hr : t₁.registers = t₂.registers := by rw [hr₁, hr₂, h.same hs]
      have hval := hv.1 hs
      obtain ⟨pos₁, frame₁, frameEnd₁, context₁, value₁, registers₁⟩ := t₁
      obtain ⟨pos₂, frame₂, frameEnd₂, context₂, value₂, registers₂⟩ := t₂
      simp only [Machine.control, Control.mk.injEq] at hc hr hval
      obtain ⟨rfl, rfl, rfl, rfl, -⟩ := hc
      rw [hr, hval]
    rw [h.same hs, ht]
  control₁ := hc₁
  control₂ := hc₂
  image₁ := h.image₁
  image₂ := h.image₂
  value := hv
  size₁ := by rw [hr₁]; exact h.size₁
  size₂ := by rw [hr₂]; exact h.size₂
  registers := by rw [hr₁, hr₂]; exact h.registers

lemma setValue_agrees (h : Together P w c n m₁ m₂) {v₁ v₂ : Value} (hv : w.Pairs P v₁ v₂) :
    Agrees (fun _ s₁ _ s₂ => s₁.thread.registers = m₁.thread.registers ∧ Together P w c n s₁ s₂)
      (Machine.setValue v₁ m₁) (Machine.setValue v₂ m₂) :=
  ⟨rfl, h.withThread h.control₁ h.control₂ rfl rfl hv⟩

lemma jump_agrees (h : Together P w c n m₁ m₂) (target : UInt32) :
    Agrees (fun _ s₁ _ s₂ => s₁.thread.registers = m₁.thread.registers ∧
      Together P w { c with pos := target } n s₁ s₂)
      (Machine.jump target m₁) (Machine.jump target m₂) :=
  ⟨rfl, h.withThread (by rw [← h.control₁]; rfl) (by rw [← h.control₂]; rfl) rfl rfl h.value⟩

/-- Control is handed on by both, or was so before. -/
lemma claim_agrees (h : Together P w c n m₁ m₂) (how : Transfer) :
    Agrees (fun _ s₁ _ s₂ => s₁.thread = m₁.thread ∧
      Together P w { c with transfer := some how } n s₁ s₂)
      (Machine.claim how m₁) (Machine.claim how m₂) := by
  obtain ⟨image₁, thread₁, transfer₁⟩ := m₁
  obtain ⟨image₂, thread₂, transfer₂⟩ := m₂
  have h₁ : transfer₁ = c.transfer := congrArg Control.transfer h.control₁
  have h₂ : transfer₂ = c.transfer := congrArg Control.transfer h.control₂
  subst h₁ h₂
  cases htransfer : c.transfer with
  | none =>
      refine ⟨rfl, fun hs => ?_, by rw [← h.control₁]; rfl, by rw [← h.control₂]; rfl, h.image₁,
        h.image₂, h.value, h.size₁, h.size₂, h.registers⟩
      cases h.same hs
      rfl
  | some mark => exact .of_error rfl rfl

/-! ### Registers -/

/-- Machines whose registers have been replaced. -/
lemma withRegisters (h : Together P w c n m₁ m₂) {rs₁ rs₂ : Registers} {n' : Nat}
    (hs : w.same = true → rs₁ = rs₂) (hsize₁ : n' ≤ rs₁.size) (hsize₂ : n' ≤ rs₂.size)
    (hregisters : ∀ i < n', w.Pairs P (rs₁.cell i) (rs₂.cell i)) :
    Together P w c n' (m₁.withRegisters rs₁) (m₂.withRegisters rs₂) where
  same hw := by rw [h.same hw, hs hw]
  control₁ := h.control₁
  control₂ := h.control₂
  image₁ := h.image₁
  image₂ := h.image₂
  value := h.value
  size₁ := hsize₁
  size₂ := hsize₂
  registers := hregisters

/-- Consecutive registers that start within the extent, or right behind it, are
replaced. -/
lemma write_agrees (h : Together P w c n m₁ m₂) {base : Nat} {vs₁ vs₂ : List Value}
    (hbase : base ≤ n) (hvs : List.Forall₂ (w.Pairs P) vs₁ vs₂) :
    Agrees (fun _ s₁ _ s₂ => Together P w c (max n (base + vs₁.length)) s₁ s₂)
      (Machine.onRegisters (Registers.write base vs₁) m₁)
      (Machine.onRegisters (Registers.write base vs₂) m₂) := by
  have hlen : vs₁.length = vs₂.length := hvs.length_eq
  rw [Machine.onRegisters_write, Machine.onRegisters_write]
  by_cases hfit₁ : base + vs₁.length ≤ m₁.thread.registers.size
  · by_cases hfit₂ : base + vs₂.length ≤ m₂.thread.registers.size
    · rw [if_pos hfit₁, if_pos hfit₂]
      have hsize₁ := h.size₁
      have hsize₂ := h.size₂
      refine h.withRegisters (fun hs => ?_) ?_ ?_ fun i hi => ?_
      · rw [h.same hs, World.eq_of_same hvs hs]
      · rw [Cells.size_overwrite]
        omega
      · rw [Cells.size_overwrite]
        omega
      · rw [Cells.cell_overwrite, Cells.cell_overwrite]
        by_cases hin : base ≤ i ∧ i < base + vs₁.length
        · have hi₁ : i - base < vs₁.length := by omega
          have hi₂ : i - base < vs₂.length := by omega
          rw [if_pos ⟨hin.1, hin.2, by omega⟩, if_pos ⟨hin.1, by omega, by omega⟩,
            List.getElem?_eq_getElem hi₁, List.getElem?_eq_getElem hi₂]
          exact (List.forall₂_iff_get.mp hvs).2 (i - base) hi₁ hi₂
        · rw [if_neg fun hc => hin ⟨hc.1, hc.2.1⟩, if_neg fun hc => hin ⟨hc.1, by omega⟩]
          exact h.registers i (by omega)
    · rw [if_neg hfit₂]
      exact .of_starved_right rfl _
  · rw [if_neg hfit₁]
    exact .of_starved_left rfl _

lemma setRegister_agrees (h : Together P w c n m₁ m₂) {i : Nat} {v₁ v₂ : Value} (hi : i ≤ n)
    (hv : w.Pairs P v₁ v₂) :
    Agrees (fun _ s₁ _ s₂ => Together P w c (max n (i + 1)) s₁ s₂)
      (Machine.setRegister i v₁ m₁) (Machine.setRegister i v₂ m₂) := by
  have hwrite : ∀ (v : Value) (m : Machine),
      Machine.setRegister i v m = Machine.onRegisters (Registers.write i [v]) m := by
    intro v m
    rw [Machine.setRegister_eq, Machine.onRegisters_write]
    rfl
  rw [hwrite, hwrite]
  exact h.write_agrees hi (.cons hv .nil)

/-- Registers from within the extent, or right behind it, are unset. -/
lemma clear_agrees (hP : P.Plain) (h : Together P w c n m₁ m₂) {start stop : Nat}
    (hstart : start ≤ n) :
    Agrees (fun _ s₁ _ s₂ => Together P w c (max n stop) s₁ s₂)
      (Machine.onRegisters (Registers.clear start stop) m₁)
      (Machine.onRegisters (Registers.clear start stop) m₂) := by
  by_cases hle : stop ≤ start
  · rw [Machine.onRegisters_clear, Machine.onRegisters_clear, if_pos hle, if_pos hle,
      Nat.max_eq_left (by omega)]
    exact h
  · have hwrite : ∀ m : Machine, Machine.onRegisters (Registers.clear start stop) m =
        Machine.onRegisters (Registers.write start (List.replicate (stop - start) .nil)) m := by
      intro m
      rw [Machine.onRegisters_clear, Machine.onRegisters_write, if_neg hle, List.length_replicate,
        show start + (stop - start) = stop by omega]
    have hnil : List.Forall₂ (w.Pairs P) (List.replicate (stop - start) .nil)
        (List.replicate (stop - start) .nil) := by
      generalize stop - start = k
      induction k with
      | zero => exact .nil
      | succ k ih => exact .cons (w.pairs_empty hP 0) ih
    rw [hwrite, hwrite]
    refine (h.write_agrees hstart hnil).mono fun _ _ _ _ h' => ?_
    rwa [List.length_replicate, show start + (stop - start) = stop by omega] at h'

/-! ### Globals and fields -/

lemma global_agrees (h : Together P w c n m₁ m₂) (i : UInt32) :
    Agrees (fun a₁ s₁ a₂ s₂ => w.Pairs P a₁ a₂ ∧ s₁ = m₁ ∧ s₂ = m₂)
      (Machine.query (·.image.global i) m₁) (Machine.query (·.image.global i) m₂) := by
  have hlen₁ := h.image₁.globals.length_eq
  have hlen₂ := h.image₂.globals.length_eq
  rw [Array.length_toList] at hlen₁ hlen₂
  by_cases hi : i.toNat < w.globals.length
  · have hget : ∀ {p : Image}, w.globals.length = p.globals.size →
        p.global i = .ok (p.globals.toList[i.toNat]?.getD .nil) := by
      intro p hp
      rw [Image.global, Array.getElem?_eq_getElem (by omega : i.toNat < p.globals.size),
        Array.getElem?_toList, Array.getElem?_eq_getElem (by omega : i.toNat < p.globals.size)]
      rfl
    rw [Machine.query_of_ok (hget hlen₁), Machine.query_of_ok (hget hlen₂)]
    have hi₁ : i.toNat < m₁.image.globals.toList.length := by
      rw [Array.length_toList]
      omega
    have hi₂ : i.toNat < m₂.image.globals.toList.length := by
      rw [Array.length_toList]
      omega
    rw [List.getElem?_eq_getElem hi₁, List.getElem?_eq_getElem hi₂]
    refine ⟨⟨fun hs => ?_, w.globals[i.toNat], ?_, ?_⟩, rfl, rfl⟩
    · obtain rfl := h.same hs
      rfl
    · exact (List.forall₂_iff_get.mp h.image₁.globals).2 _ hi hi₁
    · exact (List.forall₂_iff_get.mp h.image₂.globals).2 _ hi hi₂
  · have hget : ∀ {p : Image}, w.globals.length = p.globals.size →
        p.global i = .error (.invalidGlobal i) := by
      intro p hp
      rw [Image.global, Array.getElem?_eq_none (by omega : p.globals.size ≤ i.toNat)]
    rw [Machine.query_of_error (hget hlen₁), Machine.query_of_error (hget hlen₂)]
    exact .of_error rfl rfl

/-- The fields that objects have stand for the same references. -/
lemma field_pairs (h : Together P w c n m₁ m₂) {v₁ v₂ : Value} (hv : w.Pairs P v₁ v₂) {i : Nat}
    (hi : i < P.fieldCount v₁.tag) :
    ∃ u₁ u₂, m₁.image.field P v₁ i = .ok u₁ ∧ m₂.image.field P v₂ i = .ok u₂ ∧
      w.Pairs P u₁ u₂ := by
  have htag := (h.alike hv).1
  obtain ⟨hsame, r, hr₁, hr₂⟩ := hv
  obtain ⟨a, rfl, -⟩ := hr₁.eq_node (by omega)
  obtain ⟨s₁, u₁, hs₁, hu₁, hat₁⟩ := h.image₁.field hr₁ hi
  obtain ⟨s₂, u₂, hs₂, hu₂, hat₂⟩ := h.image₂.field hr₂ (htag ▸ hi)
  cases hs₁.symm.trans hs₂
  refine ⟨u₁, u₂, hu₁, hu₂, fun hw => ?_, s₁, hat₁, hat₂⟩
  rw [hsame hw, h.same hw] at hu₁
  exact Except.ok.inj (hu₁.symm.trans hu₂)

lemma field_agrees (h : Together P w c n m₁ m₂) {v₁ v₂ : Value} (hv : w.Pairs P v₁ v₂) (i : Nat) :
    Agrees (fun a₁ s₁ a₂ s₂ => w.Pairs P a₁ a₂ ∧ s₁ = m₁ ∧ s₂ = m₂)
      (Machine.field P v₁ i m₁) (Machine.field P v₂ i m₂) := by
  have htag := (h.alike hv).1
  rw [Machine.field]
  by_cases hi : i < P.fieldCount v₁.tag
  · obtain ⟨u₁, u₂, hu₁, hu₂, hu⟩ := h.field_pairs hv hi
    rw [Machine.query_of_ok hu₁, Machine.field, Machine.query_of_ok hu₂]
    exact ⟨hu, rfl, rfl⟩
  · have herror : ∀ {p : Image} {v : Value}, v.tag = v₁.tag →
        p.field P v i = .error (.fieldOutOfRange v₁.tag i) := by
      intro p v hcls
      rw [Image.field, Image.checkField, hcls, if_neg hi]
      rfl
    rw [Machine.query_of_error (herror rfl), Machine.field,
      Machine.query_of_error (herror htag.symm)]
    exact .of_error rfl rfl

/-- The elements of an array. -/
lemma asArray_agrees (h : Together P w c n m₁ m₂) {v₁ v₂ : Value} (hv : w.Pairs P v₁ v₂) :
    Agrees (fun a₁ s₁ a₂ s₂ => List.Forall₂ (w.Pairs P) a₁ a₂ ∧ m₁.image.asArray v₁ = .ok a₁ ∧
        s₁ = m₁ ∧ s₂ = m₂)
      (Machine.query (·.image.asArray v₁) m₁) (Machine.query (·.image.asArray v₂) m₂) := by
  have htag := (h.alike hv).1
  obtain ⟨hsame, r, hr₁, hr₂⟩ := hv
  cases hlength : v₁.tag.arrayLength? with
  | none =>
      have herror : ∀ {p : Image} {v : Value}, v.tag = v₁.tag →
          p.asArray v = .error (.typeError (.notArray v)) := by
        intro p v hcls
        rw [Image.asArray, hcls, hlength]
      rw [Machine.query_of_error (herror rfl), Machine.query_of_error (herror htag.symm)]
      exact .of_error rfl rfl
  | some k =>
      obtain ⟨refs₁, ws₁, hws₁, hlen₁, hrefs₁, hat₁⟩ := h.image₁.asArray hr₁ hlength
      obtain ⟨refs₂, ws₂, hws₂, hlen₂, hrefs₂, hat₂⟩ :=
        h.image₂.asArray hr₂ (htag ▸ hlength)
      rw [Machine.query_of_ok hws₁, Machine.query_of_ok hws₂]
      refine ⟨?_, hws₁, rfl, rfl⟩
      have hrefs : refs₁ = refs₂ := by
        have hl₁ := hat₁.length_eq
        have hl₂ := hat₂.length_eq
        by_cases hk : k = 0
        · rw [List.eq_nil_of_length_eq_zero (by omega : refs₁.length = 0),
            List.eq_nil_of_length_eq_zero (by omega : refs₂.length = 0)]
        · -- the elements are the fields of one node
          rcases hrefs₁ with rfl | ⟨a, nd, rfl, hnd, rfl⟩
          · rw [List.length_nil] at hl₁
            omega
          · rcases hrefs₂ with rfl | ⟨b, nd', hb, hnd', rfl⟩
            · rw [List.length_nil] at hl₂
              omega
            · cases hb
              rw [Option.some.inj (hnd.symm.trans hnd')]
      subst hrefs
      refine World.forall₂_pairs hat₁ hat₂ fun hs => ?_
      rw [hsame hs, h.same hs] at hws₁
      exact Except.ok.inj (hws₁.symm.trans hws₂)

/-- The elements of an array in a field. -/
lemma elements_agrees (h : Together P w c n m₁ m₂) {v₁ v₂ : Value} (hv : w.Pairs P v₁ v₂)
    (i : Nat) :
    Agrees (fun a₁ s₁ a₂ s₂ => List.Forall₂ (w.Pairs P) a₁ a₂ ∧
        (do m₁.image.asArray (← m₁.image.field P v₁ i)) = .ok a₁ ∧ s₁ = m₁ ∧ s₂ = m₂)
      (Machine.query (fun m => do m.image.asArray (← m.image.field P v₁ i)) m₁)
      (Machine.query (fun m => do m.image.asArray (← m.image.field P v₂ i)) m₂) := by
  have hfield := h.field_agrees hv i
  rw [Machine.query, Machine.query]
  rw [Machine.field, Machine.field, Machine.query, Machine.query] at hfield
  revert hfield
  cases hu₁ : m₁.image.field P v₁ i with
  | error e₁ =>
      cases hu₂ : m₂.image.field P v₂ i with
      | error e₂ => exact id
      | ok u₂ => exact fun hfield => .of_starved_left hfield _
  | ok u₁ =>
      cases hu₂ : m₂.image.field P v₂ i with
      | error e₂ => exact fun hfield => .of_starved_right hfield _
      | ok u₂ =>
          rintro ⟨hu, -, -⟩
          exact h.asArray_agrees hu

lemma setGlobal_agrees (h : Together P w c n m₁ m₂) (i : UInt32) {v₁ v₂ : Value}
    (hv : w.Pairs P v₁ v₂) :
    Agrees (fun _ s₁ _ s₂ => ∃ w', w'.same = w.same ∧ Together P w' c n s₁ s₂)
      (Machine.onImage (Image.setGlobal i v₁) m₁) (Machine.onImage (Image.setGlobal i v₂) m₂) := by
  have hlen₁ := h.image₁.globals.length_eq
  have hlen₂ := h.image₂.globals.length_eq
  rw [Array.length_toList] at hlen₁ hlen₂
  obtain ⟨hsame, r, hr₁, hr₂⟩ := hv
  rw [Machine.onImage, Machine.onImage]
  by_cases hi : i.toNat < w.globals.length
  · obtain ⟨hset₁, himage₁⟩ := h.image₁.setGlobal hi hr₁
    obtain ⟨hset₂, himage₂⟩ := h.image₂.setGlobal hi hr₂
    rw [hset₁, hset₂]
    refine ⟨{ w with globals := w.globals.set i.toNat r }, rfl, fun hs => ?_, h.control₁,
      h.control₂, himage₁, himage₂, h.value, h.size₁, h.size₂, h.registers⟩
    rw [h.same hs, hsame hs]
  · rw [Image.setGlobal, Image.setGlobal, if_neg (by omega), if_neg (by omega)]
    exact .of_error rfl rfl

lemma setField_agrees (h : Together P w c n m₁ m₂) {v₁ v₂ u₁ u₂ : Value} (hv : w.Pairs P v₁ v₂)
    (hu : w.Pairs P u₁ u₂) (i : Nat) :
    Agrees (fun _ s₁ _ s₂ => s₁.thread = m₁.thread ∧ ∃ w', w'.same = w.same ∧
        Together P w' c n s₁ s₂ ∧ w'.Pairs P u₁ u₂)
      (Machine.onImage (Image.setField P v₁ i u₁) m₁)
      (Machine.onImage (Image.setField P v₂ i u₂) m₂) := by
  have htag := (h.alike hv).1
  obtain ⟨hsame, r, hr₁, hr₂⟩ := hv
  obtain ⟨husame, q, hq₁, hq₂⟩ := id hu
  rw [Machine.onImage, Machine.onImage]
  by_cases hi : i < P.fieldCount v₁.tag
  · obtain ⟨a, rfl, -⟩ := hr₁.eq_node (by omega)
    obtain ⟨hset₁, himage₁⟩ := h.image₁.setField hr₁ hi hq₁
    obtain ⟨hset₂, himage₂⟩ := h.image₂.setField hr₂ (htag ▸ hi) hq₂
    have hmono : ∀ {x₁ x₂ : Value}, w.Pairs P x₁ x₂ →
        World.Pairs P { w with graph := w.graph.setField a i q } x₁ x₂ := by
      rintro x₁ x₂ ⟨hx, s, hs₁, hs₂⟩
      have hclass : ∀ b k, w.graph.class? b = some k →
          (w.graph.setField a i q).class? b = some k :=
        fun b k hk => by rwa [Graph.class?_setField]
      exact ⟨hx, s, hs₁.of_class_eq hclass, hs₂.of_class_eq hclass⟩
    rw [hset₁, hset₂]
    refine ⟨rfl, { w with graph := w.graph.setField a i q }, rfl, ⟨fun hs => ?_, h.control₁,
      h.control₂, himage₁, himage₂, hmono h.value, h.size₁, h.size₂,
      fun j hj => hmono (h.registers j hj)⟩, hmono hu⟩
    rw [h.same hs, hsame hs, husame hs]
  · have herror : ∀ {p : Image} {v u : Value}, v.tag = v₁.tag →
        Image.setField P v i u p = .error (.fieldOutOfRange v₁.tag i) p := by
      intro p v u hcls
      simp [Image.setField, Image.checkField, hcls, if_neg hi, Action.ofExcept, bind, EStateM.bind]
    rw [herror rfl, herror htag.symm]
    exact .of_error rfl rfl

/-! ### Allocation -/

/-- The references of the two threads. -/
lemma exists_roots (h : Together P w c c.liveEnd m₁ m₂) :
    ∃ roots, List.Forall₂ (Ref.At P.fieldCount w.graph w.place₁) roots
        (Thread.roots.get m₁.thread) ∧
      List.Forall₂ (Ref.At P.fieldCount w.graph w.place₂) roots (Thread.roots.get m₂.thread) := by
  have hlive₁ : m₁.thread.liveEnd = c.liveEnd := by rw [← h.control₁]; rfl
  have hlive₂ : m₂.thread.liveEnd = c.liveEnd := by rw [← h.control₂]; rfl
  have hregisters := h.forall₂_extract (by omega : 0 + c.liveEnd ≤ c.liveEnd)
  rw [Nat.zero_add] at hregisters
  refine World.exists_refs (.cons h.value ?_)
  rw [hlive₁, hlive₂]
  exact hregisters

/-- **Allocation keeps machines in lockstep**, whether one of them collects, or
both, or none. -/
lemma alloc_agrees (h : Together P w c c.liveEnd m₁ m₂) {cls : ClassId}
    {fields₁ fields₂ : List Value} (hfields : List.Forall₂ (w.Pairs P) fields₁ fields₂)
    (hcls : fields₁.length = P.fieldCount cls → cls ≠ .forwarded) :
    Agrees (fun v₁ s₁ v₂ s₂ => ∃ w', w'.same = w.same ∧ Together P w' c c.liveEnd s₁ s₂ ∧
        w'.Pairs P v₁ v₂ ∧ ∀ i < c.liveEnd,
          (s₁.thread.registers.cell i).tag = (m₁.thread.registers.cell i).tag)
      (Machine.alloc P cls fields₁ m₁) (Machine.alloc P cls fields₂ m₂) := by
  have hlen : fields₁.length = fields₂.length := hfields.length_eq
  by_cases hcount : fields₁.length = P.fieldCount cls
  · obtain ⟨roots, hroots₁, hroots₂⟩ := h.exists_roots
    obtain ⟨refs, hrefs₁, hrefs₂⟩ := World.exists_refs hfields
    rcases Machine.alloc_shows h.image₁ hroots₁ hrefs₁ (hcls hcount) hcount with
      ⟨v₁, s₁, cs₁, place₁, hrun₁, hcontrol₁, hsize₁, himage₁, hroots₁', hv₁⟩ | ⟨k, l, s, hrun₁⟩
    · rcases Machine.alloc_shows h.image₂ hroots₂ hrefs₂ (hcls hcount) (hlen ▸ hcount) with
        ⟨v₂, s₂, cs₂, place₂, hrun₂, hcontrol₂, hsize₂, himage₂, hroots₂', hv₂⟩ | ⟨k, l, s, hrun₂⟩
      · rw [hrun₁, hrun₂]
        have hsame : w.same = true → v₁ = v₂ ∧ s₁ = s₂ := by
          intro hs
          rw [h.same hs, World.eq_of_same hfields hs, hrun₂] at hrun₁
          cases hrun₁
          exact ⟨rfl, rfl⟩
        have hlive : ∀ {m : Machine}, m.control = c → m.thread.liveEnd = c.liveEnd := by
          rintro m rfl
          rfl
        have hlive₁ := hlive (hcontrol₁.trans h.control₁)
        have hlive₂ := hlive (hcontrol₂.trans h.control₂)
        have hfit₁ : s₁.thread.liveEnd ≤ s₁.thread.registers.size := by
          rw [hlive₁, hsize₁]
          exact h.size₁
        have hfit₂ : s₂.thread.liveEnd ≤ s₂.thread.registers.size := by
          rw [hlive₂, hsize₂]
          exact h.size₂
        obtain ⟨⟨r, hr, hval₁⟩, hcells₁⟩ := Thread.refs_of_roots hroots₁' hfit₁
        obtain ⟨⟨r', hr', hval₂⟩, hcells₂⟩ := Thread.refs_of_roots hroots₂' hfit₂
        cases hr.symm.trans hr'
        rw [hlive₁] at hcells₁ hfit₁
        rw [hlive₂] at hcells₂ hfit₂
        refine ⟨⟨_, w.globals, cs₁, cs₂, place₁, place₂, w.same⟩, rfl,
          ⟨fun hs => (hsame hs).2, hcontrol₁.trans h.control₁, hcontrol₂.trans h.control₂, himage₁,
            himage₂, ⟨fun hs => by rw [(hsame hs).2], r, hval₁, hval₂⟩, hfit₁, hfit₂,
            fun i hi => ?_⟩,
          ⟨fun hs => (hsame hs).1, _, hv₁, hv₂⟩, fun i hi => ?_⟩
        · obtain ⟨q, hq, hat₁⟩ := hcells₁ i hi
          obtain ⟨q', hq', hat₂⟩ := hcells₂ i hi
          cases hq.symm.trans hq'
          exact ⟨fun hs => by rw [(hsame hs).2], q, hat₁, hat₂⟩
        · have hold := (Thread.refs_of_roots hroots₁ (by rw [hlive h.control₁]; exact h.size₁)).2
          rw [hlive h.control₁] at hold
          obtain ⟨q, hq, hat⟩ := hold i hi
          obtain ⟨q', hq', hat'⟩ := hcells₁ i hi
          cases hq.symm.trans hq'
          exact hat.tag_eq (fun a k hk => Graph.class?_alloc hk cls refs) hat'
      · rw [hrun₂]
        exact .of_starved_right rfl _
    · rw [hrun₁]
      exact .of_starved_left rfl _
  · have herror : ∀ {m : Machine} {fields : List Value}, fields.length = fields₁.length →
        Machine.alloc P cls fields m =
          .error (.typeError (.fieldCount cls (P.fieldCount cls) fields₁.length)) m := by
      intro m fields hf
      rw [Machine.alloc, Machine.tracing, Image.alloc_of_length_ne (hf ▸ hcount), hf]
    rw [herror rfl, herror hlen.symm]
    exact .of_error rfl rfl

/-- So does the allocation of an array. -/
lemma allocArray_agrees (hP : P.Plain) (h : Together P w c c.liveEnd m₁ m₂)
    {elements₁ elements₂ : List Value} (h' : List.Forall₂ (w.Pairs P) elements₁ elements₂) :
    Agrees (fun v₁ s₁ v₂ s₂ => ∃ w', w'.same = w.same ∧ Together P w' c c.liveEnd s₁ s₂ ∧
        w'.Pairs P v₁ v₂ ∧ ∀ i < c.liveEnd,
          (s₁.thread.registers.cell i).tag = (m₁.thread.registers.cell i).tag)
      (Machine.allocArray P elements₁ m₁) (Machine.allocArray P elements₂ m₂) := by
  have hlen : elements₁.length = elements₂.length := h'.length_eq
  have harray : ∀ (elements : List Value) (m : Machine), Machine.allocArray P elements m =
      Machine.alloc P (.array elements.length) elements m := fun _ _ => rfl
  rw [harray, harray, ← hlen]
  exact h.alloc_agrees h' fun hcount => Program.array_ne_forwarded hP.forwarded hcount

end Together

end EffectMachine
