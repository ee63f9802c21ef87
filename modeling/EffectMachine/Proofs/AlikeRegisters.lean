/-
Allocation and the registers.

An allocation may collect, and then gives the thread its roots back from where they have been
moved to. The registers stay alike: each holds a value of the class it held, and the same one if it
is inline.

* `Registers.slice_eq_ok`: a range of registers, read one by one;
* `Machine.alloc_eq_ok`: an allocation is one on the heap;
* `Machine.set_roots`: what a thread becomes that is given its roots back;
* `Machine.alloc_keeps`: **allocation leaves registers alike**, whatever the heap holds.
-/
import EffectMachine.Proofs.Primitives
import EffectMachine.Proofs.RecordChain
import Mathlib.Data.List.Forall2

namespace EffectMachine

/-! ### Ranges of registers -/

/-- A range of registers, read one by one. -/
lemma Registers.slice_eq_ok {rs : Registers} {base count : Nat} {vs : List Value}
    (h : rs.slice base count = .ok vs) : base + count ≤ rs.size ∧ vs.length = count ∧
      ∀ i < count, vs[i]? = some (rs.cell (base + i)) := by
  rw [slice] at h
  split at h
  · rename_i hroom
    cases h
    refine ⟨hroom, ?_, fun i hi => ?_⟩
    · rw [Array.length_toList, Array.size_extract]
      omega
    · rw [Cells.getElem?_extract_toList rs base count i hroom, if_pos hi]
  · cases h

/-- Values that are alike to a range of registers, read one by one. -/
lemma Registers.alike_of_slice {P : Program} {rs : Registers} {base count : Nat}
    {vs ws : List Value} (hslice : rs.slice base count = .ok vs)
    (halike : List.Forall₂ (Value.Alike P) vs ws) :
    ws.length = count ∧ ∀ i < count, (rs.cell (base + i)).Alike P ((ws[i]?).getD .nil) := by
  obtain ⟨-, hcount, hget⟩ := slice_eq_ok hslice
  have hlen := halike.length_eq
  refine ⟨by omega, fun i hi => ?_⟩
  have hws : i < ws.length := by omega
  obtain ⟨hvs, hcell⟩ := List.getElem?_eq_some_iff.mp (hget i hi)
  have hpair := (List.forall₂_iff_get.mp halike).2 i hvs hws
  rw [List.get_eq_getElem, List.get_eq_getElem, hcell] at hpair
  rwa [List.getElem?_eq_getElem hws, Option.getD_some]

/-! ### Roots -/

lemma Collection.forward_alike {P : Program} {v w : Value} {c c' : Collection}
    (h : forward P.fieldCount v c = .ok w c') : v.Alike P w := by
  rw [forward] at h
  dsimp only at h
  split at h
  · cases h
    exact .refl v
  · rename_i hsize
    have halike : ∀ data, v.Alike P ⟨v.tag, data⟩ := fun _ => ⟨rfl, fun hzero => absurd hzero hsize⟩
    split at h
    · cases h
    · split at h
      · cases h
        exact halike _
      · split at h
        · cases h
        · cases h
          exact halike _

lemma Collection.forwardFrom_alike {P : Program} {moved vs ws : List Value} {c c' : Collection}
    (h : forwardFrom P.fieldCount moved vs c = .ok () (c', ws)) :
    ∃ us, ws = moved.reverse ++ us ∧ List.Forall₂ (Value.Alike P) vs us := by
  induction vs generalizing moved c with
  | nil =>
      cases h
      exact ⟨[], (List.append_nil _).symm, .nil⟩
  | cons v vs ih =>
      rw [forwardFrom] at h
      split at h
      · rename_i w _ hw
        obtain ⟨us, rfl, hus⟩ := ih h
        refine ⟨w :: us, ?_, .cons (forward_alike hw) hus⟩
        rw [List.reverse_cons, List.append_assoc, List.singleton_append]
      · cases h

/-- The holder has at most been given other roots, each one alike. -/
def Roots.Alike {ρ : Type} (P : Program) (R : Roots ρ) (x y : ρ) : Prop :=
  y = x ∨ ∃ vs, List.Forall₂ (Value.Alike P) (R.get x) vs ∧ y = R.set x vs

lemma Roots.Alike.snd {P : Program} {ρ τ : Type} {R : Roots ρ} {T : Roots τ} {x y : ρ × τ}
    (h : (R.pair T).Alike P x y) : T.Alike P x.2 y.2 := by
  rcases h with rfl | ⟨vs, hvs, rfl⟩
  · exact .inl rfl
  · have hdrop := List.forall₂_drop (R.get x.1).length hvs
    rw [show (R.pair T).get x = R.get x.1 ++ T.get x.2 from rfl, List.drop_left] at hdrop
    exact .inr ⟨_, hdrop, rfl⟩

lemma Heap.collectWith_alike {P : Program} {ρ : Type} {R : Roots ρ} {pending fields : List Value}
    {h h' : Heap} {holder holder' : ρ}
    (hc : collectWith P.fieldCount R pending (h, holder) = .ok fields (h', holder')) :
    R.Alike P holder holder' := by
  obtain ⟨c₁, roots, c₂, c, hroots, -, -, -, rfl⟩ := collectWith_eq_ok hc
  obtain ⟨us, hus, halike⟩ := Collection.forwardFrom_alike hroots
  rw [List.reverse_nil, List.nil_append] at hus
  exact .inr ⟨roots, hus ▸ halike, rfl⟩

lemma Heap.alloc_alike {P : Program} {ρ : Type} {R : Roots ρ} {cls : ClassId}
    {fields : List Value} {h : Heap} {holder : ρ} {x : Value × List Value} {s : Rooted ρ}
    (ha : alloc P.fieldCount R cls fields (h, holder) = .ok x s) : R.Alike P holder s.2 := by
  rcases alloc_eq_ok ha with ⟨-, -, rfl⟩ | ⟨-, -, -, rfl⟩ | ⟨-, _, _, _, hcollect, -, -, rfl⟩
  · exact .inl rfl
  · exact .inl rfl
  · exact collectWith_alike hcollect

lemma Heap.tag_of_alloc {layout : ClassId → Nat} {ρ : Type} {R : Roots ρ} {cls : ClassId}
    {fields : List Value} {x : Value × List Value} {s s' : Rooted ρ}
    (ha : alloc layout R cls fields s = .ok x s') : x.1.tag = cls := by
  obtain ⟨h, holder⟩ := s
  rcases alloc_eq_ok ha with ⟨-, rfl, -⟩ | ⟨-, -, rfl, -⟩ | ⟨-, _, _, _, -, -, rfl, -⟩
  · rfl
  · rfl
  · rfl

namespace Machine

variable {P : Program} {m m' : Machine}

/-! ### Allocation -/

/-- An allocation is one on the heap, the globals and the thread holding its
roots. -/
lemma alloc_eq_ok {cls : ClassId} {fields : List Value} {v : Value}
    (h : alloc P cls fields m = .ok v m') :
    fields.length = P.fieldCount cls ∧ ∃ ws,
      Heap.alloc P.fieldCount (Roots.array.pair Thread.roots) cls fields
        (m.image.heap, (m.image.globals, m.thread)) =
          .ok (v, ws) (m'.image.heap, (m'.image.globals, m'.thread)) ∧
      m'.transfer = m.transfer := by
  obtain ⟨⟨globals, heap, journal⟩, thread, transfer⟩ := m
  rw [alloc, tracing, Image.alloc] at h
  by_cases hlen : fields.length = P.fieldCount cls
  · rw [if_pos hlen] at h
    simp only [bind, EStateM.bind, Image.tracing] at h
    cases ha : Heap.alloc P.fieldCount (Roots.array.pair Thread.roots) cls fields
        (heap, (globals, thread)) with
    | error e s =>
        rw [ha] at h
        cases h
    | ok x s =>
        rw [ha] at h
        cases h
        exact ⟨hlen, x.2, rfl, rfl⟩
  · rw [if_neg hlen] at h
    cases h

lemma tag_of_alloc {cls : ClassId} {fields : List Value} {v : Value}
    (h : alloc P cls fields m = .ok v m') : v.tag = cls := by
  obtain ⟨-, ws, ha, -⟩ := alloc_eq_ok h
  exact Heap.tag_of_alloc ha

/-- An allocation leaves the thread where it is, with the values it holds alike. -/
lemma thread_of_alloc {cls : ClassId} {fields : List Value} {v : Value}
    (h : alloc P cls fields m = .ok v m') :
    m.thread.value.Alike P m'.thread.value ∧ m'.thread = { m.thread with
      value := m'.thread.value, registers := m'.thread.registers } := by
  obtain ⟨-, ws, ha, -⟩ := alloc_eq_ok h
  rcases (Heap.alloc_alike ha).snd with heq | ⟨vs, hvs, heq⟩
  · dsimp only at heq
    rw [heq]
    exact ⟨.refl _, rfl⟩
  · dsimp only at heq
    rw [heq]
    cases hvs with
    | cons hv _ => exact ⟨hv, rfl⟩

/-- What an allocation leaves as it is. -/
structure AllocKeeps (P : Program) (m m' : Machine) : Prop where
  frame : m'.thread.frame = m.thread.frame
  context : m'.thread.context = m.thread.context
  transfer : m'.transfer = m.transfer
  registers : ∀ n, m.thread.registers.Keeps P n m'.thread.registers

lemma AllocKeeps.trans {m'' : Machine} (h : AllocKeeps P m m') (h' : AllocKeeps P m' m'') :
    AllocKeeps P m m'' where
  frame := h'.frame.trans h.frame
  context := h'.context.trans h.context
  transfer := h'.transfer.trans h.transfer
  registers n := (h.registers n).trans (h'.registers n)

/-- What the roots that a thread is given back make of it: each goes where it came from. -/
lemma set_roots {Q : Value → Value → Prop} {t : Thread} {vs : List Value}
    (h : List.Forall₂ Q (Thread.roots.get t) vs) :
    ∃ rs, rs.size = t.registers.size ∧
      Thread.roots.set t vs = { t with value := (Thread.roots.set t vs).value, registers := rs } ∧
      Q t.value (Thread.roots.set t vs).value ∧
      ∀ i, if i < t.liveEnd ∧ i < t.registers.size then Q (t.registers.cell i) (Cells.cell rs i)
        else Cells.cell rs i = t.registers.cell i := by
  cases h with
  | @cons _ v _ vs hv htail =>
      refine ⟨t.registers.overwrite 0 vs, Cells.size_overwrite _ _ _, rfl, hv, fun i => ?_⟩
      have hlive : vs.length = min t.liveEnd t.registers.size := by
        rw [← htail.length_eq]
        simp [Registers.live]
      rw [Cells.cell_overwrite]
      by_cases hi : i < t.liveEnd ∧ i < t.registers.size
      · -- a register in use is the root that has been given back for it
        have hi₁ : i < vs.length := by omega
        have hi₂ : i < (t.registers.live t.liveEnd).length := by
          rw [htail.length_eq]
          exact hi₁
        have hpair := (List.forall₂_iff_get.mp htail).2 i hi₂ hi₁
        rw [List.get_eq_getElem, List.get_eq_getElem] at hpair
        have hcell : (t.registers.live t.liveEnd)[i] = t.registers.cell i := by
          rw [Cells.cell_eq_getD, Array.getElem?_eq_getElem hi.2, Option.getD_some]
          simp [Registers.live]
        rw [if_pos hi, if_pos ⟨Nat.zero_le _, by omega, hi.2⟩, Nat.sub_zero,
          List.getElem?_eq_getElem hi₁, Option.getD_some]
        rwa [hcell] at hpair
      · rw [if_neg hi, if_neg (by omega)]

/-- Registers that have been given back as roots are alike. -/
lemma keeps_of_roots {t t' : Thread} (h : Thread.roots.Alike P t t') :
    t'.frame = t.frame ∧ t'.context = t.context ∧
      ∀ n, t.registers.Keeps P n t'.registers := by
  rcases h with rfl | ⟨vs, hvs, rfl⟩
  · exact ⟨rfl, rfl, fun n => .refl P n _⟩
  · obtain ⟨rs, hsize, hset, -, hcell⟩ := set_roots hvs
    rw [hset]
    refine ⟨rfl, rfl, fun n => ⟨hsize, fun i _ => ?_⟩⟩
    have hi := hcell i
    split at hi
    · exact hi
    · rw [hi]
      exact .refl _

/-- **Allocation leaves registers alike**, whatever the heap holds. -/
lemma alloc_keeps {cls : ClassId} {fields : List Value} {v : Value}
    (h : alloc P cls fields m = .ok v m') : AllocKeeps P m m' := by
  obtain ⟨-, ws, ha, htransfer⟩ := alloc_eq_ok h
  obtain ⟨hframe, hcontext, hkeeps⟩ := keeps_of_roots (Heap.alloc_alike ha).snd
  exact ⟨hframe, hcontext, htransfer, hkeeps⟩

end Machine

end EffectMachine
