/-
The sizes of the heap and of the register file cannot be observed.

Two runs of a program that differ in these sizes take the same steps, as long as
neither runs out of heap or registers. What they hold corresponds: the objects
lie in different places, but form the same graph.

* `Machine.steps`: a number of steps of a run;
* `Machine.Reaches`: the values that a machine can get at;
* `Machine.Corresponds`: a map between what two machines can get at, which keeps
  classes, inline values and fields;
* `Together.corresponds`: machines in lockstep correspond;
* `settle_agrees`, `step_agrees`, `steps_agrees`, `run_agrees`: runs stay in
  lockstep;
* `sizes_unobservable`: **runs under different sizes agree after every number of
  steps**, and on an integer result.
-/
import EffectMachine.Proofs.LockstepRounds
import EffectMachine.Proofs.RunChecks
import Mathlib.Data.Set.Function

namespace EffectMachine

namespace Machine

/-- Takes a number of steps, or fewer if the run halts before. The result is
`false` if a step took more rounds than allowed. -/
def steps (P : Program) (natives : Natives) (rounds : Nat) : Nat → MachineM Bool
  | 0 => fun m => .ok true m
  | n + 1 => fun m =>
    if m.thread.halted then .ok true m
    else
      match step P natives rounds m with
      | .ok true m => steps P natives rounds n m
      | .ok false m => .ok false m
      | .error e m => .error e m

/-- A number of steps is a step and the others, unless the run has halted. -/
lemma steps_succ {P : Program} {natives : Natives} {rounds n : Nat} {m : Machine} :
    steps P natives rounds (n + 1) m =
      if m.thread.halted then .ok true m
      else
        match step P natives rounds m with
        | .ok true m => steps P natives rounds n m
        | .ok false m => .ok false m
        | .error e m => .error e m := rfl

/-- The machine can get at the value: it holds it in the value register, in a
register in use or in a global, or in a field of an object that it can get
at. -/
inductive Reaches (P : Program) (m : Machine) : Value → Prop
  | value : Reaches P m m.thread.value
  | register {i : Nat} : i < m.thread.liveEnd → Reaches P m (m.thread.registers.cell i)
  | global {v : Value} : v ∈ m.image.globals → Reaches P m v
  | field {v u : Value} {i : Nat} : Reaches P m v → m.image.field P v i = .ok u → Reaches P m u

/-- The map takes what the first machine can get at to what the second one can
get at, one to one, and keeps classes, inline values and fields. -/
structure Corresponds (P : Program) (f : Value → Value) (m₁ m₂ : Machine) : Prop where
  bijOn : Set.BijOn f {v | m₁.Reaches P v} {v | m₂.Reaches P v}
  tag : ∀ v, m₁.Reaches P v → (f v).tag = v.tag
  inline : ∀ v, m₁.Reaches P v → P.fieldCount v.tag = 0 → f v = v
  field : ∀ v i u, m₁.Reaches P v → m₁.image.field P v i = .ok u →
    m₂.image.field P (f v) i = .ok (f u)
  value : f m₁.thread.value = m₂.thread.value
  register : ∀ i < m₁.thread.liveEnd,
    f (m₁.thread.registers.cell i) = m₂.thread.registers.cell i
  globals : m₁.image.globals.map f = m₂.image.globals

end Machine

/-! ### What machines in lockstep can get at -/

/-- Only fields that the class has can be read. -/
lemma Image.lt_of_field_eq_ok {P : Program} {p : Image} {v u : Value} {i : Nat}
    (h : p.field P v i = .ok u) : i < P.fieldCount v.tag := by
  by_contra hi
  rw [field, checkField, if_neg hi] at h
  cases h

/-- The world with the two machines exchanged. -/
def World.swap (w : World) : World where
  graph := w.graph
  globals := w.globals
  classes₁ := w.classes₂
  classes₂ := w.classes₁
  place₁ := w.place₂
  place₂ := w.place₁
  same := w.same

lemma World.Pairs.swap {P : Program} {w : World} {v₁ v₂ : Value} (h : w.Pairs P v₁ v₂) :
    w.swap.Pairs P v₂ v₁ := by
  obtain ⟨hsame, r, h₁, h₂⟩ := h
  exact ⟨fun hs => (hsame hs).symm, r, h₂, h₁⟩

namespace Together

variable {P : Program} {w : World} {c : Control} {n : Nat} {m₁ m₂ : Machine}

lemma swap (h : Together P w c n m₁ m₂) : Together P w.swap c n m₂ m₁ where
  same hs := (h.same hs).symm
  control₁ := h.control₂
  control₂ := h.control₁
  image₁ := h.image₂
  image₂ := h.image₁
  value := h.value.swap
  size₁ := h.size₂
  size₂ := h.size₁
  registers i hi := (h.registers i hi).swap

lemma partner_eq (h : Together P w c n m₁ m₂) {v u u' : Value} (hu : w.Pairs P v u)
    (hu' : w.Pairs P v u') : u = u' := by
  obtain ⟨-, r, hr, hru⟩ := hu
  obtain ⟨-, r', hr', hru'⟩ := hu'
  cases hr.ref_eq h.image₁.heap hr'
  exact hru.value_eq hru'

lemma forall₂_globals (h : Together P w c n m₁ m₂) :
    List.Forall₂ (w.Pairs P) m₁.image.globals.toList m₂.image.globals.toList :=
  World.forall₂_pairs h.image₁.globals h.image₂.globals fun hs => by rw [h.same hs]

/-- What the first machine can get at has a partner that the second one can get
at. -/
lemma exists_partner (h : Together P w c c.liveEnd m₁ m₂) {v : Value} (hv : m₁.Reaches P v) :
    ∃ u, w.Pairs P v u ∧ m₂.Reaches P u := by
  induction hv with
  | value => exact ⟨_, h.value, .value⟩
  | register hi =>
      rw [h.liveEnd₁] at hi
      refine ⟨_, h.registers _ hi, .register ?_⟩
      rw [h.swap.liveEnd₁]
      exact hi
  | @global v hv =>
      obtain ⟨i, hi, hvi⟩ := List.mem_iff_getElem.mp (Array.mem_toList_iff.mpr hv)
      have hi' : i < m₂.image.globals.toList.length := h.forall₂_globals.length_eq ▸ hi
      refine ⟨m₂.image.globals.toList[i], ?_, .global ?_⟩
      · rw [← hvi]
        exact (List.forall₂_iff_get.mp h.forall₂_globals).2 i hi hi'
      · exact Array.mem_toList_iff.mp (List.getElem_mem hi')
  | @field v u i _ hu ih =>
      obtain ⟨v', hv', hreach⟩ := ih
      obtain ⟨u₁, u₂, hu₁, hu₂, hpairs⟩ := h.field_pairs hv' (Image.lt_of_field_eq_ok hu)
      cases hu.symm.trans hu₁
      exact ⟨u₂, hpairs, .field hreach hu₂⟩

/-- Machines in lockstep correspond. -/
theorem corresponds (h : Together P w c c.liveEnd m₁ m₂) : ∃ f, m₁.Corresponds P f m₂ := by
  classical
  -- the map takes a value to its partner
  let f : Value → Value := fun v => if hv : ∃ u, w.Pairs P v u then hv.choose else v
  have hf : ∀ {v u : Value}, w.Pairs P v u → f v = u := by
    intro v u hu
    have hv : ∃ u, w.Pairs P v u := ⟨u, hu⟩
    exact (dif_pos hv).trans (h.partner_eq hv.choose_spec hu)
  have hpartner : ∀ v, m₁.Reaches P v → w.Pairs P v (f v) ∧ m₂.Reaches P (f v) := by
    intro v hv
    obtain ⟨u, hu, hreach⟩ := h.exists_partner hv
    rw [hf hu]
    exact ⟨hu, hreach⟩
  refine ⟨f, ⟨fun v hv => (hpartner v hv).2, ?_, ?_⟩, fun v hv => ?_, fun v hv hzero => ?_,
    fun v i u hv hu => ?_, hf h.value, fun i hi => hf (h.registers i ?_), ?_⟩
  · intro v hv v' hv' heq
    refine h.swap.partner_eq (hpartner v hv).1.swap ?_
    rw [heq]
    exact (hpartner v' hv').1.swap
  · intro u hu
    obtain ⟨v, hv, hreach⟩ := h.swap.exists_partner hu
    exact ⟨v, hreach, hf hv.swap⟩
  · exact (h.alike (hpartner v hv).1).1.symm
  · exact ((h.alike (hpartner v hv).1).2 hzero).symm
  · obtain ⟨u₁, u₂, hu₁, hu₂, hpairs⟩ :=
      h.field_pairs (hpartner v hv).1 (Image.lt_of_field_eq_ok hu)
    cases hu.symm.trans hu₁
    rw [hf hpairs]
    exact hu₂
  · rw [← h.liveEnd₁]
    exact hi
  · apply Array.toList_inj.mp
    rw [Array.toList_map]
    have hglobals := h.forall₂_globals
    generalize m₁.image.globals.toList = vs at hglobals
    generalize m₂.image.globals.toList = us at hglobals
    induction hglobals with
    | nil => rfl
    | cons hv _ ih => rw [List.map_cons, hf hv, ih]

end Together

/-! ### Runs in lockstep -/

section Runs

variable {P : Program} {natives : Natives} {m₀ m₁ m₂ : Machine} {rounds : Nat}

lemma InStep.halted_eq {same : Bool} {c₁ c₂ : Config} (h : InStep P same c₁ c₂) :
    c₁.machine.thread.halted = c₂.machine.thread.halted := by
  obtain ⟨-, w, c, -, -, htogether⟩ := h
  have hpos : c₁.machine.thread.pos = c₂.machine.thread.pos :=
    congrArg Control.pos (htogether.control₁.trans htogether.control₂.symm)
  rw [Thread.halted, Thread.halted, hpos]

/-- What the machines have come to: a run that can be followed on, in lockstep
with the other. -/
def RunsOn (P : Program) (natives : Natives) (m₀ : Machine) (call : Option MethodId)
    (m₁ m₂ : Machine) : Prop :=
  (∃ past, Course P natives m₀ past ⟨call, m₁⟩) ∧ InStep P false ⟨call, m₁⟩ ⟨call, m₂⟩

variable (hP : P.Plain)
  (hcore : ∀ (index : Nat) x, natives.entries[index]? = some x → x ∈ coreNatives)
  (hgood : ∀ past c, Course P natives m₀ past c → c.halted = false →
    c.InFrame P natives ∧ c.RecordsHoldInts P natives)

include hP hcore hgood

/-- A round keeps runs in lockstep. -/
lemma RunsOn.advance {call : Option MethodId} (h : RunsOn P natives m₀ call m₁ m₂)
    (hgoing : Config.halted ⟨call, m₁⟩ = false) :
    Agrees (fun next₁ s₁ next₂ s₂ => next₁ = next₂ ∧ RunsOn P natives m₀ next₁ s₁ s₂)
      (Config.advance P natives ⟨call, m₁⟩) (Config.advance P natives ⟨call, m₂⟩) := by
  obtain ⟨⟨past, hcourse⟩, hstep⟩ := h
  obtain ⟨hframe, hrecords⟩ := hgood past _ hcourse hgoing
  refine (advance_agrees hP hcore hstep hframe (.inr hrecords)).with_eq.mono ?_
  rintro next₁ s₁ next₂ s₂ ⟨hadvance, hstep'⟩
  obtain rfl : next₁ = next₂ := hstep'.1
  exact ⟨rfl, ⟨_, hcourse.round hgoing hadvance⟩, hstep'⟩

lemma settle_agrees {call : Option MethodId} (h : RunsOn P natives m₀ call m₁ m₂) :
    Agrees (fun b₁ s₁ b₂ s₂ => b₁ = b₂ ∧ ∃ call', (b₁ = true → call' = none) ∧
        RunsOn P natives m₀ call' s₁ s₂)
      (Machine.settle P natives rounds call m₁) (Machine.settle P natives rounds call m₂) := by
  induction rounds generalizing call m₁ m₂ with
  | zero =>
      cases call with
      | none => exact ⟨rfl, none, fun _ => rfl, h⟩
      | some method => exact ⟨rfl, some method, fun hb => absurd hb Bool.false_ne_true, h⟩
  | succ rounds ih =>
      cases call with
      | none => exact ⟨rfl, none, fun _ => rfl, h⟩
      | some method =>
          have hround := h.advance hP hcore hgood rfl
          dsimp only [Config.advance] at hround
          rw [Machine.settle_some, Machine.settle_some]
          revert hround
          cases Machine.dispatchOnce P natives method m₁ with
          | ok next₁ s₁ =>
              cases Machine.dispatchOnce P natives method m₂ with
              | ok next₂ s₂ =>
                  rintro ⟨rfl, h'⟩
                  exact ih h'
              | error e₂ s₂ => exact fun he => .of_starved_right he _
          | error e₁ s₁ =>
              cases Machine.dispatchOnce P natives method m₂ with
              | ok next₂ s₂ => exact fun he => .of_starved_left he _
              | error e₂ s₂ => exact id

lemma step_agrees (rounds : Nat) (h : RunsOn P natives m₀ none m₁ m₂)
    (hgoing : m₁.thread.halted = false) :
    Agrees (fun b₁ s₁ b₂ s₂ => b₁ = b₂ ∧ ∃ call, (b₁ = true → call = none) ∧
        RunsOn P natives m₀ call s₁ s₂)
      (Machine.step P natives rounds m₁) (Machine.step P natives rounds m₂) := by
  have hround := h.advance hP hcore hgood hgoing
  dsimp only [Config.advance] at hround
  refine hround.bind fun call₁ s₁ call₂ s₂ h' => ?_
  obtain ⟨rfl, h'⟩ := h'
  exact settle_agrees hP hcore hgood h'

/-- What follows a step keeps runs in lockstep, if it does so from every machine
that a step leads to. -/
lemma following_agrees {α : Type} {Q : α → Machine → α → Machine → Prop}
    {follow : Machine → EStateM.Result Fault Machine α} {unsettled : α}
    (hfollow : ∀ s₁ s₂, RunsOn P natives m₀ none s₁ s₂ → Agrees Q (follow s₁) (follow s₂))
    (hunsettled : ∀ call s₁ s₂, RunsOn P natives m₀ call s₁ s₂ → Q unsettled s₁ unsettled s₂)
    (h : RunsOn P natives m₀ none m₁ m₂) (hgoing : m₁.thread.halted = false) :
    Agrees Q
      (match Machine.step P natives rounds m₁ with
        | .ok true m => follow m
        | .ok false m => .ok unsettled m
        | .error e m => .error e m)
      (match Machine.step P natives rounds m₂ with
        | .ok true m => follow m
        | .ok false m => .ok unsettled m
        | .error e m => .error e m) := by
  have hstep := step_agrees hP hcore hgood rounds h hgoing
  revert hstep
  cases Machine.step P natives rounds m₁ with
  | ok b₁ s₁ =>
      cases Machine.step P natives rounds m₂ with
      | ok b₂ s₂ =>
          rintro ⟨rfl, call, hcall, h'⟩
          cases b₁ with
          | true =>
              cases hcall rfl
              exact hfollow s₁ s₂ h'
          | false => exact hunsettled call s₁ s₂ h'
      | error e₂ s₂ => exact fun he => .of_starved_right he _
  | error e₁ s₁ =>
      cases Machine.step P natives rounds m₂ with
      | ok b₂ s₂ => exact fun he => .of_starved_left he _
      | error e₂ s₂ => exact id

theorem steps_agrees (n : Nat) (h : RunsOn P natives m₀ none m₁ m₂) :
    Agrees (fun b₁ s₁ b₂ s₂ => b₁ = b₂ ∧ ∃ call, InStep P false ⟨call, s₁⟩ ⟨call, s₂⟩)
      (Machine.steps P natives rounds n m₁) (Machine.steps P natives rounds n m₂) := by
  induction n generalizing m₁ m₂ with
  | zero => exact ⟨rfl, none, h.2⟩
  | succ n ih =>
      rw [Machine.steps_succ, Machine.steps_succ, ← h.2.halted_eq]
      by_cases hgoing : m₁.thread.halted = true
      · rw [if_pos hgoing, if_pos hgoing]
        exact ⟨rfl, none, h.2⟩
      · rw [if_neg hgoing, if_neg hgoing]
        exact following_agrees hP hcore hgood (fun s₁ s₂ h' => ih h')
          (fun call s₁ s₂ h' => ⟨rfl, call, h'.2⟩) h (Bool.eq_false_iff.mpr hgoing)

/-- Whole runs stay in lockstep. -/
theorem run_agrees (rounds : Nat) (h : RunsOn P natives m₀ none m₁ m₂) :
    Agrees (fun v₁ s₁ v₂ s₂ => ∃ call, InStep P false ⟨call, s₁⟩ ⟨call, s₂⟩ ∧
        (v₁ = none ∧ v₂ = none ∨ v₁ = some s₁.thread.value ∧ v₂ = some s₂.thread.value))
      (Machine.run P natives rounds m₁) (Machine.run P natives rounds m₂) := by
  induction rounds generalizing m₁ m₂ with
  | zero =>
      rw [Machine.run_zero, Machine.run_zero, ← h.2.halted_eq]
      by_cases hgoing : m₁.thread.halted = true
      · rw [if_pos hgoing, if_pos hgoing]
        exact ⟨none, h.2, .inr ⟨rfl, rfl⟩⟩
      · rw [if_neg hgoing, if_neg hgoing]
        exact ⟨none, h.2, .inl ⟨rfl, rfl⟩⟩
  | succ rounds ih =>
      rw [Machine.run_succ, Machine.run_succ, ← h.2.halted_eq]
      by_cases hgoing : m₁.thread.halted = true
      · rw [if_pos hgoing, if_pos hgoing]
        exact ⟨none, h.2, .inr ⟨rfl, rfl⟩⟩
      · rw [if_neg hgoing, if_neg hgoing]
        exact following_agrees hP hcore hgood (fun s₁ s₂ h' => ih h')
          (fun call s₁ s₂ h' => ⟨call, h'.2, .inl ⟨rfl, rfl⟩⟩) h (Bool.eq_false_iff.mpr hgoing)

end Runs

/-! ### Different sizes -/

/-- Two results of the same number of steps cannot be told apart: both runs have
failed in the same way, or neither has, and then they have come to the same
place with the same objects. -/
def SameOutcome (P : Program) :
    EStateM.Result Fault Machine Bool → EStateM.Result Fault Machine Bool → Prop
  | .ok b₁ s₁, .ok b₂ s₂ =>
    b₁ = b₂ ∧ s₁.thread.pos = s₂.thread.pos ∧ s₁.thread.frame = s₂.thread.frame ∧
      s₁.thread.frameEnd = s₂.thread.frameEnd ∧ s₁.thread.context = s₂.thread.context ∧
      s₁.thread.halted = s₂.thread.halted ∧ ∃ f, s₁.Corresponds P f s₂
  | .error e₁ _, .error e₂ _ => e₁.ctorIdx = e₂.ctorIdx
  | _, _ => False

/-- Results that agree, neither being short of heap or registers, cannot be told
apart. -/
lemma Agrees.sameOutcome {P : Program} {r₁ r₂ : EStateM.Result Fault Machine Bool}
    (h : Agrees (fun b₁ s₁ b₂ s₂ => b₁ = b₂ ∧ ∃ call, InStep P false ⟨call, s₁⟩ ⟨call, s₂⟩) r₁ r₂)
    (h₁ : ∀ e s, r₁ = .error e s → e.starved = false)
    (h₂ : ∀ e s, r₂ = .error e s → e.starved = false) : SameOutcome P r₁ r₂ := by
  have hfed : ∀ {e : Fault}, e.starved = false → ¬ e.starved = true := fun h => by rw [h]; decide
  cases r₁ with
  | ok b₁ s₁ =>
      cases r₂ with
      | ok b₂ s₂ =>
          obtain ⟨hb, call, hstep⟩ := h
          have hhalted := hstep.halted_eq
          obtain ⟨-, w, c, -, -, htogether⟩ := hstep
          have hcontrol := htogether.control₁.trans htogether.control₂.symm
          exact ⟨hb, congrArg Control.pos hcontrol, congrArg Control.frame hcontrol,
            congrArg Control.frameEnd hcontrol, congrArg Control.context hcontrol, hhalted,
            htogether.corresponds⟩
      | error e₂ s₂ => exact hfed (h₂ e₂ s₂ rfl) h
  | error e₁ s₁ =>
      cases r₂ with
      | ok b₂ s₂ => exact hfed (h₁ e₁ s₁ rfl) h
      | error e₂ s₂ =>
          rcases h with h | h | h
          · exact absurd h (hfed (h₁ e₁ s₁ rfl))
          · exact absurd h (hfed (h₂ e₂ s₂ rfl))
          · exact h.1

/-- **The sizes of the heap and of the register file cannot be observed.** Two
runs of a program under different sizes have the same outcome after every number
of steps, as long as neither has run out of heap or registers; and if one ends
with an integer, then the other ends with the same one. -/
theorem sizes_unobservable {P : Program} (hP : P.Linked) (hscalars : P.InlineScalars)
    {options₁ options₂ : Options} (hwords₁ : options₁.heapWords ≤ 2 ^ 32)
    (hwords₂ : options₂.heapWords ≤ 2 ^ 32) {natives : Natives} {m₁ m₂ : Machine}
    (hstart₁ : Starts P options₁ natives m₁) (hstart₂ : Starts P options₂ natives m₂)
    (hgood : ∀ past c, Course P natives m₁ past c → c.halted = false →
      c.InFrame P natives ∧ c.RecordsHoldInts P natives) :
    (∀ rounds n,
      (∀ e s, Machine.steps P natives rounds n m₁ = .error e s → e.starved = false) →
      (∀ e s, Machine.steps P natives rounds n m₂ = .error e s → e.starved = false) →
      SameOutcome P (Machine.steps P natives rounds n m₁)
        (Machine.steps P natives rounds n m₂)) ∧
    ∀ rounds v s₁, Machine.run P natives rounds m₁ = .ok (some v) s₁ → v.tag = P.intClass →
      (∀ e s, Machine.run P natives rounds m₂ = .error e s → e.starved = false) →
      ∃ s₂, Machine.run P natives rounds m₂ = .ok (some v) s₂ := by
  have hplain := hP.plain hscalars
  have hcore : ∀ (index : Nat) x, natives.entries[index]? = some x → x ∈ coreNatives :=
    fun _ _ => hstart₁.mem_coreNatives
  have hon : RunsOn P natives m₁ none m₁ m₂ := by
    refine ⟨⟨[], .start⟩, .start hplain hwords₁ hwords₂ hstart₁ hstart₂ fun h => ?_⟩
    cases h
  refine ⟨fun rounds n h₁ h₂ => (steps_agrees hplain hcore hgood n hon).sameOutcome h₁ h₂, ?_⟩
  intro rounds v s₁ hrun₁ htag hfed
  have hagrees := run_agrees hplain hcore hgood rounds hon
  rw [hrun₁] at hagrees
  cases hrun₂ : Machine.run P natives rounds m₂ with
  | error e₂ s₂ =>
      rw [hrun₂] at hagrees
      cases (hfed e₂ s₂ hrun₂).symm.trans hagrees
  | ok v₂ s₂ =>
      rw [hrun₂] at hagrees
      obtain ⟨call, ⟨-, w, c, -, -, htogether⟩, h | h⟩ := hagrees
      · cases h.1
      · -- integers are inline, and so the same on both sides
        obtain ⟨hv₁, rfl⟩ := h
        cases hv₁
        have hzero : P.fieldCount s₁.thread.value.tag = 0 := htag ▸ hplain.int
        rw [(htogether.alike htogether.value).2 hzero]
        exact ⟨s₂, rfl⟩

/-- A handler that answers an effect through a continuation. After 21 steps the
continuation exists in both heaps, of which the smaller one has been collected;
in the end the answers are the same. -/
theorem sizes_unobservable_reply :
    (∃ s₁ s₂ f,
      Machine.steps replyProgram replyNatives 9 21 (replyStart ⟨12, 24⟩) = .ok true s₁ ∧
      Machine.steps replyProgram replyNatives 9 21 (replyStart ⟨20, 40⟩) = .ok true s₂ ∧
      s₁.image.heap.stats.collections = 1 ∧ s₂.image.heap.stats.collections = 0 ∧
      s₁.Corresponds replyProgram f s₂) ∧
    ∃ s₂, Machine.run replyProgram replyNatives 60 (replyStart ⟨20, 40⟩) =
      .ok (some (replyProgram.int 40)) s₂ := by
  have hcheck : Config.checkRun replyProgram replyNatives
      (fun _ c => c.InFrame replyProgram replyNatives && c.recordsHold replyProgram replyNatives)
      60 [] ⟨none, replyStart ⟨12, 24⟩⟩ = true := by decide +kernel
  have hgood : ∀ past c, Course replyProgram replyNatives (replyStart ⟨12, 24⟩) past c →
      c.halted = false →
      c.InFrame replyProgram replyNatives ∧ c.RecordsHoldInts replyProgram replyNatives := by
    intro past c hcourse _
    have hc := hcourse.trail.of_checkRun hcheck
    rw [Bool.and_eq_true] at hc
    exact ⟨of_decide_eq_true hc.1, .of_recordsHold hc.2⟩
  have hsteps₁ : Machine.gives (Machine.steps replyProgram replyNatives 9 21 (replyStart ⟨12, 24⟩))
      true (·.image.heap.stats.collections = 1) = true := by decide +kernel
  have hsteps₂ : Machine.gives (Machine.steps replyProgram replyNatives 9 21 (replyStart ⟨20, 40⟩))
      true (·.image.heap.stats.collections = 0) = true := by decide +kernel
  have hrun₁ : Machine.gives (Machine.run replyProgram replyNatives 60 (replyStart ⟨12, 24⟩))
      (some (replyProgram.int 40)) (fun _ => true) = true := by decide +kernel
  have hrun₂ : Machine.gives (Machine.run replyProgram replyNatives 60 (replyStart ⟨20, 40⟩))
      (some (replyProgram.int 40)) (fun _ => true) = true := by decide +kernel
  obtain ⟨s₁, hs₁, hcollections₁⟩ := Machine.exists_of_gives hsteps₁
  obtain ⟨s₂, hs₂, hcollections₂⟩ := Machine.exists_of_gives hsteps₂
  obtain ⟨t₁, ht₁, -⟩ := Machine.exists_of_gives hrun₁
  obtain ⟨t₂, ht₂, -⟩ := Machine.exists_of_gives hrun₂
  obtain ⟨hsteps, hruns⟩ := sizes_unobservable linked_reply inlineScalars_reply
    (by decide) (by decide) (starts_reply ⟨12, 24⟩ (by decide))
    (starts_reply ⟨20, 40⟩ (by decide)) hgood
  have hcorresponds : ∀ {rounds n : Nat} {s₁ s₂ : Machine},
      Machine.steps replyProgram replyNatives rounds n (replyStart ⟨12, 24⟩) = .ok true s₁ →
      Machine.steps replyProgram replyNatives rounds n (replyStart ⟨20, 40⟩) = .ok true s₂ →
      ∃ f, s₁.Corresponds replyProgram f s₂ := by
    intro rounds n s₁ s₂ hs₁ hs₂
    have hsame := hsteps rounds n
    rw [hs₁, hs₂] at hsame
    obtain ⟨-, -, -, -, -, -, hf⟩ := hsame (fun e s h => by cases h) (fun e s h => by cases h)
    exact hf
  obtain ⟨f, hf⟩ := hcorresponds hs₁ hs₂
  exact ⟨⟨s₁, s₂, f, hs₁, hs₂, of_decide_eq_true hcollections₁, of_decide_eq_true hcollections₂,
    hf⟩, hruns 60 _ t₁ ht₁ rfl fun e s h => by cases ht₂.symm.trans h⟩

end EffectMachine
