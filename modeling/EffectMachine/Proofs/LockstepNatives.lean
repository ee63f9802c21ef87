/-
Core natives keep machines in lockstep.

* `Together.arg_agrees`, `Together.intArg_agrees`: arguments within the frame;
* `Together.arithmetic_lands`, `Together.comparison_lands`,
  `Together.conditional_lands`, `Together.arrayGet_lands` and so on: the natives
  one by one;
* `Together.NativeFinds`: what a native has to find;
* `Together.core_lands`: **every core native keeps machines in lockstep**, if it
  reads no argument past the registers in use.
-/
import EffectMachine.Proofs.LockstepEffects

namespace EffectMachine

namespace Together

variable {P : Program} {w : World} {c : Control} {n : Nat} {m₁ m₂ : Machine} {T : Prop}

/-! ### Arguments -/

/-- An argument within the frame. -/
lemma arg_agrees (h : Together P w c c.liveEnd m₁ m₂) {i : Nat} (hi : recordSize + i < c.frameEnd) :
    Agrees (fun a₁ s₁ a₂ s₂ => a₁ = m₁.argument i ∧ w.Pairs P a₁ a₂ ∧ s₁ = m₁ ∧ s₂ = m₂)
      (Machine.arg i m₁) (Machine.arg i m₂) := by
  unfold Machine.arg
  refine h.frame_agrees.bind ?_
  rintro _ _ _ _ ⟨rfl, rfl, rfl, rfl⟩
  refine (h.register_agrees (by rw [Control.liveEnd]; omega)).mono ?_
  rintro _ _ _ _ ⟨rfl, rest⟩
  exact ⟨by rw [Machine.argument, h.frame₁], rest⟩

lemma intValue_agrees (hP : P.Plain) (h : Together P w c n m₁ m₂) {v₁ v₂ : Value}
    (hv : w.Pairs P v₁ v₂) :
    Agrees (fun a₁ s₁ a₂ s₂ => P.intValue v₁ = .ok a₁ ∧ a₁ = a₂ ∧ s₁ = m₁ ∧ s₂ = m₂)
      ((Action.ofExcept (P.intValue v₁) : MachineM Int32) m₁)
      ((Action.ofExcept (P.intValue v₂) : MachineM Int32) m₂) := by
  obtain ⟨htag, hdata⟩ := h.alike hv
  rw [Program.intValue, Program.intValue, ← htag]
  by_cases hint : v₁.tag = P.intClass
  · rw [if_pos hint, if_pos hint, ← hdata (hint ▸ hP.int)]
    exact ⟨rfl, rfl, rfl, rfl⟩
  · rw [if_neg hint, if_neg hint]
    exact .of_error rfl rfl

lemma intArg_agrees (hP : P.Plain) (h : Together P w c c.liveEnd m₁ m₂) {i : Nat}
    (hi : recordSize + i < c.frameEnd) :
    Agrees (fun a₁ s₁ a₂ s₂ => P.intValue (m₁.argument i) = .ok a₁ ∧ a₁ = a₂ ∧ s₁ = m₁ ∧ s₂ = m₂)
      (Machine.intArg P i m₁) (Machine.intArg P i m₂) := by
  unfold Machine.intArg
  refine (h.arg_agrees hi).bind ?_
  rintro _ _ _ _ ⟨rfl, hv, rfl, rfl⟩
  exact h.intValue_agrees hP hv

lemma boolValue_agrees (h : Together P w c n m₁ m₂) {v₁ v₂ : Value} (hv : w.Pairs P v₁ v₂) :
    Agrees (fun a₁ s₁ a₂ s₂ => P.boolValue v₁ = .ok a₁ ∧ a₁ = a₂ ∧ s₁ = m₁ ∧ s₂ = m₂)
      ((Action.ofExcept (P.boolValue v₁) : MachineM Bool) m₁)
      ((Action.ofExcept (P.boolValue v₂) : MachineM Bool) m₂) := by
  have htag := (h.alike hv).1
  rw [Program.boolValue, Program.boolValue, ← htag]
  split
  · exact ⟨rfl, rfl, rfl, rfl⟩
  · split
    · exact ⟨rfl, rfl, rfl, rfl⟩
    · exact .of_error rfl rfl

/-! ### Integers and conditionals -/

variable {r₁ r₂ : Value}

lemma arithmetic_lands (hP : P.Plain) (h : Together P w c c.liveEnd m₁ m₂) (hc : c.Settled)
    (op : Int32 → Int32 → Except TypeFault Int32) (h0 : recordSize + 0 < c.frameEnd)
    (h1 : ∀ a, P.intValue (m₁.argument 0) = .ok a → recordSize + 1 < c.frameEnd)
    (hT : T → w.same = true ∨ (m₁.thread.registers.cell (c.frame + 1)).tag = P.intClass) :
    Agrees (fun _ s₁ _ s₂ => Lands T P w.same s₁ s₂)
      (CoreNatives.arithmetic op P r₁ m₁) (CoreNatives.arithmetic op P r₂ m₂) := by
  have hctx := hc.context_le
  unfold CoreNatives.arithmetic
  refine (h.intArg_agrees hP h0).bind ?_
  rintro a _ _ _ ⟨ha, rfl, rfl, rfl⟩
  refine (h.intArg_agrees hP (h1 a ha)).bind ?_
  rintro b _ _ _ ⟨-, rfl, rfl, rfl⟩
  cases op a b with
  | ok k =>
      exact h.ret_lands hP hc.frame_le (by rw [recordSize] at hctx; omega) (w.pairs_int hP _) hT
  | error e => exact .throw rfl

lemma comparison_lands (hP : P.Plain) (h : Together P w c c.liveEnd m₁ m₂) (hc : c.Settled)
    (test : Int32 → Int32 → Bool) (h0 : recordSize + 0 < c.frameEnd)
    (h1 : ∀ a, P.intValue (m₁.argument 0) = .ok a → recordSize + 1 < c.frameEnd)
    (hT : T → w.same = true ∨ (m₁.thread.registers.cell (c.frame + 1)).tag = P.intClass) :
    Agrees (fun _ s₁ _ s₂ => Lands T P w.same s₁ s₂)
      (CoreNatives.comparison test P r₁ m₁) (CoreNatives.comparison test P r₂ m₂) := by
  have hctx := hc.context_le
  unfold CoreNatives.comparison
  refine (h.intArg_agrees hP h0).bind ?_
  rintro a _ _ _ ⟨ha, rfl, rfl, rfl⟩
  refine (h.intArg_agrees hP (h1 a ha)).bind ?_
  rintro b _ _ _ ⟨-, rfl, rfl, rfl⟩
  refine (ofExcept_agrees (P.boolean (test a b)) ?_).bind ?_
  · intro e he
    rw [Program.boolean, Program.builtin] at he
    split at he
    · cases he
    · rename_i he'
      split at he'
      · cases he'
      · cases he'
        cases he
        rfl
  · rintro v _ _ _ ⟨hv, rfl, rfl, rfl⟩
    obtain ⟨hzero, hne⟩ := hP.boolean hv
    exact h.ret_lands hP hc.frame_le (by rw [recordSize] at hctx; omega) (w.pairs_inline hzero hne)
      hT

lemma conditional_lands (h : Together P w c c.liveEnd m₁ m₂) (hc : c.Settled)
    (h0 : recordSize + 0 < c.frameEnd)
    (h1 : ∀ b, P.boolValue (m₁.argument 0) = .ok b →
      recordSize + (if b then 1 else 2) < c.frameEnd) :
    Agrees (fun _ s₁ _ s₂ => Lands T P w.same s₁ s₂)
      (CoreNatives.conditional P r₁ m₁) (CoreNatives.conditional P r₂ m₂) := by
  unfold CoreNatives.conditional
  refine (h.arg_agrees h0).bind ?_
  rintro _ _ _ _ ⟨rfl, hv, rfl, rfl⟩
  refine (h.boolValue_agrees hv).bind ?_
  rintro b _ _ _ ⟨hb, rfl, rfl, rfl⟩
  refine (h.arg_agrees (h1 b hb)).bind ?_
  rintro _ _ _ _ ⟨-, hv', rfl, rfl⟩
  exact h.tailCall_lands hc rfl hv' _

/-! ### Arrays -/

lemma arrayLength_lands (hP : P.Plain) (h : Together P w c c.liveEnd m₁ m₂) (hc : c.Settled)
    (h0 : recordSize + 0 < c.frameEnd)
    (hT : T → w.same = true ∨ (m₁.thread.registers.cell (c.frame + 1)).tag = P.intClass) :
    Agrees (fun _ s₁ _ s₂ => Lands T P w.same s₁ s₂)
      (CoreNatives.arrayLength P r₁ m₁) (CoreNatives.arrayLength P r₂ m₂) := by
  have hctx := hc.context_le
  unfold CoreNatives.arrayLength
  refine (h.arg_agrees h0).bind ?_
  rintro v₁ _ v₂ _ ⟨-, hv, rfl, rfl⟩
  rw [← (h.alike hv).1]
  cases v₁.tag.arrayLength? with
  | none => exact .of_error rfl rfl
  | some length =>
      exact h.ret_lands hP hc.frame_le (by rw [recordSize] at hctx; omega) (w.pairs_int hP _) hT

/-- An array and an index inside it. -/
lemma arrayIndex_agrees (hP : P.Plain) (h : Together P w c c.liveEnd m₁ m₂)
    (h0 : recordSize + 0 < c.frameEnd) (h1 : recordSize + 1 < c.frameEnd) :
    Agrees (fun a₁ s₁ a₂ s₂ => w.Pairs P a₁.1 a₂.1 ∧ a₁.2 = a₂.2 ∧
        (∃ length k, (m₁.argument 0).tag.arrayLength? = some length ∧
          P.intValue (m₁.argument 1) = .ok k ∧ CoreNatives.wrapIndex k < length) ∧
        s₁ = m₁ ∧ s₂ = m₂)
      (CoreNatives.arrayIndex P m₁) (CoreNatives.arrayIndex P m₂) := by
  unfold CoreNatives.arrayIndex
  refine (h.arg_agrees h0).bind ?_
  rintro v₁ _ v₂ _ ⟨hv₁, hv, rfl, rfl⟩
  refine (h.intArg_agrees hP h1).bind ?_
  rintro k _ _ _ ⟨hk, rfl, rfl, rfl⟩
  rw [← (h.alike hv).1]
  cases hlength : v₁.tag.arrayLength? with
  | none => exact .of_error rfl rfl
  | some length =>
      dsimp only
      by_cases hlt : CoreNatives.wrapIndex k < length
      · rw [if_pos hlt, if_pos hlt]
        exact ⟨hv, rfl, ⟨length, k, hv₁ ▸ hlength, hk, hlt⟩, rfl, rfl⟩
      · rw [if_neg hlt, if_neg hlt]
        exact .of_error rfl rfl

lemma arrayGet_lands (hP : P.Plain) (h : Together P w c c.liveEnd m₁ m₂) (hc : c.Settled)
    (h0 : recordSize + 0 < c.frameEnd) (h1 : recordSize + 1 < c.frameEnd)
    (hT : T → w.same = true ∨ (m₁.thread.registers.cell (c.frame + 1)).tag = P.intClass) :
    Agrees (fun _ s₁ _ s₂ => Lands T P w.same s₁ s₂)
      (CoreNatives.arrayGet P r₁ m₁) (CoreNatives.arrayGet P r₂ m₂) := by
  have hctx := hc.context_le
  unfold CoreNatives.arrayGet
  refine (h.arrayIndex_agrees hP h0 h1).bind ?_
  rintro ⟨v₁, i⟩ _ ⟨v₂, _⟩ _ ⟨hv, rfl, -, rfl, rfl⟩
  refine (h.field_agrees hv i).bind ?_
  rintro u₁ _ u₂ _ ⟨hu, rfl, rfl⟩
  exact h.ret_lands hP hc.frame_le (by rw [recordSize] at hctx; omega) hu hT

lemma arraySet_lands (hP : P.Plain) (h : Together P w c c.liveEnd m₁ m₂) (hc : c.Settled)
    (h0 : recordSize + 0 < c.frameEnd) (h1 : recordSize + 1 < c.frameEnd)
    (h2 : ∀ length k, (m₁.argument 0).tag.arrayLength? = some length →
      P.intValue (m₁.argument 1) = .ok k → CoreNatives.wrapIndex k < length →
      recordSize + 2 < c.frameEnd)
    (hT : T → w.same = true ∨ (m₁.thread.registers.cell (c.frame + 1)).tag = P.intClass) :
    Agrees (fun _ s₁ _ s₂ => Lands T P w.same s₁ s₂)
      (CoreNatives.arraySet P r₁ m₁) (CoreNatives.arraySet P r₂ m₂) := by
  have hctx := hc.context_le
  unfold CoreNatives.arraySet
  refine (h.arrayIndex_agrees hP h0 h1).bind ?_
  rintro ⟨v₁, i⟩ _ ⟨v₂, _⟩ _ ⟨hv, rfl, ⟨length, k, hlength, hk, hlt⟩, rfl, rfl⟩
  refine (h.arg_agrees (h2 length k hlength hk hlt)).bind ?_
  rintro u₁ _ u₂ _ ⟨-, hu, rfl, rfl⟩
  refine (h.setField_agrees hv hu i).bind ?_
  rintro _ t₁ _ t₂ ⟨hthread, w', hw', h', hu'⟩
  rw [← hw'] at hT ⊢
  refine h'.ret_lands hP hc.frame_le (by rw [recordSize] at hctx; omega) hu' ?_
  rw [hthread]
  exact hT

/-! ### Effects -/

lemma coreEnterContext_lands (hP : P.Plain) (h : Together P w c c.liveEnd m₁ m₂) (hc : c.Settled)
    (hargs : ∀ i ∈ [0, 1], recordSize + i < c.frameEnd) :
    Agrees (fun _ s₁ _ s₂ => Lands T P w.same s₁ s₂)
      (CoreNatives.enterContext P r₁ m₁) (CoreNatives.enterContext P r₂ m₂) := by
  unfold CoreNatives.enterContext
  refine (h.arg_agrees (hargs 0 (by simp))).bind ?_
  rintro _ _ _ _ ⟨-, hhandler, rfl, rfl⟩
  refine (h.arg_agrees (hargs 1 (by simp))).bind ?_
  rintro _ _ _ _ ⟨-, hbody, rfl, rfl⟩
  exact h.enterContext_lands hP hc.frame_le hhandler hbody

lemma coreTrigger_lands (hP : P.Plain) (h : Together P w c c.liveEnd m₁ m₂) (hc : c.Settled)
    (h0 : recordSize + 0 < c.frameEnd)
    (h1 : ∀ k, P.intValue (m₁.argument 0) = .ok k → ¬k < 0 → recordSize + 1 < c.frameEnd) :
    Agrees (fun _ s₁ _ s₂ => Lands T P w.same s₁ s₂)
      (CoreNatives.triggerEffect P r₁ m₁) (CoreNatives.triggerEffect P r₂ m₂) := by
  unfold CoreNatives.triggerEffect
  refine (h.intArg_agrees hP h0).bind ?_
  rintro k _ _ _ ⟨hk, rfl, rfl, rfl⟩
  dsimp only
  by_cases hneg : k < 0
  · rw [if_pos hneg]
    exact .of_error rfl rfl
  · rw [if_neg hneg]
    refine (h.arg_agrees (h1 k hk hneg)).bind ?_
    rintro _ _ _ _ ⟨-, harg, rfl, rfl⟩
    exact h.trigger_lands hP hc (Nat.le_refl _) _ harg

lemma coreAbort_lands (hP : P.Plain) (h : Together P w c c.liveEnd m₁ m₂) (hc : c.Settled)
    (h0 : recordSize + 0 < c.frameEnd)
    (hT : T → w.same = true ∨ ∀ i ∈ m₁.recordsRead P "core:fast_abort_handler",
      HoldsRecord P m₁.thread.registers i) :
    Agrees (fun _ s₁ _ s₂ => Lands T P w.same s₁ s₂)
      (CoreNatives.fastAbort P r₁ m₁) (CoreNatives.fastAbort P r₂ m₂) := by
  unfold CoreNatives.fastAbort
  refine (h.arg_agrees h0).bind ?_
  rintro _ _ _ _ ⟨-, hv, rfl, rfl⟩
  refine h.abort_lands hP hc (Nat.le_refl _) hv fun s b hshield ht => ?_
  refine (hT ht).imp_right fun hall => (hall (b + recordSize) ?_).2
  rw [show Machine.recordsRead P _ "core:fast_abort_handler" = [b + recordSize] by
    rw [Machine.recordsRead, hshield]]
  exact List.mem_singleton_self _

lemma coreFastResume_lands (hP : P.Plain) (h : Together P w c c.liveEnd m₁ m₂) (hc : c.Settled)
    (h0 : recordSize + 0 < c.frameEnd)
    (hT : T → w.same = true ∨ ∀ i ∈ m₁.recordsRead P "core:fast_resume_handler",
      HoldsRecord P m₁.thread.registers i) :
    Agrees (fun _ s₁ _ s₂ => Lands T P w.same s₁ s₂)
      (CoreNatives.fastResume P r₁ m₁) (CoreNatives.fastResume P r₂ m₂) := by
  unfold CoreNatives.fastResume
  refine (h.arg_agrees h0).bind ?_
  rintro _ _ _ _ ⟨-, hv, rfl, rfl⟩
  refine h.fastResume_lands hP hc (Nat.le_refl _) hv fun s hs ht => ?_
  refine (hT ht).imp_right fun hall => (hall (s + recordSize) ?_).2
  rw [show Machine.recordsRead P _ "core:fast_resume_handler" = [s + recordSize] by
    rw [Machine.recordsRead, hs]]
  exact List.mem_singleton_self _

lemma coreReify_lands (hP : P.Plain) (h : Together P w c c.liveEnd m₁ m₂) (hc : c.Settled)
    (h0 : recordSize + 0 < c.frameEnd)
    (hT : T → w.same = true ∨ ∀ i ∈ m₁.recordsRead P "core:reify_handler_context",
      HoldsRecord P m₁.thread.registers i) :
    Agrees (fun _ s₁ _ s₂ => Lands T P w.same s₁ s₂)
      (CoreNatives.reify P r₁ m₁) (CoreNatives.reify P r₂ m₂) := by
  unfold CoreNatives.reify
  refine (h.arg_agrees h0).bind ?_
  rintro _ _ _ _ ⟨-, hv, rfl, rfl⟩
  refine h.reify_lands hP hc hv fun s b hshield ht => ?_
  refine (hT ht).imp_right fun hall => (hall (b + bodyRecordOffset (s - b)) ?_).2
  rw [show Machine.recordsRead P _ "core:reify_handler_context" =
    [b + bodyRecordOffset (s - b)] by rw [Machine.recordsRead, hshield]]
  exact List.mem_singleton_self _

lemma coreResume_lands (hP : P.Plain) (h : Together P w c c.liveEnd m₁ m₂) (hc : c.Settled)
    (hargs : ∀ i ∈ [0, 1], recordSize + i < c.frameEnd)
    (hresumed : ∀ captured, m₁.captured? P = some captured → minCapture ≤ captured.length →
      w.same = true ∨ HoldsRecord P m₁.thread.registers m₁.thread.frame)
    (htrigger : ∀ captured, m₁.captured? P = some captured → minCapture < captured.length → T →
      w.same = true ∨ ∀ v ∈ captured.drop (captured.length - recordSize), v.tag = P.intClass) :
    Agrees (fun _ s₁ _ s₂ => Lands T P w.same s₁ s₂)
      (CoreNatives.resume P r₁ m₁) (CoreNatives.resume P r₂ m₂) := by
  have hsome : ∀ {captured : List Value},
      P.builtins.get? .continuation = some (m₁.argument 0).tag →
      m₁.captured P (m₁.argument 0) = .ok captured → m₁.captured? P = some captured := by
    intro captured hcls hcaptured
    rw [Machine.captured?, if_pos hcls, hcaptured]
    rfl
  unfold CoreNatives.resume
  refine (h.arg_agrees (hargs 0 (by simp))).bind ?_
  rintro _ _ _ _ ⟨rfl, hk, rfl, rfl⟩
  refine (h.arg_agrees (hargs 1 (by simp))).bind ?_
  rintro _ _ _ _ ⟨-, hv, rfl, rfl⟩
  refine h.resume_lands hP hc.frame_le hk hv (fun captured hcls hcaptured hlen => ?_)
    fun captured hcls hcaptured hlen ht => htrigger captured (hsome hcls hcaptured) hlen ht
  rw [← h.frame₁]
  exact (hresumed captured (hsome hcls hcaptured) hlen).imp_right And.right

/-! ### All core natives -/

/-- What a core native finds: arguments within the frame; and, unless the machines
are one and the same, records of integers, if `T` holds where that is enough. -/
structure NativeFinds (T : Prop) (P : Program) (same : Bool) (m : Machine) (name : String) :
    Prop where
  arguments : ∀ i ∈ m.argumentsRead P name, recordSize + i < m.thread.frameEnd
  records : T → same = true ∨ ∀ i ∈ m.recordsRead P name, HoldsRecord P m.thread.registers i
  resumed : name = "core:resume_handler" → ∀ captured, m.captured? P = some captured →
    minCapture ≤ captured.length → same = true ∨ HoldsRecord P m.thread.registers m.thread.frame
  trigger : name = "core:resume_handler" → ∀ captured, m.captured? P = some captured →
    minCapture < captured.length → T → same = true ∨
      ∀ v ∈ captured.drop (captured.length - recordSize), v.tag = P.intClass

/-- **Core natives keep machines in lockstep**, if they read no argument past the
registers in use; and they part only where they return to a position that is no
integer. -/
theorem core_lands (hP : P.Plain) (h : Together P w c c.liveEnd m₁ m₂) (hc : c.Settled)
    {name : String} {native : Native} (hcore : (name, native) ∈ coreNatives)
    (hfinds : NativeFinds T P w.same m₁ name) :
    Agrees (fun _ s₁ _ s₂ => Lands T P w.same s₁ s₂) (native P r₁ m₁) (native P r₂ m₂) := by
  obtain ⟨hargs, hT, hresumed, htrigger⟩ := hfinds
  rw [show m₁.thread.frameEnd = c.frameEnd from congrArg Control.frameEnd h.control₁] at hargs
  have hrecord : m₁.recordsRead P name = [m₁.thread.frame] → T → w.same = true ∨
      (m₁.thread.registers.cell (c.frame + 1)).tag = P.intClass := by
    intro heq ht
    refine (hT ht).imp_right fun hall => ?_
    rw [← h.frame₁]
    exact (hall _ (heq ▸ List.mem_singleton_self _)).2
  have hpair : m₁.argumentsRead P name = m₁.integersRead P →
      recordSize + 0 < c.frameEnd ∧
        ∀ a, P.intValue (m₁.argument 0) = .ok a → recordSize + 1 < c.frameEnd := by
    intro heq
    rw [heq, Machine.integersRead] at hargs
    refine ⟨hargs 0 (by split <;> simp), fun a ha => ?_⟩
    rw [ha] at hargs
    exact hargs 1 (by simp)
  simp only [coreNatives, List.mem_cons, Prod.mk.injEq, List.not_mem_nil, or_false] at hcore
  rcases hcore with ⟨rfl, rfl⟩ | ⟨rfl, rfl⟩ | ⟨rfl, rfl⟩ | ⟨rfl, rfl⟩ | ⟨rfl, rfl⟩ | ⟨rfl, rfl⟩ |
    ⟨rfl, rfl⟩ | ⟨rfl, rfl⟩ | ⟨rfl, rfl⟩ | ⟨rfl, rfl⟩ | ⟨rfl, rfl⟩ | ⟨rfl, rfl⟩ | ⟨rfl, rfl⟩ |
    ⟨rfl, rfl⟩ | ⟨rfl, rfl⟩ | ⟨rfl, rfl⟩
  · exact h.coreEnterContext_lands hP hc hargs
  · have hread : ∀ i ∈ m₁.triggerRead P, recordSize + i < c.frameEnd := hargs
    refine h.coreTrigger_lands hP hc (hread 0 ?_) fun k hk hneg => hread 1 ?_
    · rw [Machine.triggerRead]
      split
      · split <;> simp
      · simp
    · rw [Machine.triggerRead, hk]
      dsimp only
      rw [if_neg hneg]
      simp
  · exact h.coreAbort_lands hP hc (hargs 0 (List.mem_singleton_self 0)) hT
  · exact h.coreFastResume_lands hP hc (hargs 0 (List.mem_singleton_self 0)) hT
  · exact h.coreReify_lands hP hc (hargs 0 (List.mem_singleton_self 0)) hT
  · exact h.coreResume_lands hP hc hargs (hresumed rfl) (htrigger rfl)
  · exact h.arithmetic_lands hP hc _ (hpair rfl).1 (hpair rfl).2 (hrecord rfl)
  · exact h.arithmetic_lands hP hc _ (hpair rfl).1 (hpair rfl).2 (hrecord rfl)
  · exact h.arithmetic_lands hP hc _ (hpair rfl).1 (hpair rfl).2 (hrecord rfl)
  · exact h.arithmetic_lands hP hc _ (hpair rfl).1 (hpair rfl).2 (hrecord rfl)
  · exact h.comparison_lands hP hc _ (hpair rfl).1 (hpair rfl).2 (hrecord rfl)
  · exact h.comparison_lands hP hc _ (hpair rfl).1 (hpair rfl).2 (hrecord rfl)
  · have hread : ∀ i ∈ m₁.conditionalRead P, recordSize + i < c.frameEnd := hargs
    refine h.conditional_lands hc (hread 0 ?_) fun b hb => hread _ ?_
    · rw [Machine.conditionalRead]
      split <;> simp
    · rw [Machine.conditionalRead, hb]
      exact List.mem_cons_of_mem _ (List.mem_singleton_self _)
  · exact h.arrayLength_lands hP hc (hargs 0 (List.mem_singleton_self 0)) (hrecord rfl)
  · exact h.arrayGet_lands hP hc (hargs 0 List.mem_cons_self)
      (hargs 1 (List.mem_cons_of_mem _ (List.mem_singleton_self 1))) (hrecord rfl)
  · have hread : ∀ i ∈ m₁.elementRead P, recordSize + i < c.frameEnd := hargs
    have hboth : ∀ i ∈ [0, 1], i ∈ m₁.elementRead P := by
      intro i hi
      rw [Machine.elementRead]
      split
      · split
        · exact List.mem_append_left [2] hi
        · exact hi
      · exact hi
    refine h.arraySet_lands hP hc (hread 0 (hboth 0 (by simp))) (hread 1 (hboth 1 (by simp)))
      (fun length k hlength hk hlt => hread 2 ?_) (hrecord rfl)
    rw [Machine.elementRead, hlength, hk]
    dsimp only
    rw [if_pos hlt]
    simp

end Together

end EffectMachine
