/-
Returns and effects keep machines in lockstep.

A native ends by handing control on, and only a return goes on at a code
position that was read from a register. If that register does not hold an
integer, it may hold a place of the heap, and then the machines part.

* `Lands`: control has been handed on alike, and the machines are in lockstep if
  the position returned to can be trusted;
* `Together.unwind_agrees`, `Together.synthetic_agrees` and so on: walks along
  context records end alike;
* `Together.returnValue_lands`, `Together.tailCall_lands`: returns and calls;
* `Together.enterContext_lands`, `Together.trigger_lands`,
  `Together.fastResume_lands`, `Together.abort_lands`, `Together.reify_lands`,
  `Together.resume_lands`: **effects keep machines in lockstep**.
-/
import EffectMachine.Proofs.Lockstep
import EffectMachine.Proofs.Runs

namespace EffectMachine

/-- Control has been handed on alike; and if `T` holds, the machines are in
lockstep. -/
def Lands (T : Prop) (P : Program) (same : Bool) (s₁ s₂ : Machine) : Prop :=
  s₁.transfer = s₂.transfer ∧
    (T → ∃ w c, w.same = same ∧ c.Settled ∧ Together P w c c.liveEnd s₁ s₂)

/-! ### Walks never follow references -/

namespace Context

variable {P : Program} {rs : Registers} {ctx : Nat} {e : Fault}

lemma readInt_error (h : readInt P rs ctx = .error e) : e.dangling = false := by
  rw [readInt, Registers.get] at h
  split at h
  · rename_i he
    split at he
    · cases he
    · cases he
      cases h
      rfl
  · split at h
    · cases h
    · cases h
      rfl

lemma parent_error (h : parent P rs ctx = .error e) : e.dangling = false := by
  rw [parent] at h
  split at h
  · rename_i he
    cases h
    exact readInt_error he
  · split at h
    · cases h
    · cases h
      rfl

lemma handling_error (h : handling rs ctx = .error e) : e.dangling = false := by
  rw [handling, Registers.get] at h
  split at h
  · rename_i he
    split at he
    · cases he
    · cases he
      cases h
      rfl
  · dsimp only at h
    split at h
    · cases h
    · cases h
      rfl

lemma unwind_error {frame : Nat} (h : unwind P rs frame ctx = .error e) : e.dangling = false := by
  induction ctx using Nat.strong_induction_on with
  | _ ctx ih =>
      rw [unwind_eq] at h
      split at h
      · cases h
      · cases hp : parent P rs ctx with
        | error e' =>
            rw [hp] at h
            cases h
            exact parent_error hp
        | ok p =>
            rw [hp] at h
            exact ih p (parent_lt hp) h

lemma synthetic_error (h : synthetic P rs ctx = .error e) : e.dangling = false := by
  induction ctx using Nat.strong_induction_on with
  | _ ctx ih =>
      rw [synthetic_eq, Registers.get] at h
      split at h
      · cases h
        rfl
      · split at h
        · dsimp only [Except.bind] at h
          split at h
          · cases h
          · cases hp : parent P rs ctx with
            | error e' =>
                rw [hp] at h
                cases h
                exact parent_error hp
            | ok p =>
                rw [hp] at h
                exact ih p (parent_lt hp) h
        · cases h
          rfl

lemma handler_error {method : MethodId} (h : Context.handler P rs method ctx = .error e) :
    e.dangling = false := by
  induction ctx using Nat.strong_induction_on with
  | _ ctx ih =>
      have hnext : ∀ {b : Nat}, b ≤ ctx →
          (parent P rs b).bind (Context.handler P rs method) = .error e → e.dangling = false := by
        intro b hb h
        cases hp : parent P rs b with
        | error e' =>
            rw [hp] at h
            cases h
            exact parent_error hp
        | ok p =>
            rw [hp] at h
            exact ih p (Nat.lt_of_lt_of_le (parent_lt hp) hb) h
      rw [handler_eq, Registers.get] at h
      split at h
      · cases h
        rfl
      · split at h
        · dsimp only [Except.bind] at h
          split at h
          · cases hc : handling rs ctx with
            | error e' =>
                rw [hc] at h
                cases h
                exact handling_error hc
            | ok b =>
                rw [hc] at h
                exact hnext (Nat.le_of_lt (handling_lt hc)) h
          · split at h
            · cases h
            · exact hnext (Nat.le_refl ctx) h
        · cases h
          rfl

end Context

namespace Together

variable {P : Program} {w : World} {c : Control} {n : Nat} {m₁ m₂ : Machine} {T : Prop}

/-- Machines in lockstep have landed. -/
lemma lands (h : Together P w c n m₁ m₂) (hn : c.liveEnd ≤ n) (hc : c.Settled) :
    Lands T P w.same m₁ m₂ := by
  refine ⟨?_, fun _ => ⟨w, c, rfl, hc, h.mono hn⟩⟩
  exact (congrArg Control.transfer h.control₁).trans (congrArg Control.transfer h.control₂).symm

/-! ### Walks along context records -/

lemma unwind_agrees (hP : P.Plain) (h : Together P w c n m₁ m₂) (caller : Nat)
    (hctx : c.context < n) :
    Agrees (fun a₁ s₁ a₂ s₂ => (a₁ = 0 ∨ a₁ + recordSize ≤ caller) ∧ a₁ = a₂ ∧ s₁ = m₁ ∧ s₂ = m₂)
      (Machine.query (fun m => Context.unwind P m.thread.registers caller m.thread.context) m₁)
      (Machine.query (fun m => Context.unwind P m.thread.registers caller m.thread.context)
        m₂) := by
  have heq := Context.unwind_congr hP.int h.alikeRegisters caller hctx
  rw [← h.context₁] at heq
  refine (query_agrees rfl ?_ fun e he => Context.unwind_error he).mono ?_
  · rw [heq, h.context₂, h.context₁]
  · rintro _ _ _ _ ⟨ha, rest⟩
    exact ⟨(Context.unwind_spec ha).2, rest⟩

lemma synthetic_agrees (hP : P.Plain) (h : Together P w c n m₁ m₂)
    (hctx : c.context + recordSize ≤ n) :
    Agrees (fun a₁ s₁ a₂ s₂ =>
        Context.synthetic P m₁.thread.registers m₁.thread.context = .ok a₁ ∧ 0 < a₁ ∧
        a₁ ≤ c.context ∧ (m₁.thread.registers.cell (a₁ + 1)).tag = .empty ∧ a₁ = a₂ ∧ s₁ = m₁ ∧
        s₂ = m₂)
      (Machine.innermostSynthetic P m₁) (Machine.innermostSynthetic P m₂) := by
  have heq := Context.synthetic_congr hP.int h.alikeRegisters
    (Nat.lt_of_succ_le hctx : c.context + 1 < n)
  refine (query_agrees rfl ?_ fun e he => Context.synthetic_error he).mono ?_
  · rw [h.context₁, heq, h.context₂]
  · rintro _ _ _ _ ⟨ha, rest⟩
    obtain ⟨hpos, hle, -, htag⟩ := Context.synthetic_spec ha
    rw [h.context₁] at hle
    exact ⟨ha, hpos, hle, htag, rest⟩

lemma handling_agrees (hP : P.Plain) (h : Together P w c n m₁ m₂) {s : Nat}
    (hs : s + recordSize ≤ n) (htag : (m₁.thread.registers.cell (s + 1)).tag = .empty) :
    Agrees (fun a₁ s₁ a₂ s₂ => Context.handling m₁.thread.registers s = .ok a₁ ∧
        a₁ + recordSize ≤ s ∧ a₁ = a₂ ∧ s₁ = m₁ ∧ s₂ = m₂)
      (Machine.handlingContext s m₁) (Machine.handlingContext s m₂) := by
  have heq := Context.handling_congr hP.empty h.alikeRegisters (Nat.lt_of_succ_le hs) htag
  refine (query_agrees rfl heq.symm fun e he => Context.handling_error he).mono ?_
  rintro _ _ _ _ ⟨ha, rest⟩
  exact ⟨ha, (Context.handling_spec ha).2, rest⟩

lemma handler_agrees (hP : P.Plain) (h : Together P w c n m₁ m₂) (method : MethodId)
    (hctx : c.context + recordSize ≤ n) :
    Agrees (fun a₁ s₁ a₂ s₂ => a₁ ≤ c.context ∧ a₁ = a₂ ∧ s₁ = m₁ ∧ s₂ = m₂)
      (Machine.query (fun m => Context.handler P m.thread.registers method m.thread.context) m₁)
      (Machine.query (fun m => Context.handler P m.thread.registers method m.thread.context)
        m₂) := by
  have heq := Context.handler_congr hP.int hP.empty h.alikeRegisters method
    (Nat.lt_of_succ_le hctx : c.context + 1 < n)
  refine (query_agrees rfl ?_ fun e he => Context.handler_error he).mono ?_
  · rw [h.context₁, heq, h.context₂]
  · rintro _ _ _ _ ⟨ha, rest⟩
    have hle := (Context.handler_spec ha).2.1
    rw [h.context₁] at hle
    exact ⟨hle, rest⟩

/-! ### Returning -/

/-- Leaving a frame through its return record. The code position returned to is
the same if the machines are, or if the record holds an integer. -/
lemma returnValue_lands (hP : P.Plain) (h : Together P w c n m₁ m₂)
    (hframe : c.frame + recordSize ≤ n) (hctx : c.context < n)
    (hT : T → w.same = true ∨ (m₁.thread.registers.cell (c.frame + 1)).tag = P.intClass) :
    Agrees (fun _ s₁ _ s₂ => Lands T P w.same s₁ s₂)
      (Machine.returnValue P m₁) (Machine.returnValue P m₂) := by
  rw [recordSize] at hframe
  unfold Machine.returnValue
  refine h.frame_agrees.bind ?_
  rintro _ _ _ _ ⟨rfl, rfl, rfl, rfl⟩
  refine (h.readInt_agrees hP (by omega)).bind ?_
  rintro depth _ _ _ ⟨rfl, rfl, rfl⟩
  refine (h.register_agrees (by omega)).bind ?_
  rintro target₁ _ target₂ _ ⟨htarget, hpairs, rfl, rfl⟩
  dsimp only
  split
  · rename_i hdepth
    refine (h.unwind_agrees hP _ hctx).bind ?_
    rintro context s₁ _ s₂ ⟨hcontext, rfl, rfl, rfl⟩
    refine ⟨?_, fun ht => ?_⟩
    · exact (congrArg Control.transfer h.control₁).trans
        (congrArg Control.transfer h.control₂).symm
    · have heq : target₁ = target₂ := by
        rcases hT ht with hs | htag
        · exact hpairs.1 hs
        · rw [← htarget] at htag
          exact (h.alike hpairs).2 (htag ▸ hP.int)
      subst heq
      refine ⟨w, ⟨target₁.data, c.frame - depth.toInt.toNat, max depth.toInt.toNat recordSize,
        context, c.transfer⟩, rfl, ⟨Nat.le_max_right _ _, ?_⟩, Together.mono (n := n) ?_ ?_⟩
      · -- a record that ends below the caller's frame ends below its return record
        rw [Control.liveEnd, recordSize] at *
        dsimp only
        omega
      · exact h.withThread (by rw [← h.control₁]; rfl) (by rw [← h.control₂]; rfl) rfl rfl h.value
      · rw [Control.liveEnd, recordSize]
        dsimp only
        omega
  · exact .throw rfl

/-- Returning a value from a native. -/
lemma ret_lands (hP : P.Plain) (h : Together P w c n m₁ m₂) (hframe : c.frame + recordSize ≤ n)
    (hctx : c.context < n) {v₁ v₂ : Value} (hv : w.Pairs P v₁ v₂)
    (hT : T → w.same = true ∨ (m₁.thread.registers.cell (c.frame + 1)).tag = P.intClass) :
    Agrees (fun _ s₁ _ s₂ => Lands T P w.same s₁ s₂)
      (Machine.ret P v₁ m₁) (Machine.ret P v₂ m₂) := by
  unfold Machine.ret
  refine (h.claim_agrees _).bind ?_
  rintro _ s₁ _ s₂ ⟨hthread, h₁⟩
  refine (h₁.setValue_agrees hv).bind ?_
  rintro _ t₁ _ t₂ ⟨hregisters, h₂⟩
  refine h₂.returnValue_lands hP hframe hctx ?_
  rw [hregisters, hthread]
  exact hT

/-- Calling a method in place of a native. -/
lemma tailCall_lands (h : Together P w c n m₁ m₂) (hc : c.Settled) (hn : n = c.liveEnd)
    {v₁ v₂ : Value} (hv : w.Pairs P v₁ v₂) (method : MethodId) :
    Agrees (fun _ s₁ _ s₂ => Lands T P w.same s₁ s₂)
      (Machine.tailCall v₁ method [] m₁) (Machine.tailCall v₂ method [] m₂) := by
  subst hn
  have hframe := hc.frame_le
  unfold Machine.tailCall
  refine (h.claim_agrees _).bind ?_
  rintro _ s₁ _ s₂ ⟨-, h₁⟩
  refine h₁.frame_agrees.bind ?_
  rintro _ _ _ _ ⟨rfl, rfl, rfl, rfl⟩
  refine (h₁.write_agrees hframe .nil).bind ?_
  intro _ t₁ _ t₂ h₂
  have hend : ∀ {m : Machine} {v : Value}, m.control = { c with transfer := some (.call method) } →
      Machine.control ⟨m.image, { m.thread with
        frameEnd := max m.thread.frameEnd (recordSize + ([] : List Value).length), value := v },
        m.transfer⟩ = { c with transfer := some (.call method) } := by
    intro m v hm
    have hm' : m.thread.frameEnd = c.frameEnd := congrArg Control.frameEnd hm
    have hmax : max m.thread.frameEnd (recordSize + ([] : List Value).length) =
        m.thread.frameEnd := Nat.max_eq_left (hm' ▸ hc.frameEnd)
    rw [← hm, hmax]
    rfl
  exact (h₂.withThread (hend h₂.control₁) (hend h₂.control₂) rfl rfl hv).lands
    (Nat.le_max_left _ _) ⟨hc.frameEnd, hc.context⟩

/-! ### Entering a context and triggering -/

/-- A frame is opened, with a value in the value register. -/
lemma open_agrees (h : Together P w c n m₁ m₂) {v₁ v₂ : Value} (hv : w.Pairs P v₁ v₂)
    (context frame frameEnd : Nat) :
    Agrees (fun _ s₁ _ s₂ => Together P w { c with context, frame, frameEnd } n s₁ s₂)
      (Machine.updateThread (fun t => { t with context, frame, frameEnd, value := v₁ }) m₁)
      (Machine.updateThread (fun t => { t with context, frame, frameEnd, value := v₂ }) m₂) :=
  h.withThread (by rw [← h.control₁]; rfl) (by rw [← h.control₂]; rfl) rfl rfl hv

/-- A return record moves up by one record. -/
lemma shiftRecord_agrees (hP : P.Plain) (h : Together P w c n m₁ m₂)
    (hframe : c.frame + recordSize ≤ n) :
    Agrees (fun _ s₁ _ s₂ => Together P w c (max n (c.frame + 2 * recordSize)) s₁ s₂)
      (Machine.shiftRecord P c.frame m₁) (Machine.shiftRecord P c.frame m₂) := by
  rw [recordSize] at hframe
  unfold Machine.shiftRecord
  refine (h.readInt_agrees hP (by omega)).bind ?_
  rintro depth _ _ _ ⟨rfl, rfl, rfl⟩
  refine (h.register_agrees (by omega)).bind ?_
  rintro target₁ _ target₂ _ ⟨-, htarget, rfl, rfl⟩
  refine (h.setRegister_agrees hframe (w.pairs_int hP _)).bind ?_
  intro _ s₁ _ s₂ h₁
  refine (h₁.setRegister_agrees (by rw [recordSize]; omega) htarget).mono ?_
  intro _ t₁ _ t₂ h₂
  refine h₂.mono ?_
  rw [recordSize]
  omega

lemma enterContext_lands (hP : P.Plain) (h : Together P w c n m₁ m₂)
    (hframe : c.frame + recordSize ≤ n) {handler₁ handler₂ body₁ body₂ : Value}
    (hhandler : w.Pairs P handler₁ handler₂) (hbody : w.Pairs P body₁ body₂) :
    Agrees (fun _ s₁ _ s₂ => Lands T P w.same s₁ s₂)
      (Machine.enterContext P handler₁ body₁ m₁) (Machine.enterContext P handler₂ body₂ m₂) := by
  have htag := (h.alike hhandler).1
  unfold Machine.enterContext
  by_cases hempty : handler₁.tag = .empty
  · rw [if_pos hempty, if_pos (htag ▸ hempty)]
    exact .of_error rfl rfl
  rw [if_neg hempty, if_neg (htag ▸ hempty)]
  refine (h.claim_agrees _).bind ?_
  rintro _ s₁ _ s₂ ⟨-, h₁⟩
  refine h₁.frame_agrees.bind ?_
  rintro _ _ _ _ ⟨rfl, rfl, rfl, rfl⟩
  refine (h₁.shiftRecord_agrees hP hframe).bind ?_
  intro _ t₁ _ t₂ h₂
  refine h₂.context_agrees.bind ?_
  rintro _ _ _ _ ⟨rfl, rfl, rfl, rfl⟩
  rw [recordSize] at hframe
  refine (h₂.setRegister_agrees (by dsimp only; omega) (w.pairs_int hP _)).bind ?_
  intro _ u₁ _ u₂ h₃
  refine (h₃.setRegister_agrees (by dsimp only; omega) hhandler).bind ?_
  intro _ x₁ _ x₂ h₄
  refine (h₄.open_agrees hbody _ _ _).bind ?_
  intro _ y₁ _ y₂ h₅
  refine (h₅.record_agrees fun hs => by rw [hhandler.1 hs]).mono ?_
  rintro _ z₁ _ z₂ ⟨-, h₆⟩
  refine h₆.lands ?_ ⟨Nat.le_refl _, .inr ?_⟩
  · rw [Control.liveEnd, recordSize]
    dsimp only
    omega
  · rw [Control.liveEnd, recordSize]
    dsimp only
    omega

lemma trigger_lands (hP : P.Plain) (h : Together P w c n m₁ m₂) (hc : c.Settled)
    (hn : c.liveEnd ≤ n) (method : MethodId) {arg₁ arg₂ : Value} (harg : w.Pairs P arg₁ arg₂) :
    Agrees (fun _ s₁ _ s₂ => Lands T P w.same s₁ s₂)
      (Machine.trigger P method arg₁ m₁) (Machine.trigger P method arg₂ m₂) := by
  have hframe := hc.frame_le
  have hctx := hc.context_le
  unfold Machine.trigger
  refine (h.claim_agrees _).bind ?_
  rintro _ s₁ _ s₂ ⟨-, h₁⟩
  refine (h₁.handler_agrees hP method (by dsimp only; omega)).bind ?_
  rintro handling _ _ _ ⟨hhandling, rfl, rfl, rfl⟩
  dsimp only at hhandling
  rw [recordSize] at hframe hctx
  refine (h₁.register_agrees (by omega)).bind ?_
  rintro handler₁ _ handler₂ _ ⟨-, hhandler, rfl, rfl⟩
  refine h₁.frame_agrees.bind ?_
  rintro _ _ _ _ ⟨rfl, rfl, rfl, rfl⟩
  refine (h₁.shiftRecord_agrees hP (by rw [recordSize]; dsimp only; omega)).bind ?_
  intro _ t₁ _ t₂ h₂
  refine h₂.context_agrees.bind ?_
  rintro _ _ _ _ ⟨rfl, rfl, rfl, rfl⟩
  refine (h₂.setRegister_agrees (by dsimp only; omega) (w.pairs_int hP _)).bind ?_
  intro _ u₁ _ u₂ h₃
  refine (h₃.setRegister_agrees (by dsimp only; omega) (w.pairs_empty hP _)).bind ?_
  intro _ x₁ _ x₂ h₄
  refine (h₄.setRegister_agrees (by rw [recordSize]; dsimp only; omega) harg).bind ?_
  intro _ y₁ _ y₂ h₅
  refine (h₅.open_agrees hhandler _ _ _).bind ?_
  intro _ z₁ _ z₂ h₆
  refine (h₆.record_agrees fun _ => rfl).mono ?_
  rintro _ _ _ _ ⟨-, h₇⟩
  refine h₇.lands ?_ ⟨Nat.le_add_right _ _, .inr ?_⟩
  · rw [Control.liveEnd, recordSize]
    dsimp only
    omega
  · rw [Control.liveEnd, recordSize]
    dsimp only
    omega

/-! ### Leaving a handler -/

/-- The thread goes on in another frame and context. -/
lemma refocus_agrees (h : Together P w c n m₁ m₂) (context frame : Nat) :
    Agrees (fun _ s₁ _ s₂ => s₁.thread.registers = m₁.thread.registers ∧
        Together P w { c with context, frame } n s₁ s₂)
      (Machine.updateThread (fun t => { t with context, frame }) m₁)
      (Machine.updateThread (fun t => { t with context, frame }) m₂) :=
  ⟨rfl, h.withThread (by rw [← h.control₁]; rfl) (by rw [← h.control₂]; rfl) rfl rfl h.value⟩

/-- Returning from a trigger. -/
lemma fastResume_lands (hP : P.Plain) (h : Together P w c n m₁ m₂) (hc : c.Settled)
    (hn : c.liveEnd ≤ n) {v₁ v₂ : Value} (hv : w.Pairs P v₁ v₂)
    (hT : ∀ s, Context.synthetic P m₁.thread.registers m₁.thread.context = .ok s →
      T → w.same = true ∨
        (m₁.thread.registers.cell (s + recordSize + 1)).tag = P.intClass) :
    Agrees (fun _ s₁ _ s₂ => Lands T P w.same s₁ s₂)
      (Machine.fastResume P v₁ m₁) (Machine.fastResume P v₂ m₂) := by
  have hctx := hc.context_le
  unfold Machine.fastResume
  refine (h.synthetic_agrees hP (by omega)).bind ?_
  rintro s _ _ _ ⟨hs, hpos, hle, -, rfl, rfl, rfl⟩
  refine (h.refocus_agrees _ _).bind ?_
  rintro _ t₁ _ t₂ ⟨hregisters, h₁⟩
  have hroom : s + 2 * recordSize ≤ n := by
    rcases hc.context with h0 | h0 <;> omega
  rw [recordSize] at hroom
  refine h₁.ret_lands hP (by rw [recordSize]; dsimp only; omega) (by dsimp only; omega) hv ?_
  rw [hregisters]
  exact hT s hs

/-- Returning from a context. -/
lemma abort_lands (hP : P.Plain) (h : Together P w c n m₁ m₂) (hc : c.Settled)
    (hn : c.liveEnd ≤ n) {v₁ v₂ : Value} (hv : w.Pairs P v₁ v₂)
    (hT : ∀ s b, m₁.shield P = .ok (s, b) → T → w.same = true ∨
      (m₁.thread.registers.cell (b + recordSize + 1)).tag = P.intClass) :
    Agrees (fun _ s₁ _ s₂ => Lands T P w.same s₁ s₂)
      (Machine.abort P v₁ m₁) (Machine.abort P v₂ m₂) := by
  have hctx := hc.context_le
  unfold Machine.abort
  refine (h.synthetic_agrees hP (by omega)).bind ?_
  rintro s _ _ _ ⟨hs, hpos, hle, htag, rfl, rfl, rfl⟩
  refine (h.handling_agrees hP (by omega) htag).bind ?_
  rintro b _ _ _ ⟨hb, hbs, rfl, rfl, rfl⟩
  refine (h.refocus_agrees _ _).bind ?_
  rintro _ t₁ _ t₂ ⟨hregisters, h₁⟩
  rw [recordSize] at hctx hbs
  refine h₁.ret_lands hP (by rw [recordSize]; dsimp only; omega) (by dsimp only; omega) hv ?_
  rw [hregisters]
  exact hT s b (Machine.shield_eq_ok.mpr ⟨hs, hb⟩)

/-! ### Continuations -/

/-- Setting registers does not touch what has been handed on. -/
lemma setRegister_transfer (i : Nat) (v₁ v₂ : Value) (h : m₁.transfer = m₂.transfer) :
    Agrees (fun _ s₁ _ s₂ => s₁.transfer = s₂.transfer)
      (Machine.setRegister i v₁ m₁) (Machine.setRegister i v₂ m₂) := by
  rw [Machine.setRegister_eq, Machine.setRegister_eq]
  by_cases hi₁ : i < m₁.thread.registers.size
  · by_cases hi₂ : i < m₂.thread.registers.size
    · rw [if_pos hi₁, if_pos hi₂]
      exact h
    · rw [if_neg hi₂]
      exact .of_starved_right rfl _
  · rw [if_neg hi₁]
    exact .of_starved_left rfl _

/-- A frame is opened, the value register staying as it is. -/
lemma reopen_agrees (h : Together P w c n m₁ m₂) (context frame frameEnd : Nat) :
    Agrees (fun _ s₁ _ s₂ => s₁.thread.registers = m₁.thread.registers ∧
        Together P w { c with context, frame, frameEnd } n s₁ s₂)
      (Machine.updateThread (fun t => { t with context, frame, frameEnd }) m₁)
      (Machine.updateThread (fun t => { t with context, frame, frameEnd }) m₂) :=
  ⟨rfl, h.withThread (by rw [← h.control₁]; rfl) (by rw [← h.control₂]; rfl) rfl rfl h.value⟩

lemma parent_agrees (hP : P.Plain) (h : Together P w c n m₁ m₂) {ctx : Nat} (hctx : ctx < n) :
    Agrees (fun a₁ s₁ a₂ s₂ => a₁ < ctx ∧ a₁ = a₂ ∧ s₁ = m₁ ∧ s₂ = m₂)
      (Machine.query (fun m => Context.parent P m.thread.registers ctx) m₁)
      (Machine.query (fun m => Context.parent P m.thread.registers ctx) m₂) := by
  have heq := Context.parent_congr hP.int h.alikeRegisters hctx
  refine (query_agrees rfl heq.symm fun e he => Context.parent_error he).mono ?_
  rintro _ _ _ _ ⟨ha, rest⟩
  exact ⟨Context.parent_lt ha, rest⟩

/-- The offset of the body's return record lies between the context record and
the end of the handler's return record. -/
lemma bodyRecordOffset_le {k : Nat} (hk : recordSize ≤ k) :
    recordSize ≤ bodyRecordOffset k ∧ bodyRecordOffset k ≤ k + recordSize := by
  rw [bodyRecordOffset, recordSize] at *
  split <;> omega

lemma reify_lands (hP : P.Plain) (h : Together P w c c.liveEnd m₁ m₂) (hc : c.Settled)
    {body₁ body₂ : Value} (hbody : w.Pairs P body₁ body₂)
    (hT : ∀ s b, m₁.shield P = .ok (s, b) → T → w.same = true ∨
      (m₁.thread.registers.cell (b + bodyRecordOffset (s - b) + 1)).tag = P.intClass) :
    Agrees (fun _ s₁ _ s₂ => Lands T P w.same s₁ s₂)
      (Machine.reify P body₁ m₁) (Machine.reify P body₂ m₂) := by
  have hctx := hc.context_le
  unfold Machine.reify
  refine (h.claim_agrees _).bind ?_
  rintro _ s₁ _ s₂ ⟨hthread, h₁⟩
  refine (h₁.synthetic_agrees hP hctx).bind ?_
  rintro s _ _ _ ⟨hs, hpos, hle, htag, rfl, rfl, rfl⟩
  dsimp only at hle
  refine (h₁.handling_agrees hP (by omega) htag).bind ?_
  rintro b _ _ _ ⟨hb, hbs, rfl, rfl, rfl⟩
  have hT' := hT s b (Machine.shield_eq_ok.mpr (by rw [← hthread]; exact ⟨hs, hb⟩))
  have hoffset := bodyRecordOffset_le (Nat.le_sub_of_add_le (Nat.add_comm b recordSize ▸ hbs))
  generalize bodyRecordOffset (s - b) = shift at hT' hoffset ⊢
  have hroom : s + 2 * recordSize ≤ c.liveEnd := by
    rcases hc.context with h0 | h0 <;> omega
  rw [recordSize] at hbs hoffset hroom hctx
  refine (h₁.slice_agrees (by rw [recordSize]; omega)).bind ?_
  rintro captured₁ _ captured₂ _ ⟨-, hcaptured, rfl, rfl⟩
  refine (h₁.setValue_agrees hbody).bind ?_
  rintro _ t₁ _ t₂ ⟨hregs, h₂⟩
  refine (h₂.allocArray_agrees hP hcaptured).bind ?_
  rintro array₁ u₁ array₂ u₂ ⟨w₃, hw₃, h₃, harray, htags₃⟩
  refine (ofExcept_agrees (P.builtin .continuation) ?_).bind ?_
  · intro e he
    rw [Program.builtin] at he
    split at he
    · cases he
    · cases he
      rfl
  rintro cls _ _ _ ⟨hcls, rfl, rfl, rfl⟩
  refine (h₃.alloc_agrees (.cons harray .nil) fun _ => hP.continuation hcls).bind ?_
  rintro k₁ x₁ k₂ x₂ ⟨w₄, hw₄, h₄, hk, htags₄⟩
  refine (h₄.parent_agrees hP (show b < c.liveEnd by omega)).bind ?_
  rintro parent _ _ _ ⟨hparent, rfl, rfl, rfl⟩
  refine (h₄.readInt_agrees hP (show b + shift < c.liveEnd by omega)).bind ?_
  rintro depth _ _ _ ⟨rfl, rfl, rfl⟩
  dsimp only
  by_cases hdepth : depth < Int32.ofNat shift
  · rw [if_pos hdepth, if_pos hdepth]
    exact .of_error rfl rfl
  rw [if_neg hdepth, if_neg hdepth]
  refine (h₄.register_agrees (show b + shift + 1 < c.liveEnd by omega)).bind ?_
  rintro target₁ y₁ target₂ y₂ ⟨htarget, hpairs, rfl, rfl⟩
  by_cases ht : T
  · have heq : target₁ = target₂ := by
      rcases hT' ht with hsame | hint
      · exact hpairs.1 (by rw [hw₄, hw₃, hsame])
      · refine (h₄.alike hpairs).2 ?_
        rw [htarget, htags₄ _ (show b + shift + 1 < c.liveEnd by omega),
          htags₃ _ (show b + shift + 1 < c.liveEnd by omega), hregs, hthread, hint]
        exact hP.int
    subst heq
    refine (h₄.setRegister_agrees (show b ≤ c.liveEnd by omega) (w₄.pairs_int hP _)).bind ?_
    intro _ _ _ _ h₅
    refine (h₅.setRegister_agrees (show b + 1 ≤ max c.liveEnd (b + 1) by omega)
      (w₄.pairs_int hP _)).bind ?_
    intro _ _ _ _ h₆
    refine (h₆.setRegister_agrees
      (show b + recordSize ≤ max (max c.liveEnd (b + 1)) (b + 1 + 1) by rw [recordSize]; omega)
      hk).bind ?_
    intro _ z₁ _ z₂ h₇
    refine (h₇.reopen_agrees _ _ _).bind ?_
    rintro _ _ _ _ ⟨-, h₈⟩
    refine (h₈.record_agrees fun _ => rfl).mono ?_
    rintro _ _ _ _ ⟨-, h₉⟩
    have hland : Lands T P w₄.same _ _ := h₉.lands ?_ ⟨Nat.le_add_right _ _, ?_⟩
    · rwa [hw₄, hw₃] at hland
    · rw [Control.liveEnd, recordSize]
      dsimp only
      omega
    · rw [Control.liveEnd, recordSize]
      dsimp only
      omega
  · -- the position that was read goes nowhere but into a register
    have htransfer : y₁.transfer = y₂.transfer := (congrArg Control.transfer h₄.control₁).trans
      (congrArg Control.transfer h₄.control₂).symm
    refine (setRegister_transfer _ _ _ htransfer).bind fun _ _ _ _ htransfer => ?_
    refine (setRegister_transfer _ _ _ htransfer).bind fun _ _ _ _ htransfer => ?_
    refine (setRegister_transfer _ _ _ htransfer).bind fun _ _ _ _ htransfer => ?_
    exact ⟨htransfer, fun ht' => absurd ht' ht⟩

/-- Laying a continuation back onto the registers. The position to which its
computation will return goes into a register at once, so it has to be an
integer in any case. -/
lemma resume_lands (hP : P.Plain) (h : Together P w c n m₁ m₂) (hframe : c.frame + recordSize ≤ n)
    {k₁ k₂ v₁ v₂ : Value} (hk : w.Pairs P k₁ k₂) (hv : w.Pairs P v₁ v₂)
    (hrecord : ∀ captured, P.builtins.get? .continuation = some k₁.tag →
      m₁.captured P k₁ = .ok captured → minCapture ≤ captured.length →
      w.same = true ∨ (m₁.thread.registers.cell (c.frame + 1)).tag = P.intClass)
    (hT : ∀ captured, P.builtins.get? .continuation = some k₁.tag →
      m₁.captured P k₁ = .ok captured → minCapture < captured.length → T →
      w.same = true ∨ ∀ v ∈ captured.drop (captured.length - recordSize), v.tag = P.intClass) :
    Agrees (fun _ s₁ _ s₂ => Lands T P w.same s₁ s₂)
      (Machine.resume P k₁ v₁ m₁) (Machine.resume P k₂ v₂ m₂) := by
  have htag := (h.alike hk).1
  unfold Machine.resume
  dsimp only
  by_cases hcls : P.builtins.get? .continuation = some k₁.tag
  swap
  · rw [if_neg hcls, if_neg (htag ▸ hcls)]
    exact .of_error rfl rfl
  rw [if_pos hcls, if_pos (htag ▸ hcls)]
  refine (h.elements_agrees hk 0).bind ?_
  rintro captured₁ _ captured₂ _ ⟨hpairs, hcaptured, rfl, rfl⟩
  have hlen : captured₁.length = captured₂.length := hpairs.length_eq
  by_cases hshort : captured₁.length < minCapture
  · rw [if_pos hshort, if_pos (hlen ▸ hshort), hlen]
    exact .of_error rfl rfl
  rw [if_neg hshort, if_neg (hlen ▸ hshort), ← hlen]
  have hrecord' := hrecord captured₁ hcls hcaptured (Nat.le_of_not_lt hshort)
  have hT' := hT captured₁ hcls hcaptured
  rw [minCapture, recordSize] at hshort
  rw [recordSize] at hframe
  refine h.frame_agrees.bind ?_
  rintro _ _ _ _ ⟨rfl, rfl, rfl, rfl⟩
  refine (h.readInt_agrees hP (by omega)).bind ?_
  rintro depth _ _ _ ⟨rfl, rfl, rfl⟩
  refine (h.register_agrees (by omega)).bind ?_
  rintro target₁ _ target₂ _ ⟨htarget, htpairs, rfl, rfl⟩
  have heq : target₁ = target₂ := by
    rcases hrecord' with hsame | hint
    · exact htpairs.1 hsame
    · refine (h.alike htpairs).2 ?_
      rw [htarget, hint]
      exact hP.int
  subst heq
  generalize hoff : captured₁.length - 2 * recordSize = off
  rw [recordSize] at hoff
  have hoffset := bodyRecordOffset_le (show recordSize ≤ off by rw [recordSize]; omega)
  have hbody : bodyRecordOffset off = if off = 2 then 4 else 2 := rfl
  rw [recordSize] at hoffset
  refine (h.write_agrees (by omega) hpairs).with_eq.bind ?_
  rintro _ s₁ _ s₂ ⟨hs₁, h₁⟩
  refine h₁.context_agrees.bind ?_
  rintro _ _ _ _ ⟨rfl, rfl, rfl, rfl⟩
  refine (h₁.setRegister_agrees (by omega) (w.pairs_int hP _)).with_eq.bind ?_
  rintro _ t₁ _ t₂ ⟨ht₁, h₂⟩
  refine (h₂.setRegister_agrees (by omega) (w.pairs_int hP _)).with_eq.bind ?_
  rintro _ u₁ _ u₂ ⟨hu₁, h₃⟩
  refine (h₃.setRegister_agrees (by omega) (w.pairs_int hP _)).with_eq.bind ?_
  rintro _ x₁ _ x₂ ⟨hx₁, h₄⟩
  refine (h₄.reopen_agrees _ _ _).bind ?_
  rintro _ y₁ _ y₂ ⟨hy₁, h₅⟩
  refine (h₅.record_agrees fun _ => rfl).bind ?_
  rintro _ z₁ _ z₂ ⟨hz₁, h₆⟩
  refine h₆.ret_lands hP (by rw [recordSize]; dsimp only; omega) (by dsimp only; omega) hv ?_
  intro ht
  -- the last register laid back, unless the position to return to has replaced it
  obtain ⟨hx, rfl⟩ := Machine.setRegister_eq_ok.mp hx₁
  obtain ⟨hu, rfl⟩ := Machine.setRegister_eq_ok.mp hu₁
  obtain ⟨-, rfl⟩ := Machine.setRegister_eq_ok.mp ht₁
  rw [hz₁, hy₁]
  simp only [Machine.registers_withRegisters, Cells.cell_setIfInBounds,
    Array.size_setIfInBounds] at hx hu ⊢
  rw [recordSize]
  by_cases hoff2 : off = 2
  · rw [if_pos hoff2] at hbody
    rw [if_pos ⟨by omega, hx⟩]
    exact .inr rfl
  · rw [if_neg hoff2] at hbody
    rcases hT' (by rw [minCapture, recordSize]; omega) ht with hsame | hint
    · exact .inl hsame
    right
    rw [if_neg (by omega), if_neg (by omega), if_neg (by omega)]
    rw [Machine.onRegisters_write] at hs₁
    split at hs₁
    · rename_i hfit
      cases hs₁
      have hlast : c.frame + off + 2 + 1 - c.frame < captured₁.length := by omega
      rw [Machine.registers_withRegisters, Cells.cell_overwrite,
        if_pos ⟨by omega, by omega, by omega⟩, List.getElem?_eq_getElem hlast]
      refine hint _ ?_
      rw [List.mem_drop_iff_getElem]
      exact ⟨1, by rw [recordSize]; omega, by congr 1; rw [recordSize]; omega⟩
    · cases hs₁

end Together

end EffectMachine
