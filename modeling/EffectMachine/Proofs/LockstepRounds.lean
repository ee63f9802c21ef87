/-
Rounds keep machines in lockstep.

* `Together.store_lands`, `Together.pushRecord_lands`, `Together.create_lands`:
  the instructions that are more than one operation;
* `Together.execute_lands`, `Together.dispatchOnce_lands`: instructions and
  dispatches;
* `InStep`, `advance_agrees`: **a round keeps machines in lockstep**, if it stays
  within its frame and returns to integers only;
* `InStep.start`: machines at the start of a program are in lockstep.
-/
import EffectMachine.Proofs.LockstepNatives

namespace EffectMachine

namespace Together

variable {P : Program} {w : World} {c : Control} {n : Nat} {m₁ m₂ : Machine} {T : Prop}

/-! ### Instructions -/

/-- The end of the frame is set. -/
lemma resize_agrees (h : Together P w c n m₁ m₂) (frameEnd : Nat) :
    Agrees (fun _ s₁ _ s₂ => Together P w { c with frameEnd } n s₁ s₂)
      (Machine.updateThread (fun t => { t with frameEnd }) m₁)
      (Machine.updateThread (fun t => { t with frameEnd }) m₂) :=
  h.withThread (by rw [← h.control₁]; rfl) (by rw [← h.control₂]; rfl) rfl rfl h.value

lemma store_lands (hP : P.Plain) (h : Together P w c c.liveEnd m₁ m₂) (hc : c.Settled) (r : Nat) :
    Agrees (fun _ s₁ _ s₂ => Lands T P w.same s₁ s₂)
      (Machine.store r m₁) (Machine.store r m₂) := by
  have hend := hc.frameEnd
  have hctx := hc.context
  unfold Machine.store
  refine h.frame_agrees.bind ?_
  rintro _ _ _ _ ⟨rfl, rfl, rfl, rfl⟩
  refine h.frameEnd_agrees.bind ?_
  rintro _ _ _ _ ⟨rfl, rfl, rfl, rfl⟩
  dsimp only
  by_cases hr : c.frameEnd ≤ r
  · -- the registers passed over are unset, so the extent grows without a gap
    rw [if_pos hr]
    refine (h.clear_agrees hP (Nat.le_refl _)).bind ?_
    intro _ s₁ _ s₂ h₁
    refine (h₁.resize_agrees (r + 1)).bind ?_
    intro _ t₁ _ t₂ h₂
    refine h₂.value_agrees.bind ?_
    rintro _ _ _ _ ⟨hv, rfl, rfl⟩
    refine (h₂.setRegister_agrees (Nat.le_max_right _ _) hv).mono ?_
    intro _ u₁ _ u₂ h₃
    refine h₃.lands ?_ ⟨Nat.le_trans hend (Nat.le_succ_of_le hr), ?_⟩
    · rw [Control.liveEnd]
      dsimp only
      omega
    · rw [Control.liveEnd] at hctx ⊢
      dsimp only
      omega
  · rw [if_neg hr]
    refine h.value_agrees.bind ?_
    rintro _ _ _ _ ⟨hv, rfl, rfl⟩
    refine (h.setRegister_agrees (by rw [Control.liveEnd]; omega) hv).mono ?_
    intro _ s₁ _ s₂ h₁
    exact h₁.lands (Nat.le_max_left _ _) hc

/-- Opening a frame. -/
lemma pushRecord_lands (hP : P.Plain) (h : Together P w c c.liveEnd m₁ m₂) (hc : c.Settled)
    (base : Nat) :
    Agrees (fun _ s₁ _ s₂ => Lands T P w.same s₁ s₂)
      (Machine.pushRecord P base m₁) (Machine.pushRecord P base m₂) := by
  have hctx := hc.context
  unfold Machine.pushRecord
  refine h.frame_agrees.bind ?_
  rintro _ _ _ _ ⟨rfl, rfl, rfl, rfl⟩
  refine h.frameEnd_agrees.bind ?_
  rintro _ _ _ _ ⟨rfl, rfl, rfl, rfl⟩
  refine (h.clear_agrees hP (Nat.le_refl _)).bind ?_
  intro _ s₁ _ s₂ h₁
  refine (h₁.setRegister_agrees (Nat.le_max_right _ _) (w.pairs_int hP _)).bind ?_
  intro _ t₁ _ t₂ h₂
  refine h₂.pos_agrees.bind ?_
  rintro _ _ _ _ ⟨rfl, rfl, rfl, rfl⟩
  refine (h₂.setRegister_agrees (Nat.le_max_right _ _) (w.pairs_int hP _)).bind ?_
  intro _ u₁ _ u₂ h₃
  have h₄ : Together P w { c with
      frame := c.frame + base, frameEnd := max (c.frameEnd - base) recordSize } _
      ⟨u₁.image, { u₁.thread with
        frame := c.frame + base, frameEnd := max (u₁.thread.frameEnd - base) recordSize },
        u₁.transfer⟩
      ⟨u₂.image, { u₂.thread with
        frame := c.frame + base, frameEnd := max (u₂.thread.frameEnd - base) recordSize },
        u₂.transfer⟩ :=
    h₃.withThread (by rw [← h₃.control₁]; rfl) (by rw [← h₃.control₂]; rfl) rfl rfl h₃.value
  refine h₄.lands ?_ ⟨Nat.le_max_right _ _, ?_⟩
  · rw [Control.liveEnd, Control.liveEnd]
    rw [recordSize] at *
    dsimp only
    omega
  · rw [Control.liveEnd] at hctx ⊢
    rw [recordSize] at *
    dsimp only
    omega

/-- The registers that become the fields of a new object. If it has none, no
register is read. -/
lemma fields_agrees (h : Together P w c c.liveEnd m₁ m₂) {base count : Nat}
    (hn : count = 0 ∨ base + count ≤ c.frameEnd) :
    Agrees (fun a₁ s₁ a₂ s₂ => List.Forall₂ (w.Pairs P) a₁ a₂ ∧ s₁ = m₁ ∧ s₂ = m₂)
      (Machine.query (·.thread.registers.slice (c.frame + base) count) m₁)
      (Machine.query (·.thread.registers.slice (c.frame + base) count) m₂) := by
  rcases hn with rfl | hn
  · have hslice : ∀ m : Machine,
        Machine.query (·.thread.registers.slice (c.frame + base) 0) m =
          if c.frame + base ≤ m.thread.registers.size then .ok [] m
          else .error .stackOverflow m := by
      intro m
      rw [Machine.query, Registers.slice, Nat.add_zero]
      by_cases hfit : c.frame + base ≤ m.thread.registers.size
      · rw [if_pos hfit, if_pos hfit, Array.extract_eq_empty_of_le (by omega)]
      · rw [if_neg hfit, if_neg hfit]
    rw [hslice, hslice]
    split
    · split
      · exact ⟨.nil, rfl, rfl⟩
      · exact .of_starved_right rfl _
    · exact .of_starved_left rfl _
  · refine (h.slice_agrees (by rw [Control.liveEnd]; omega)).mono ?_
    rintro _ _ _ _ ⟨-, rest⟩
    exact rest

lemma create_lands (h : Together P w c c.liveEnd m₁ m₂) (hc : c.Settled) {cls : ClassId}
    {base : Nat} (hcls : cls ≠ .forwarded)
    (hbase : P.fieldCount cls = 0 ∨ base + P.fieldCount cls ≤ c.frameEnd) :
    Agrees (fun _ s₁ _ s₂ => Lands T P w.same s₁ s₂)
      (Machine.create P cls base m₁) (Machine.create P cls base m₂) := by
  unfold Machine.create
  refine h.frame_agrees.bind ?_
  rintro _ _ _ _ ⟨rfl, rfl, rfl, rfl⟩
  refine (h.fields_agrees hbase).bind ?_
  rintro fields₁ _ fields₂ _ ⟨hfields, rfl, rfl⟩
  refine (h.alloc_agrees hfields fun _ => hcls).bind ?_
  rintro v₁ s₁ v₂ s₂ ⟨w', hw', h', hv, -⟩
  refine (h'.setValue_agrees hv).mono ?_
  rintro _ t₁ _ t₂ ⟨-, h''⟩
  rw [← hw']
  exact h''.lands (Nat.le_refl _) hc

lemma execute_lands (hP : P.Plain) (h : Together P w c c.liveEnd m₁ m₂) (hc : c.Settled)
    (hload : ∀ r, Instruction.decode P.code c.pos.toNat = .ok (.load r) → r.toNat < c.frameEnd)
    (hcreate : ∀ cls base, Instruction.decode P.code c.pos.toNat = .ok (.create cls base) →
      cls ≠ .forwarded ∧ (P.fieldCount cls = 0 ∨ base.toNat + P.fieldCount cls ≤ c.frameEnd))
    (hT : Instruction.decode P.code c.pos.toNat = .ok .ret → T → w.same = true ∨
      (m₁.thread.registers.cell (c.frame + 1)).tag = P.intClass) :
    Agrees (fun call₁ s₁ call₂ s₂ => call₁ = call₂ ∧ Lands T P w.same s₁ s₂)
      (Machine.execute P m₁) (Machine.execute P m₂) := by
  unfold Machine.execute
  refine h.pos_agrees.bind ?_
  rintro _ _ _ _ ⟨rfl, rfl, rfl, rfl⟩
  refine (ofExcept_agrees _ ?_).bind ?_
  · intro e he
    cases hdecode : Instruction.decode P.code c.pos.toNat with
    | ok i => rw [hdecode] at he; cases he
    | error d => rw [hdecode] at he; cases he; rfl
  rintro i _ _ _ ⟨hi, rfl, rfl, rfl⟩
  have hdecode : Instruction.decode P.code c.pos.toNat = .ok i := mapError_eq_ok hi
  refine h.frame_agrees.bind ?_
  rintro _ _ _ _ ⟨rfl, rfl, rfl, rfl⟩
  refine h.frameEnd_agrees.bind ?_
  rintro _ _ _ _ ⟨rfl, rfl, rfl, rfl⟩
  refine h.context_agrees.bind ?_
  rintro _ _ _ _ ⟨rfl, rfl, rfl, rfl⟩
  refine h.value_agrees.bind ?_
  rintro v₁ _ v₂ _ ⟨hv, rfl, rfl⟩
  refine (h.record_agrees fun hs => by rw [hv.1 hs]).bind ?_
  rintro _ s₁ _ s₂ ⟨hthread, h₁⟩
  refine (h₁.jump_agrees _).bind ?_
  rintro _ t₁ _ t₂ ⟨hregisters, h₂⟩
  have hc₂ : Control.Settled { c with pos := c.pos + UInt32.ofNat i.size } := ⟨hc.1, hc.2⟩
  cases i with
  | load r =>
      refine h₂.frame_agrees.bind ?_
      rintro _ _ _ _ ⟨rfl, rfl, rfl, rfl⟩
      refine (h₂.register_agrees ?_).bind ?_
      · exact Nat.add_lt_add_left (hload r hdecode) _
      rintro _ _ _ _ ⟨-, hu, rfl, rfl⟩
      refine (h₂.setValue_agrees hu).bind ?_
      rintro _ _ _ _ ⟨-, h₃⟩
      exact ⟨rfl, h₃.lands (Nat.le_refl _) hc₂⟩
  | store r =>
      refine (h₂.store_lands (T := T) hP hc₂ _).bind ?_
      intro _ _ _ _ hland
      exact ⟨rfl, hland⟩
  | natural k =>
      refine (h₂.setValue_agrees (w.pairs_int hP k)).bind ?_
      rintro _ _ _ _ ⟨-, h₃⟩
      exact ⟨rfl, h₃.lands (Nat.le_refl _) hc₂⟩
  | globalLoad g =>
      refine (h₂.global_agrees g).bind ?_
      rintro _ _ _ _ ⟨hu, rfl, rfl⟩
      refine (h₂.setValue_agrees hu).bind ?_
      rintro _ _ _ _ ⟨-, h₃⟩
      exact ⟨rfl, h₃.lands (Nat.le_refl _) hc₂⟩
  | globalStore g =>
      refine h₂.value_agrees.bind ?_
      rintro _ _ _ _ ⟨hu, rfl, rfl⟩
      refine (h₂.setGlobal_agrees g hu).bind ?_
      rintro _ _ _ _ ⟨w', hw', h₃⟩
      rw [← hw']
      exact ⟨rfl, h₃.lands (Nat.le_refl _) hc₂⟩
  | create cls base =>
      obtain ⟨hcls, hbase⟩ := hcreate cls base hdecode
      refine (h₂.create_lands (T := T) hc₂ hcls hbase).bind ?_
      intro _ _ _ _ hland
      exact ⟨rfl, hland⟩
  | field k =>
      refine h₂.value_agrees.bind ?_
      rintro _ _ _ _ ⟨hu, rfl, rfl⟩
      refine (h₂.field_agrees hu _).bind ?_
      rintro _ _ _ _ ⟨hx, rfl, rfl⟩
      refine (h₂.setValue_agrees hx).bind ?_
      rintro _ _ _ _ ⟨-, h₃⟩
      exact ⟨rfl, h₃.lands (Nat.le_refl _) hc₂⟩
  | ret =>
      have hctx := hc.context_le
      refine (h₂.returnValue_lands (T := T) hP hc.frame_le (show c.context < c.liveEnd by
        rw [recordSize] at hctx; omega) ?_).bind ?_
      · rw [hregisters, hthread]
        exact hT hdecode
      · intro _ _ _ _ hland
        exact ⟨rfl, hland⟩
  | call method base =>
      dsimp only
      by_cases hone : base = 1
      · rw [if_pos hone]
        exact .of_error rfl rfl
      rw [if_neg hone]
      by_cases hzero : base ≠ 0
      · rw [if_pos hzero]
        refine (h₂.pushRecord_lands (T := T) hP hc₂ _).bind ?_
        intro _ _ _ _ hland
        exact ⟨rfl, hland⟩
      · rw [if_neg hzero]
        exact ⟨rfl, h₂.lands (Nat.le_refl _) hc₂⟩

/-! ### Dispatch -/

lemma runNative_lands (hP : P.Plain) (h : Together P w c c.liveEnd m₁ m₂) (hc : c.Settled)
    {natives : Natives} {index : UInt32} {name : String} {native : Native}
    (hnative : natives.entries[index.toNat]? = some (name, native))
    (hcore : (name, native) ∈ coreNatives) {r₁ r₂ : Value} (hr : w.Pairs P r₁ r₂)
    (hfinds : NativeFinds T P w.same m₁ name) :
    Agrees (fun call₁ s₁ call₂ s₂ => call₁ = call₂ ∧ Lands T P w.same s₁ s₂)
      (Machine.runNative P natives index r₁ m₁) (Machine.runNative P natives index r₂ m₂) := by
  rw [Machine.runNative_eq hnative, Machine.runNative_eq hnative]
  have h₁ : Together P w { c with transfer := none } c.liveEnd
      (m₁.readied (.native name r₁)) (m₂.readied (.native name r₂)) := by
    refine ⟨fun hs => ?_, by rw [← h.control₁]; rfl, by rw [← h.control₂]; rfl,
      ⟨h.image₁.heap, h.image₁.globals⟩, ⟨h.image₂.heap, h.image₂.globals⟩, h.value, h.size₁,
      h.size₂, h.registers⟩
    rw [h.same hs, hr.1 hs]
  have hnext : Agrees (fun _ s₁ _ s₂ => Lands T P w.same s₁ s₂)
      (native P r₁ (m₁.readied (.native name r₁)))
      (native P r₂ (m₂.readied (.native name r₂))) := h₁.core_lands hP ⟨hc.1, hc.2⟩ hcore
    ⟨hfinds.arguments, hfinds.records, hfinds.resumed, hfinds.trigger⟩
  revert hnext
  cases native P r₁ (m₁.readied (.native name r₁)) with
  | error e₁ s₁ =>
      cases native P r₂ (m₂.readied (.native name r₂)) with
      | error e₂ s₂ => exact id
      | ok a₂ s₂ => exact fun hnext => .of_starved_left hnext _
  | ok a₁ s₁ =>
      cases native P r₂ (m₂.readied (.native name r₂)) with
      | error e₂ s₂ => exact fun hnext => .of_starved_right hnext _
      | ok a₂ s₂ =>
          rintro ⟨htransfer, hland⟩
          have hcleared : Lands T P w.same { s₁ with transfer := none }
              { s₂ with transfer := none } := by
            refine ⟨rfl, fun ht => ?_⟩
            obtain ⟨w', c', hw', hc', h'⟩ := hland ht
            refine ⟨w', { c' with transfer := none }, hw', ⟨hc'.1, hc'.2⟩, fun hs => ?_,
              by rw [← h'.control₁]; rfl, by rw [← h'.control₂]; rfl, h'.image₁, h'.image₂,
              h'.value, h'.size₁, h'.size₂, h'.registers⟩
            rw [h'.same hs]
          dsimp only
          rw [← htransfer]
          cases s₁.transfer with
          | none => exact .of_error rfl rfl
          | some how =>
              cases how with
              | returned => exact ⟨rfl, hcleared⟩
              | call method => exact ⟨rfl, hcleared⟩

lemma dispatchOnce_lands (hP : P.Plain) (h : Together P w c c.liveEnd m₁ m₂) (hc : c.Settled)
    {natives : Natives}
    (hcore : ∀ (index : Nat) x, natives.entries[index]? = some x → x ∈ coreNatives) (method : MethodId)
    (hfinds : ∀ name native,
      Config.native? P natives ⟨some method, m₁⟩ = some (name, native) →
        NativeFinds T P w.same m₁ name) :
    Agrees (fun call₁ s₁ call₂ s₂ => call₁ = call₂ ∧ Lands T P w.same s₁ s₂)
      (Machine.dispatchOnce P natives method m₁) (Machine.dispatchOnce P natives method m₂) := by
  rw [Machine.dispatchOnce_eq, Machine.dispatchOnce_eq, ← (h.alike h.value).1]
  cases hfound : P.dispatch m₁.thread.value.tag method with
  | none => exact .of_error rfl rfl
  | some found =>
      dsimp only
      cases hkind : found.kind with
      | standard =>
          refine ⟨rfl, ((h.jump_agrees found.entry).2.lands (Nat.le_refl _) ⟨hc.1, hc.2⟩)⟩
      | handler => exact .of_error rfl rfl
      | external =>
          dsimp only
          cases hentry : natives.entries[found.entry.toNat]? with
          | none =>
              rw [Machine.runNative_missing hentry, Machine.runNative_missing hentry]
              exact .of_error rfl rfl
          | some x =>
              obtain ⟨name, native⟩ := x
              refine h.runNative_lands hP hc hentry (hcore _ _ hentry) h.value
                (hfinds name native ?_)
              simp only [Config.native?, Option.bind_eq_bind, Option.bind_some, hfound, hkind,
                if_true, hentry]

end Together

/-! ### Rounds -/

/-- The configurations are in lockstep; `same` says whether they are one and the
same. -/
def InStep (P : Program) (same : Bool) (c₁ c₂ : Config) : Prop :=
  c₁.call = c₂.call ∧ ∃ w c, w.same = same ∧ c.Settled ∧
    Together P w c c.liveEnd c₁.machine c₂.machine

/-- **A round keeps machines in lockstep**, if it stays within its frame; and it
returns to integers only, or the machines are one and the same. -/
theorem advance_agrees {P : Program} {natives : Natives} {same : Bool} {c₁ c₂ : Config}
    (hP : P.Plain) (hcore : ∀ (index : Nat) x, natives.entries[index]? = some x → x ∈ coreNatives)
    (h : InStep P same c₁ c₂) (hframe : c₁.InFrame P natives)
    (hrecords : same = true ∨ c₁.RecordsHoldInts P natives) :
    Agrees (fun call₁ s₁ call₂ s₂ => InStep P same ⟨call₁, s₁⟩ ⟨call₂, s₂⟩)
      (c₁.advance P natives) (c₂.advance P natives) := by
  obtain ⟨call, m₁⟩ := c₁
  obtain ⟨_, m₂⟩ := c₂
  obtain ⟨rfl, w, c, rfl, hc, h⟩ := h
  dsimp only at h
  -- what has been returned to is an integer if the round succeeds
  let T : Prop := ∃ next s, Config.advance P natives ⟨call, m₁⟩ = .ok next s
  suffices hland : Agrees (fun call₁ s₁ call₂ s₂ => call₁ = call₂ ∧ Lands T P w.same s₁ s₂)
      (Config.advance P natives ⟨call, m₁⟩) (Config.advance P natives ⟨call, m₂⟩) by
    refine hland.with_eq.mono ?_
    rintro next s₁ _ s₂ ⟨hok, rfl, -, hland⟩
    exact ⟨rfl, hland ⟨next, s₁, hok⟩⟩
  cases call with
  | none =>
      have hpos : m₁.thread.pos = c.pos := congrArg Control.pos h.control₁
      have hend : m₁.thread.frameEnd = c.frameEnd := congrArg Control.frameEnd h.control₁
      have hinstruction : ∀ {i : Instruction}, Instruction.decode P.code c.pos.toNat = .ok i →
          Config.instruction? P ⟨none, m₁⟩ = some i := by
        intro i hi
        rw [Config.instruction?]
        dsimp only
        rw [hpos, hi]
        rfl
      refine h.execute_lands hP hc (fun r hr => ?_) (fun cls base hb => ?_) fun hret ht => ?_
      · rw [← hend]
        exact hframe.load r (hinstruction hr)
      · rw [← hend]
        exact hframe.create cls base (hinstruction hb)
      · obtain ⟨next, s, hok⟩ := ht
        refine hrecords.imp_right fun hints => ?_
        rw [← h.frame₁]
        exact (hints.instruction (hinstruction hret) next s hok).2
  | some method =>
      refine h.dispatchOnce_lands hP hc hcore method fun name native hnative => ?_
      refine ⟨hframe.native name native hnative, ?_, ?_, ?_⟩
      · rintro ⟨next, s, hok⟩
        exact hrecords.imp_right fun hints => hints.native name native hnative next s hok
      · rintro rfl captured hcaptured hlen
        exact hrecords.imp_right fun hints => hints.resumed native hnative captured hcaptured hlen
      · rintro rfl captured hcaptured hlen ⟨next, s, hok⟩
        exact hrecords.imp_right fun hints =>
          hints.trigger native hnative captured hcaptured hlen next s hok

/-- Machines at the start of a program are in lockstep. -/
lemma InStep.start {P : Program} (hP : P.Plain) {options₁ options₂ : Options}
    (hwords₁ : options₁.heapWords ≤ 2 ^ 32) (hwords₂ : options₂.heapWords ≤ 2 ^ 32)
    {natives₁ natives₂ : Natives} {m₁ m₂ : Machine} (h₁ : Starts P options₁ natives₁ m₁)
    (h₂ : Starts P options₂ natives₂ m₂) {same : Bool} (hsame : same = true → m₁ = m₂) :
    InStep P same ⟨none, m₁⟩ ⟨none, m₂⟩ := by
  obtain ⟨hsize₁, journal₁, himage₁, htransfer₁, hthread₁⟩ := h₁.eq
  obtain ⟨hsize₂, journal₂, himage₂, htransfer₂, hthread₂⟩ := h₂.eq
  let w : World := ⟨[], List.replicate P.globalCount.toNat (.inline .nil), [], [], fun _ => none,
    fun _ => none, same⟩
  have hcell : ∀ {size i : Nat}, i < 2 * recordSize → 2 * recordSize ≤ size →
      ((Cells.fresh size).overwrite 0
        [P.int 0, .nil, P.int 0, ⟨P.intClass, Thread.halt⟩]).cell i =
        ([P.int 0, .nil, P.int 0, ⟨P.intClass, Thread.halt⟩][i]?).getD .nil := by
    intro size i hi hsize
    rw [recordSize] at *
    rw [Cells.cell_overwrite, if_pos ⟨Nat.zero_le i, by simp only [List.length]; omega, by
      rw [Cells.size_fresh]; omega⟩, Nat.sub_zero]
  refine ⟨rfl, w, ⟨0, recordSize, recordSize, 0, none⟩, rfl, ⟨Nat.le_refl _, .inl rfl⟩, hsame,
    ?_, ?_, ?_, ?_, ?_, ?_, ?_, ?_⟩
  · rw [Machine.control, hthread₁, htransfer₁]
  · rw [Machine.control, hthread₂, htransfer₂]
  · rw [himage₁]
    exact .fresh hP.empty hwords₁ journal₁
  · rw [himage₂]
    exact .fresh hP.empty hwords₂ journal₂
  · rw [hthread₁, hthread₂]
    exact w.pairs_empty hP 0
  · rw [hthread₁, Cells.size_overwrite, Cells.size_fresh]
    exact hsize₁
  · rw [hthread₂, Cells.size_overwrite, Cells.size_fresh]
    exact hsize₂
  · intro i hi
    rw [hthread₁, hthread₂, hcell hi hsize₁, hcell hi hsize₂]
    have hi' : i = 0 ∨ i = 1 ∨ i = 2 ∨ i = 3 := by
      rw [Control.liveEnd, recordSize] at hi
      dsimp only at hi
      omega
    rcases hi' with rfl | rfl | rfl | rfl
    · exact w.pairs_int hP 0
    · exact w.pairs_empty hP 0
    · exact w.pairs_int hP 0
    · exact w.pairs_inline hP.int hP.int_ne

end EffectMachine
