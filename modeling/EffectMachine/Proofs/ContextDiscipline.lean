/-
The discipline of contexts.

A program writes registers of its own frames as it likes, return records included,
and yet the records of its thread stay what effect handlers rely on.

* `Context.Sighted`: no walk along the records fails on a record, and no handler
  that is found is shielded;
* `Config.ResumesWhole`: what a round resumes has been captured by an earlier one;
* `contexts_disciplined`: **in every configuration of a run, records are well
  formed and shields nested**.
-/
import EffectMachine.Proofs.RunChecks
import EffectMachine.Proofs.ShieldedRounds

namespace EffectMachine

/-! ### Walks that do not fail -/

namespace Context

/-- No walk from the register fails on a record, and an effect is handled by a
record over which no shield lies. -/
structure Sighted (P : Program) (rs : Registers) (ctx : Nat) (chain : List Nat) : Prop where
  unwind : ∀ frame, ∃ c, Context.unwind P rs frame ctx = .ok c ∧ (c = 0 ∨ c ∈ chain)
  synthetic : Context.synthetic P rs ctx = .error .notInHandler ∨
    ∃ s ∈ chain, Context.synthetic P rs ctx = .ok s ∧ Synthetic rs s ∧
      handling rs s = .ok (served rs s)
  handler : ∀ method, Context.handler P rs method ctx = .error (.unhandledEffect method) ∨
    ∃ c ∈ chain, Context.handler P rs method ctx = .ok c ∧ ¬ Synthetic rs c ∧
      ∀ s ∈ chain, Synthetic rs s → s < c ∨ c < served rs s

end Context

namespace Context.Chain

variable {P : Program} {rs : Registers} {ctx : Nat} {es : List Record}

/-- Walks along a chain whose shields are nested do not fail on a record. -/
lemma sighted (h : Chain P rs ctx es) (hn : Nested es) :
    Sighted P rs ctx (es.map Record.pos) where
  unwind frame := by
    obtain ⟨c, front, back, rfl, hc, hback, -⟩ := h.exists_unwind frame
    refine ⟨c, hc, ?_⟩
    cases back with
    | nil => exact .inl (hback.eq_zero_iff.mpr rfl)
    | cons e back =>
        rw [hback.uncons.1]
        exact .inr (List.mem_map.mpr ⟨e, List.mem_append_right front List.mem_cons_self, rfl⟩)
  synthetic := by
    refine h.exists_synthetic.imp_right ?_
    rintro ⟨front, s, c, back, rfl, hs⟩
    have hmem : ⟨s, some c⟩ ∈ front ++ ⟨s, some c⟩ :: back :=
      List.mem_append_right front List.mem_cons_self
    obtain ⟨htag, hhandling⟩ := (h.held hmem).synthetic c rfl
    rw [Option.some.inj ((h.held hmem).serves_eq htag)] at hhandling
    exact ⟨s, List.mem_map.mpr ⟨_, hmem, rfl⟩, hs, htag, hhandling⟩
  handler method := by
    refine (h.exists_handler hn method).imp_right ?_
    rintro ⟨c, hc, hmem, hapart⟩
    refine ⟨c, List.mem_map.mpr ⟨_, hmem, rfl⟩, hc, (h.held hmem).plain rfl, fun s hs hsyn => ?_⟩
    obtain ⟨d, hd, rfl⟩ := List.mem_map.mp hs
    exact hapart d hd _ ((h.held hd).serves_eq hsyn)

end Context.Chain

/-! ### Runs -/

/-- If the next round resumes a continuation, an earlier one has made it: its
words are the registers captured then, from the record served up to the end of
the handler's return record, except for where objects lie. No record stood where
resuming replaces the return record of the handled computation, unless it is the
synthetic one, which that return record then lies above. -/
def Config.ResumesWhole (P : Program) (natives : Natives) (past : List Config) (c : Config) :
    Prop :=
  ∀ native, c.native? P natives = some ("core:resume_handler", native) →
    ∀ words, c.machine.captured? P = some words →
      ∃ d ∈ past, (∃ native', d.native? P natives =
          some ("core:reify_handler_context", native')) ∧
        ∃ s b vs, d.machine.shield P = .ok (s, b) ∧
          d.machine.thread.registers.slice b (s + 4 - b) = .ok vs ∧
          List.Forall₂ (Value.Alike P) vs words ∧
          ∀ chain, Context.Links P d.machine.thread.registers d.machine.thread.context chain →
            ∀ r ∈ chain, (r = b + 2 → r = s) ∧ r ≠ b + 3

lemma Starts.shielded {P : Program} {options : Options} {natives : Natives} {m : Machine}
    (h : Starts P options natives m) (hregisters : options.registers ≤ 2 ^ 31) :
    m.Shielded P [] := by
  obtain ⟨-, journal, -, -, hthread⟩ := h.eq
  refine ⟨?_, .nil, .inl ?_, ?_, ?_⟩ <;> rw [hthread]
  · exact .nil
  · rw [Cells.size_overwrite, Cells.size_fresh]
    exact hregisters

namespace Trail

variable {P : Program} {natives : Natives} {m₀ : Machine} {past : List Config} {c : Config}

lemma shielded (hint : P.fieldCount P.intClass = 0) (hempty : P.fieldCount .empty = 0)
    {options : Options} (hregisters : options.registers ≤ 2 ^ 31)
    (hstart : Starts P options natives m₀) (ht : Trail P natives m₀ past c)
    (hpast : ∀ c' past', c' :: past' <:+ past →
      c'.ReturnsAbove P natives ∧ c'.ResumesWhole P natives past') :
    ∀ c' ∈ c :: past, ∃ es, c'.machine.Shielded P es := by
  induction ht with
  | start =>
      intro c' hc'
      cases List.mem_singleton.mp hc'
      exact ⟨[], hstart.shielded hregisters⟩
  | @round past c call m _ hadvance ih =>
      have hall := ih fun c' past' hsuffix =>
        hpast c' past' (hsuffix.trans (List.suffix_cons c past))
      intro c' hc'
      rcases List.mem_cons.mp hc' with rfl | hc'
      · obtain ⟨habove, hwhole⟩ := hpast c past List.suffix_rfl
        obtain ⟨es, h⟩ := hall c List.mem_cons_self
        refine h.advance hint hempty (fun _ _ => hstart.mem_coreNatives) habove ?_ hadvance
        -- what is resumed has been captured in a configuration whose records are nested
        intro native hnative words hwords
        obtain ⟨d, hd, -, s, b, vs, hshield, hslice, halike, hclear⟩ :=
          hwhole native hnative words hwords
        obtain ⟨ds, h'⟩ := hall d (List.mem_cons_of_mem _ hd)
        refine ⟨d.machine, ds, s, b, h', hshield, ⟨vs, hslice, halike⟩, fun e he => ?_⟩
        exact hclear _ h'.chain.links e.pos (List.mem_map.mpr ⟨e, he, rfl⟩)
      · exact hall c' hc'

end Trail

/-! ### Tests -/

/-- The records that back-links lead through, at most `fuel` of them. -/
def Context.recordsFrom (P : Program) (rs : Registers) : (fuel : Nat) → Nat → List Nat
  | 0, _ => []
  | fuel + 1, ctx =>
    match parent P rs ctx with
    | .ok p => ctx :: recordsFrom P rs fuel p
    | .error _ => []

/-- Links go down, so there are no more records than registers below. -/
lemma Context.Links.eq_recordsFrom {P : Program} {rs : Registers} {ctx fuel : Nat}
    {chain : List Nat} (h : Links P rs ctx chain) (hfuel : ctx ≤ fuel) :
    chain = recordsFrom P rs fuel ctx := by
  induction h generalizing fuel with
  | nil =>
      cases fuel with
      | zero => rfl
      | succ fuel =>
          rw [recordsFrom]
          split
          · rename_i p hp
            have hlt := parent_lt hp
            omega
          · rfl
  | @cons r p chain hp _ ih =>
      have hlt := parent_lt hp
      cases fuel with
      | zero => omega
      | succ fuel =>
          rw [recordsFrom, hp]
          exact congrArg (r :: ·) (ih (by omega))

namespace Config

instance (P : Program) (v w : Value) : Decidable (v.Alike P w) :=
  inferInstanceAs (Decidable (_ ∧ (_ → _)))

/-- Whether the next round leads to no frame below the first one. -/
def staysAbove (P : Program) (natives : Natives) (c : Config) : Bool :=
  match c.advance P natives with
  | .ok none m => recordSize ≤ m.thread.frame
  | _ => true

lemma ReturnsAbove.of_staysAbove {P : Program} {natives : Natives} {c : Config}
    (h : c.staysAbove P natives = true) : c.ReturnsAbove P natives := by
  intro m hadvance _
  rw [staysAbove, hadvance] at h
  exact of_decide_eq_true h

/-- Whether the next round makes a continuation out of registers alike to the
words, without a record that resuming it would replace. -/
def captures (P : Program) (natives : Natives) (words : List Value) (d : Config) : Bool :=
  (d.native? P natives).any (·.1 = "core:reify_handler_context") &&
  match d.machine.shield P with
  | .error _ => false
  | .ok (s, b) =>
    (match d.machine.thread.registers.slice b (s + 4 - b) with
    | .error _ => false
    | .ok vs => vs.length = words.length && (vs.zip words).all fun x => x.1.Alike P x.2) &&
    (Context.recordsFrom P d.machine.thread.registers d.machine.thread.context
      d.machine.thread.context).all fun r => (r ≠ b + 2 || r = s) && r ≠ b + 3

/-- Whether what the next round resumes has been captured. -/
def resumesCaptured (P : Program) (natives : Natives) (past : List Config) (c : Config) : Bool :=
  (c.native? P natives).all fun (x : String × Native) =>
    x.1 ≠ "core:resume_handler" || (c.machine.captured? P).all fun words =>
      past.any fun d => d.captures P natives words

lemma ResumesWhole.of_resumesCaptured {P : Program} {natives : Natives} {past : List Config}
    {c : Config} (h : c.resumesCaptured P natives past = true) :
    c.ResumesWhole P natives past := by
  intro native hnative words hwords
  rw [resumesCaptured, hnative, Option.all_some, hwords, Option.all_some] at h
  simp only [ne_eq, not_true, decide_false, Bool.false_or, List.any_eq_true] at h
  obtain ⟨d, hd, hcaptures⟩ := h
  rw [captures, Bool.and_eq_true, Option.any_eq_true] at hcaptures
  obtain ⟨⟨⟨name, native'⟩, hnative', hname⟩, hcaptures⟩ := hcaptures
  cases of_decide_eq_true hname
  refine ⟨d, hd, ⟨native', hnative'⟩, ?_⟩
  split at hcaptures
  · cases hcaptures
  · rename_i s b hshield
    rw [Bool.and_eq_true] at hcaptures
    obtain ⟨hwhole, hclear⟩ := hcaptures
    split at hwhole
    · cases hwhole
    · rename_i vs hslice
      simp only [Bool.and_eq_true, decide_eq_true_eq, List.all_eq_true] at hwhole
      refine ⟨s, b, vs, hshield, hslice, ?_, fun chain hlinks r hr => ?_⟩
      · exact List.forall₂_iff_zip.mpr ⟨hwhole.1, fun hx => hwhole.2 _ hx⟩
      · rw [hlinks.eq_recordsFrom (Nat.le_refl _)] at hr
        have hr := List.all_eq_true.mp hclear r hr
        simp only [Bool.and_eq_true, Bool.or_eq_true, decide_eq_true_eq] at hr
        exact ⟨fun heq => hr.1.resolve_left (not_not.mpr heq), hr.2⟩

end Config

/-! ### The discipline -/

/-- **Contexts are disciplined.** In every configuration that a run comes through,
the records below the frame are well formed, their shields are nested, and walks
along them do not fail. The run may write any register of its frames, but it
returns to no frame below the first one, and resumes continuations as they were
made. Links are integers of the machine, so registers are numbered below their
bound. -/
theorem contexts_disciplined {P : Program} (hP : P.Linked)
    (hint : P.fieldCount P.intClass = 0) {options : Options}
    (hregisters : options.registers ≤ 2 ^ 31) {natives : Natives} {m₀ : Machine}
    (hstart : Starts P options natives m₀) {past : List Config} {c : Config}
    (ht : Trail P natives m₀ past c)
    (hpast : ∀ c' past', c' :: past' <:+ past →
      c'.ReturnsAbove P natives ∧ c'.ResumesWhole P natives past') :
    (c.machine.thread.context = 0 ∨ c.machine.thread.context + 2 ≤ c.machine.thread.frame) ∧
    ∃ chain, Context.WellFormed P c.machine.thread.registers c.machine.thread.context chain ∧
      Context.Sighted P c.machine.thread.registers c.machine.thread.context chain := by
  obtain ⟨es, h⟩ := ht.shielded hint hP.empty hregisters hstart hpast c List.mem_cons_self
  exact ⟨h.context, _, h.chain.wellFormed h.nested, h.chain.sighted h.nested⟩

/-- A handler that answers an effect through a continuation, in a heap that has to
be collected on the way: its records are well formed all along, also while the
handler runs above the record that it serves. -/
theorem contexts_disciplined_reply :
    (∃ m, Machine.run replyProgram replyNatives 60 (replyStart ⟨12, 24⟩) =
      .ok (some (replyProgram.int 40)) m ∧ m.image.heap.stats.collections = 1) ∧
    (∃ past c, Trail replyProgram replyNatives (replyStart ⟨12, 24⟩) past c ∧
      c.machine.shield replyProgram = .ok (8, 4)) ∧
    ∀ past c, Trail replyProgram replyNatives (replyStart ⟨12, 24⟩) past c →
      (c.machine.thread.context = 0 ∨ c.machine.thread.context + 2 ≤ c.machine.thread.frame) ∧
      ∃ chain, Context.WellFormed replyProgram c.machine.thread.registers
          c.machine.thread.context chain ∧
        Context.Sighted replyProgram c.machine.thread.registers
          c.machine.thread.context chain := by
  have hcheck : Config.checkRun replyProgram replyNatives
      (fun past c => c.staysAbove replyProgram replyNatives &&
        c.resumesCaptured replyProgram replyNatives past) 60 []
      ⟨none, replyStart ⟨12, 24⟩⟩ = true := by decide +kernel
  have hend : Machine.gives (Machine.run replyProgram replyNatives 60 (replyStart ⟨12, 24⟩))
      (some (replyProgram.int 40)) (·.image.heap.stats.collections = 1) = true := by
    decide +kernel
  have hhandling : ((Config.follow replyProgram replyNatives 20 ⟨none, replyStart ⟨12, 24⟩⟩).any
      fun c => c.machine.shield replyProgram = .ok (8, 4)) = true := by
    decide +kernel
  refine ⟨?_, ?_, fun past c ht => ?_⟩
  · obtain ⟨m, hrun, hcollections⟩ := Machine.exists_of_gives hend
    exact ⟨m, hrun, of_decide_eq_true hcollections⟩
  · obtain ⟨c, hfollow, hshield⟩ := Option.any_eq_true _ _ |>.mp hhandling
    obtain ⟨past, ht⟩ := Trail.start.exists_of_follow hfollow
    exact ⟨past, c, ht, of_decide_eq_true hshield⟩
  · refine contexts_disciplined linked_reply (by decide) (by decide)
      (starts_reply ⟨12, 24⟩ (by decide)) ht fun c' past' hsuffix => ?_
    have htest := (ht.of_suffix hsuffix).of_checkRun hcheck
    rw [Bool.and_eq_true] at htest
    exact ⟨.of_staysAbove htest.1, .of_resumesCaptured htest.2⟩

end EffectMachine
