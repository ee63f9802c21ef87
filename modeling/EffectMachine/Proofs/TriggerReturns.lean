/-
Returning to a trigger.

A handler that is deeper down may return to its trigger at once, past all calls and contexts
that it has opened since. The return record of the handler is looked for right above the
synthetic record. A context that is entered in the last call of the handler moves it away.

* `Machine.Stacked.lifted_of_frame`: a call that stands right above a record has laid it last;
* `fastResume_returns_to_trigger`: **returning to a trigger from anywhere is the return of the
  handler itself**, if its return record has not been moved;
* `relayProgram`: a handler that opens a context before it returns to its trigger;
* `fastResume_loses_return_record`: it does not come back, if it does so in its last call.
-/
import EffectMachine.Proofs.HandlerExits

namespace EffectMachine

namespace Machine.Stacked

variable {P : Program} {m : Machine} {a : Activation} {as : List Activation}

/-- The innermost call, if it stands right above a record that an earlier one covers, is that
call with one record more. -/
lemma lifted_of_frame (h : m.Stacked P a as) {b : Activation} {bs : List Activation}
    (hcovers : Activation.Covers (a :: as) b bs) (hframe : m.thread.frame = b.frame + recordSize) :
    a = { b with lifts := b.lifts + 1 } ∧ as = bs := by
  obtain ⟨above, n, hsplit, hn⟩ := hcovers
  rw [h.frame] at hframe
  have hstack := h.stack
  cases above with
  | nil =>
      cases hsplit
      rw [Activation.frame, Activation.frame, recordSize] at hframe
      dsimp only at hframe
      exact ⟨by rw [show n = b.lifts + 1 by omega], rfl⟩
  | cons e above =>
      -- a call further up would stand above the return record of the one that it covers
      cases hsplit
      have hapart := hstack.apart (List.mem_cons_self (a := a) (l := above))
      have hbase : a.base ≤ a.frame := Nat.le_add_right _ _
      rw [Activation.frame, Activation.frame, recordSize] at *
      dsimp only at hapart
      omega

/-- A thread leaves its frame in one way, however its calls are told apart. -/
lemma returns_eq (h : m.Stacked P a as) {b : Activation} {bs : List Activation}
    (h' : m.Stacked P b bs) :
    a.pos = b.pos ∧ a.caller = b.caller ∧ Activation.innermost as = Activation.innermost bs := by
  have hdepth := Except.ok.inj (h.readInt.symm.trans h'.readInt)
  have hcaller : a.caller = b.caller := by
    have ha := h.caller_eq
    have hb := h'.caller_eq
    rw [hdepth] at ha
    omega
  have hpos := h.holdsReturn.target.symm.trans h'.holdsReturn.target
  have hunwind := h.unwind_caller.1
  rw [hcaller, h'.unwind_caller.1] at hunwind
  exact ⟨congrArg Value.data hpos, hcaller, (Except.ok.inj hunwind).symm⟩

end Machine.Stacked

/-- **Returning to a trigger from anywhere is the return of the handler itself**, if no context
has been entered in the last call of the handler: the thread comes to where the round that
triggered would have returned to, with the records of that round that end below that frame. A
plain return from the frame of the handler, at any time since, comes to the same place with the
same records. -/
theorem fastResume_returns_to_trigger {P : Program} (hP : P.Linked)
    (hint : P.fieldCount P.intClass = 0) {options : Options}
    (hregisters : options.registers ≤ 2 ^ 31) {natives : Natives} {m₀ : Machine}
    (hstart : Starts P options natives m₀) {past : List Config} {c : Config}
    (hcourse : Course P natives m₀ past c)
    (hpast : ∀ c' past', c' :: past' <:+ past → c'.Orderly P natives past') {q : Config}
    (hlaid : c.LaidBy P past q)
    (hsynthetic : Context.synthetic P c.machine.thread.registers c.machine.thread.context =
      .ok q.machine.thread.frame)
    (hclear : q.machine.thread.frame + 2 ∉ c.machine.records P) (v : Value) (e : Entry) :
    ∃ depth pos m',
      q.machine.thread.registers.HoldsReturn P q.machine.thread.frame depth pos ∧
      Machine.fastResume P v (c.machine.readied e) = .ok () m' ∧
      m'.thread.value = v ∧ m'.thread.pos = pos ∧
      (m'.thread.frame : Int) = q.machine.thread.frame - depth.toInt ∧
      Context.unwind P q.machine.thread.registers m'.thread.frame q.machine.thread.context =
        .ok m'.thread.context ∧
      ∀ c' past', c' :: past' <:+ c :: past → c'.LaidBy P past' q →
        c'.machine.thread.frame = q.machine.thread.frame + 2 →
        ∃ r, Machine.returnValue P c'.machine = .ok () r ∧ r.thread.pos = m'.thread.pos ∧
          r.thread.frame = m'.thread.frame ∧ r.thread.context = m'.thread.context := by
  obtain ⟨⟨as, htracks⟩, -⟩ := hcourse.exists_tracks hint hP.empty hregisters hstart hpast
  obtain ⟨a', as', a, rest, hc, hq, hcovers⟩ := htracks.exists_covers hlaid
  obtain ⟨above, hcalls⟩ := hc.exists_last_of_covers hq.frame hcovers hclear
  have hreadied : (c.machine.readied e).Stacked P a' as' := hc.of_thread rfl rfl rfl rfl
  have hrefocused := hreadied.refocus hcalls (Activation.frame_mem_lifted a)
    (Activation.frame_lifted a)
  rw [← hq.frame] at hrefocused
  obtain ⟨hret, -⟩ := hrefocused.ret rfl v
  have hresume : Machine.fastResume P v (c.machine.readied e) = .ok () _ :=
    (Machine.fastResume_eq (m := c.machine.readied e) hsynthetic v).trans hret
  refine ⟨_, _, _, hq.holdsReturn, hresume, rfl, rfl, hq.caller_eq, hq.unwind_caller.1,
    fun c' past' hsuffix hlaid' hframe => ?_⟩
  -- the handler in its own frame is the same call
  obtain ⟨hcourse', htail⟩ := hcourse.of_suffix hsuffix
  obtain ⟨⟨bs, htracks'⟩, -⟩ := hcourse'.exists_tracks hint hP.empty hregisters hstart
    fun d older hd => hpast d older (hd.trans htail)
  obtain ⟨b', bs', b, rest', hc', hq', hcovers'⟩ := htracks'.exists_covers hlaid'
  rw [hq'.frame] at hframe
  obtain ⟨rfl, rfl⟩ := hc'.lifted_of_frame hcovers' hframe
  obtain ⟨hpos, hcaller, hinnermost⟩ := hq'.returns_eq hq
  exact ⟨_, hc'.returnValue.1, hpos, hcaller, hinnermost⟩

/-! ### A handler that opens a context -/

/-- A program whose handler opens a context of its own, in its last call or not. What runs there
returns to the trigger. -/
def relayCode (last : Bool) : List Instruction :=
  -- at 0: the program
  [.create ⟨4⟩ 0, .store 4, .create ⟨5⟩ 0, .store 5, .create ⟨8⟩ 0, .call ⟨2⟩ 2, .ret,
  -- at 29: the body
    .natural 1, .store 4, .natural 7, .store 5, .create ⟨8⟩ 0, .call ⟨3⟩ 2, .ret,
  -- at 56: what runs in the context of the handler
    .natural 9, .store 4, .create ⟨8⟩ 0, .call ⟨4⟩ 2] ++
  -- at 75: the handler
  if last then
    [.create ⟨6⟩ 0, .store 2, .create ⟨7⟩ 0, .store 3, .create ⟨8⟩ 0, .call ⟨2⟩ 0]
  else
    [.create ⟨6⟩ 0, .store 6, .create ⟨7⟩ 0, .store 7, .create ⟨8⟩ 0, .call ⟨2⟩ 4, .ret]

/-- The program with its classes and methods. -/
def relayProgram (last : Bool) : Program where
  classes := #[⟨"Empty", .user, 0⟩, ⟨"ProgramInit", .user, 0⟩,
    ⟨"Continuation", .continuation, 1⟩, ⟨"Int", .int, 0⟩, ⟨"Handler", .user, 0⟩,
    ⟨"Body", .user, 0⟩, ⟨"Inner", .user, 0⟩, ⟨"Rest", .user, 0⟩, ⟨"Core", .user, 0⟩]
  methods := #[⟨"call", -4⟩, ⟨"ask", -4⟩, ⟨"enter", -6⟩, ⟨"trigger", -3⟩, ⟨"return", -4⟩]
  implementations := #[⟨⟨4⟩, ⟨1⟩, .standard, 75⟩, ⟨⟨5⟩, ⟨0⟩, .standard, 29⟩,
    ⟨⟨8⟩, ⟨2⟩, .external, 0⟩, ⟨⟨7⟩, ⟨0⟩, .standard, 56⟩, ⟨⟨8⟩, ⟨4⟩, .external, 2⟩,
    ⟨⟨8⟩, ⟨3⟩, .external, 1⟩]
  externals := #["core:enter_context", "core:trigger_effect", "core:fast_resume_handler"]
  code := ((relayCode last).flatMap Instruction.encode).toArray
  builtins := { int := ⟨3⟩, continuation := ⟨2⟩ }

/-- The natives that the program names. -/
def relayNatives : Natives :=
  ⟨#[("core:enter_context", CoreNatives.enterContext),
    ("core:trigger_effect", CoreNatives.triggerEffect),
    ("core:fast_resume_handler", CoreNatives.fastResume)]⟩

/-- The machine at the start of the program. -/
def relayStart (last : Bool) : Machine where
  image := .fresh (relayProgram last) ⟨64, 32⟩ (Journal.record {} (.loadedProgram 0 3 64))
  thread := ⟨0, 2, 2, 0, .nil, (Cells.fresh 32).overwrite 0
    [⟨⟨3⟩, 0⟩, .nil, ⟨⟨3⟩, 0⟩, ⟨⟨3⟩, Thread.halt⟩]⟩

lemma starts_relay (last : Bool) :
    Starts (relayProgram last) ⟨64, 32⟩ relayNatives (relayStart last) :=
  ⟨{}, (relayStart last).image, rfl, rfl⟩

lemma linked_relay (last : Bool) : (relayProgram last).Linked :=
  .of_all (by simp [relayProgram]) rfl fun kind => by cases last <;> cases kind <;> decide

/-- The context is not opened in the last call of the handler. From within it the thread returns
to the body, right after the trigger, and to the context that the body was in. The handler would
have come there from its own frame. -/
theorem fastResume_returns_to_trigger_relay :
    ∃ past c q c' m' r,
      Course (relayProgram false) relayNatives (relayStart false) past c ∧
      c.LaidBy (relayProgram false) past q ∧ c' ∈ past ∧
      c.machine.thread.frame = 18 ∧ c.machine.thread.context = 14 ∧
      q.machine.thread.registers.HoldsReturn (relayProgram false) 8 2 55 ∧
      Machine.fastResume (relayProgram false) .nil (c.machine.readied .registeredCore) =
        .ok () m' ∧
      m'.thread.value = .nil ∧ m'.thread.pos = 55 ∧ m'.thread.frame = 6 ∧
      m'.thread.context = 4 ∧ c'.machine.thread.frame = 10 ∧
      Machine.returnValue (relayProgram false) c'.machine = .ok () r ∧ r.thread.pos = 55 ∧
      r.thread.frame = 6 ∧ r.thread.context = 4 := by
  have htest : Config.comesTo (relayProgram false) relayNatives (fun past c =>
      (past.all (Config.orderly (relayProgram false) relayNatives)) &&
      decide (Context.synthetic (relayProgram false) c.machine.thread.registers
        c.machine.thread.context = .ok 8) &&
      decide (10 ∉ c.machine.records (relayProgram false)) &&
      decide (c.machine.thread.frame = 18 ∧ c.machine.thread.context = 14) &&
      Config.laidAt (relayProgram false) past c 13 8 &&
      ((past[13]?).all fun q =>
        decide (Context.readInt (relayProgram false) q.machine.thread.registers 8 = .ok 2) &&
        decide (q.machine.thread.registers.cell 9 = ⟨⟨3⟩, 55⟩) &&
        decide (Context.unwind (relayProgram false) q.machine.thread.registers 6
          q.machine.thread.context = .ok 4)) &&
      (past[11]?).any fun c' => decide (c'.machine.thread.frame = 10) &&
        Config.laidAt (relayProgram false) (past.drop 12) c' 1 8) 28 (relayStart false) =
      true := by decide +kernel
  obtain ⟨past, c, hcourse, htest⟩ := Course.exists_of_comesTo htest
  simp only [Bool.and_eq_true, decide_eq_true_eq] at htest
  obtain ⟨⟨⟨⟨⟨⟨horderly, hsynthetic⟩, hclear⟩, hframe, hcontext⟩, hlaid⟩, hq⟩, hc'⟩ := htest
  obtain ⟨q, hat, hlaidAt, hlaid⟩ := Config.LaidBy.of_laidAt hlaid
  rw [hat, Option.all_some, Bool.and_eq_true, Bool.and_eq_true, decide_eq_true_eq,
    decide_eq_true_eq, decide_eq_true_eq] at hq
  obtain ⟨⟨hdepth, htarget⟩, hunwind⟩ := hq
  obtain ⟨depth, pos, m', hreturn, hresume, hvalue, hpos, hframe', hcontext', hplain⟩ :=
    fastResume_returns_to_trigger (linked_relay false) rfl (by decide) (starts_relay false)
      hcourse (fun _ _ hsuffix => .of_all horderly hsuffix) hlaid (hlaidAt ▸ hsynthetic)
      (hlaidAt ▸ hclear) .nil .registeredCore
  rw [hlaidAt] at hreturn hframe'
  cases hdepth.symm.trans hreturn.depth
  cases htarget.symm.trans hreturn.target
  have hleft : m'.thread.frame = 6 := by
    rw [show (2 : Int32).toInt = 2 by decide] at hframe'
    omega
  rw [hleft, hunwind] at hcontext'
  -- the handler in its own frame
  rw [Option.any_eq_true] at hc'
  obtain ⟨c', hat', htest'⟩ := hc'
  rw [Bool.and_eq_true, decide_eq_true_eq] at htest'
  obtain ⟨hi, rfl⟩ := List.getElem?_eq_some_iff.mp hat'
  obtain ⟨q', hatq, -, hlaid'⟩ := Config.LaidBy.of_laidAt htest'.2
  rw [List.getElem?_drop, hat] at hatq
  cases hatq
  obtain ⟨r, hr, hpos', hframe'', hcontext''⟩ := hplain past[11] (past.drop 12)
    (by
      rw [← List.drop_eq_getElem_cons hi]
      exact (List.drop_suffix 11 past).trans (List.suffix_cons c past))
    hlaid' (by rw [hlaidAt]; exact htest'.1)
  exact ⟨past, c, q, past[11], m', r, hcourse, hlaid, List.getElem_mem hi, hframe, hcontext,
    hreturn, hresume, hvalue, hpos, hleft, (Except.ok.inj hcontext').symm, htest'.1, hr,
    hpos'.trans hpos, hframe''.trans hleft, hcontext''.trans (Except.ok.inj hcontext').symm⟩

/-- If the handler opens the context in its last call, its return record moves up, and the record
of the context is taken for it. The thread comes to the frame of the trigger itself, at a position
that the handler of that context stands for. -/
theorem fastResume_loses_return_record :
    ∃ past c q native m',
      Course (relayProgram true) relayNatives (relayStart true) past c ∧
      (∀ c' ∈ past, ∀ r, c'.instruction? (relayProgram true) = some (.store r) → 2 ≤ r.toNat) ∧
      c.LaidBy (relayProgram true) past q ∧
      q.native? (relayProgram true) relayNatives = some ("core:trigger_effect", native) ∧
      Context.synthetic (relayProgram true) c.machine.thread.registers c.machine.thread.context =
        .ok q.machine.thread.frame ∧
      q.machine.thread.frame = 8 ∧
      q.machine.thread.registers.HoldsReturn (relayProgram true) 8 2 55 ∧
      Machine.fastResume (relayProgram true) .nil (c.machine.readied .registeredCore) =
        .ok () m' ∧
      m'.thread.pos = 0 ∧ m'.thread.frame = 8 := by
  have htest : Config.comesTo (relayProgram true) relayNatives (fun past c =>
      decide (Context.synthetic (relayProgram true) c.machine.thread.registers
        c.machine.thread.context = .ok 8) &&
      (past.all fun c' => (c'.instruction? (relayProgram true)).all Config.storesAbove) &&
      Config.laidAt (relayProgram true) past c 13 8 &&
      Machine.gives (Machine.fastResume (relayProgram true) .nil
        (c.machine.readied .registeredCore)) ()
        (fun m' => decide (m'.thread.pos = 0 ∧ m'.thread.frame = 8)) &&
      (past[13]?).all fun q =>
        ((q.native? (relayProgram true) relayNatives).any fun (x : String × Native) =>
          x.1 = "core:trigger_effect") &&
        decide (Context.readInt (relayProgram true) q.machine.thread.registers 8 = .ok 2) &&
        decide (q.machine.thread.registers.cell 9 = ⟨⟨3⟩, 55⟩)) 28 (relayStart true) =
      true := by decide +kernel
  obtain ⟨past, c, hcourse, htest⟩ := Course.exists_of_comesTo htest
  simp only [Bool.and_eq_true, decide_eq_true_eq] at htest
  obtain ⟨⟨⟨⟨hsynthetic, hstores⟩, hlaid⟩, hgives⟩, hq⟩ := htest
  obtain ⟨q, hat, hframe, hlaid⟩ := Config.LaidBy.of_laidAt hlaid
  rw [hat, Option.all_some, Bool.and_eq_true, Bool.and_eq_true, Option.any_eq_true,
    decide_eq_true_eq, decide_eq_true_eq] at hq
  obtain ⟨⟨⟨⟨name, native⟩, hnative, hname⟩, hdepth⟩, htarget⟩ := hq
  rw [decide_eq_true_eq] at hname
  obtain ⟨m', hresume, hleft⟩ := Machine.exists_of_gives hgives
  rw [decide_eq_true_eq] at hleft
  rw [List.all_eq_true] at hstores
  refine ⟨past, c, q, native, m', hcourse, fun c' hc' r hr => ?_, hlaid, hname ▸ hnative,
    hframe ▸ hsynthetic, hframe, ⟨hdepth, htarget⟩, hresume, hleft.1, hleft.2⟩
  simpa [hr, Config.storesAbove] using hstores c' hc'

end EffectMachine
