/-
Leaving a handler for good.

A handler that gives up the computation it handles returns from where the context was
entered, and one that makes a continuation goes on there in its place. Both read the
return record of the handled call at a fixed distance from the context record. A context
that is entered in the last call of another one moves that return record away.

* `Registers.HoldsReturn`: what a frame returns through;
* `Config.LaidBy`: the configuration whose round has laid a record;
* `abort_leaves_context`: **giving up a computation returns from where its context was
  entered**, if the return record has not been moved;
* `nestedProgram`: a context entered in the last call of another one.
-/
import EffectMachine.Proofs.OrderlyRuns
import EffectMachine.Proofs.SoundMachines

namespace EffectMachine

open Activation (allRecords allRecords_cons allRecords_append mem_allRecords)

/-- The registers hold a return record, of a depth and with a position to go on at. -/
structure Registers.HoldsReturn (P : Program) (rs : Registers) (frame : Nat) (depth : Int32)
    (pos : UInt32) : Prop where
  depth : Context.readInt P rs frame = .ok depth
  target : rs.cell (frame + 1) = ⟨P.intClass, pos⟩

namespace Machine.Stacked

variable {P : Program} {m : Machine} {a : Activation} {as : List Activation}

lemma holdsReturn (h : m.Stacked P a as) :
    m.thread.registers.HoldsReturn P m.thread.frame (Int32.ofNat (a.frame - a.caller)) a.pos :=
  ⟨h.readInt, by rw [h.frame]; exact h.stack.held.target⟩

lemma caller_eq (h : m.Stacked P a as) :
    (a.caller : Int) = m.thread.frame - (Int32.ofNat (a.frame - a.caller)).toInt := by
  have hcaller := h.stack.caller.2
  have hframe : a.base ≤ a.frame := Nat.le_add_right _ _
  have hroom := h.stack.held.room
  have hsize := h.size
  rw [Int32.toInt_ofNat_of_lt (by omega), h.frame]
  omega

/-- A call that covers another one, without a record right above, has laid one record
more. -/
lemma exists_last_of_covers (h : m.Stacked P a as) {b : Activation} {bs : List Activation} {r : Nat}
    (hr : r = b.frame) (hcovers : Activation.Covers (a :: as) b bs)
    (hclear : r + recordSize ∉ m.records P) :
    ∃ above, a :: as = above ++ { b with lifts := b.lifts + 1 } :: bs := by
  obtain ⟨above, n, hsplit, hn⟩ := hcovers
  have hstack := h.stack
  rw [h.records_eq, hsplit, hr] at hclear
  rw [hsplit] at hstack
  have hlast : ¬ b.lifts + 1 < n := fun hlt => hclear ((hstack.next_record_iff hn).mpr hlt)
  exact ⟨above, by rw [hsplit, show n = b.lifts + 1 by omega]⟩

variable {es : List Record} {m' m₁ m₂ : Machine} {body : Value} {s c : Nat} {vs : List Value}
  {array k : Value}

/-- Making a continuation takes the calls back to those in progress when the record was laid. -/
lemma stacked_reified (hint : P.fieldCount P.intClass = 0) (h : m.Stacked P a as)
    (hes : m.Shielded P es) (hreified : Reified P body m m₁ m₂ m' s c vs array k)
    (hclear : c + bodyRecordOffset (s - c) ∉ m.records P) {b : Activation} {bs : List Activation}
    (hframe : c = b.frame) (hcovers : Activation.Covers (a :: as) b bs) : m'.Stacked P b bs := by
  obtain ⟨front, b', bs', i, hsplit, hi, hc, hm'⟩ := h.exists_cut hint hes hreified hclear
  obtain ⟨above, n, hsplit', hn⟩ := hcovers
  have hstack := h.stack
  rw [hsplit] at hstack
  obtain ⟨rfl, rfl⟩ := hstack.eq_of_mem_records (hsplit.symm.trans hsplit')
    (Activation.mem_records.mpr ⟨i, hi, hc⟩)
    (Activation.mem_records.mpr ⟨b.lifts, hn, hframe⟩)
  have hlifts : i = b.lifts := by
    rw [Activation.frame, recordSize] at hframe
    rw [recordSize] at hc
    dsimp only at hc
    omega
  rwa [hlifts] at hm'

end Machine.Stacked

namespace Config

variable {P : Program} {past : List Config} {c q : Config} {as : List Activation}

/-- A record stands where the frame of an earlier configuration was, and has stood there
ever since: the round from that configuration has laid it, as it entered a context,
triggered an effect or resumed a continuation. -/
def LaidBy (P : Program) (past : List Config) (c q : Config) : Prop :=
  ∃ since older, past = since ++ q :: older ∧
    ∀ c' ∈ c :: since, q.machine.thread.frame ∈ c'.machine.records P

/-- The call that has laid the record is still in progress. -/
lemma Tracks.exists_covers (h : c.Tracks P past as) (hlaid : c.LaidBy P past q) :
    ∃ a' as' a rest, c.machine.Stacked P a' as' ∧ q.machine.Stacked P a rest ∧
      Activation.Covers (a' :: as') a rest := by
  obtain ⟨since, older, hsplit, hsince⟩ := hlaid
  obtain ⟨a, rest, hq, hcovers⟩ := h.laid since q older hsplit hsince
  obtain ⟨hstack, hr⟩ := h.stands.exists_stack (hsince c List.mem_cons_self)
  cases as with
  | nil => cases hr
  | cons a' as' => exact ⟨a', as', a, rest, h.stands.1, hq, hcovers⟩

end Config

/-! ### Giving up a computation -/

/-- **Giving up a computation returns from where its context was entered**, wherever the
effect was triggered, if no context has been entered in the last call of the handled one:
the thread comes to where the round that laid the record would have returned to, with the
records that end below that frame. -/
theorem abort_leaves_context {P : Program} (hP : P.Linked) (hint : P.fieldCount P.intClass = 0)
    {options : Options} (hregisters : options.registers ≤ 2 ^ 31) {natives : Natives}
    {m₀ : Machine} (hstart : Starts P options natives m₀) {past : List Config} {c : Config}
    (hcourse : Course P natives m₀ past c)
    (hpast : ∀ c' past', c' :: past' <:+ past → c'.Orderly P natives past') {q : Config}
    (hlaid : c.LaidBy P past q) {s : Nat}
    (hshield : c.machine.shield P = .ok (s, q.machine.thread.frame))
    (hclear : q.machine.thread.frame + 2 ∉ c.machine.records P) (v : Value) (e : Entry) :
    ∃ depth pos m',
      q.machine.thread.registers.HoldsReturn P q.machine.thread.frame depth pos ∧
      Machine.abort P v (c.machine.readied e) = .ok () m' ∧
      m'.thread.value = v ∧ m'.thread.pos = pos ∧
      (m'.thread.frame : Int) = q.machine.thread.frame - depth.toInt ∧
      Context.unwind P q.machine.thread.registers m'.thread.frame q.machine.thread.context =
        .ok m'.thread.context := by
  obtain ⟨⟨as, htracks⟩, -⟩ := hcourse.exists_tracks hint hP.empty hregisters hstart hpast
  obtain ⟨a', as', a, rest, hc, hq, hcovers⟩ := htracks.exists_covers hlaid
  obtain ⟨above, hcalls⟩ := hc.exists_last_of_covers hq.frame hcovers hclear
  have hreadied : (c.machine.readied e).Stacked P a' as' := hc.of_thread rfl rfl rfl rfl
  have hrefocused := hreadied.refocus hcalls (Activation.frame_mem_lifted a)
    (Activation.frame_lifted a)
  rw [← hq.frame] at hrefocused
  obtain ⟨hret, -⟩ := hrefocused.ret rfl v
  have habort : Machine.abort P v (c.machine.readied e) = .ok () _ :=
    (Machine.abort_eq (m := c.machine.readied e) hshield v).trans hret
  exact ⟨_, _, _, hq.holdsReturn, habort, rfl, rfl, hq.caller_eq, hq.unwind_caller.1⟩

/-! ### Going on in place of a computation -/

/-- **Making a continuation goes on in place of the round that entered the context**, wherever
the effect was triggered, if no other context has been entered in the last call of the handled
one: the frame, its return record and the context are those of that round, the value register
holds the body where the collections have put it, and the first argument is a continuation. What
that has captured are the registers between the two records, where the collections have put them,
if all values held name objects. -/
theorem reify_replaces_context {P : Program} (hP : P.Linked) (hint : P.fieldCount P.intClass = 0)
    {options : Options} (hregisters : options.registers ≤ 2 ^ 31) {natives : Natives}
    {m₀ : Machine} (hstart : Starts P options natives m₀) {past : List Config} {c : Config}
    (hcourse : Course P natives m₀ past c)
    (hpast : ∀ c' past', c' :: past' <:+ past → c'.Orderly P natives past') {q : Config}
    (hlaid : c.LaidBy P past q) {s : Nat}
    (hshield : c.machine.shield P = .ok (s, q.machine.thread.frame))
    (hlast : q.machine.thread.frame + 2 ∈ c.machine.records P → s = q.machine.thread.frame + 2)
    {body : Value} {e : Entry} {m' : Machine}
    (hreify : Machine.reify P body (c.machine.readied e) = .ok () m') :
    ∃ depth pos k,
      q.machine.thread.registers.HoldsReturn P q.machine.thread.frame depth pos ∧
      m'.thread.frame = q.machine.thread.frame ∧ m'.thread.frameEnd = 3 ∧
      m'.thread.registers.HoldsReturn P q.machine.thread.frame depth pos ∧
      m'.thread.registers.cell (q.machine.thread.frame + 2) = k ∧
      P.builtins.get? .continuation = some k.tag ∧
      m'.thread.context = q.machine.thread.context ∧
      Machine.reifyMoved? P body (c.machine.readied e) m' body = some m'.thread.value ∧
      ∀ cs, c.machine.Sound P cs → body.Sound P.fieldCount cs → ∃ vs words,
        c.machine.thread.registers.slice q.machine.thread.frame
          (s + 4 - q.machine.thread.frame) = .ok vs ∧
        m'.captured P k = .ok words ∧
        List.Forall₂ (fun v w => Machine.reifyMoved? P body (c.machine.readied e) m' v = some w)
          vs words := by
  obtain ⟨⟨as, htracks⟩, hall⟩ := hcourse.exists_tracks hint hP.empty hregisters hstart hpast
  obtain ⟨-, es, hes⟩ := hall c List.mem_cons_self
  obtain ⟨a', as', a, rest, hc, hq, hcovers⟩ := htracks.exists_covers hlaid
  have hreadied : (c.machine.readied e).Stacked P a' as' := hc.of_thread rfl rfl rfl rfl
  have hshielded : (c.machine.readied e).Shielded P es := hes.of_thread rfl rfl rfl
  have hclear := hreadied.body_clear hint hshielded (s := s) hshield hlast hreify
  obtain ⟨m₁, m₂, s', b', vs, array, k, hreified⟩ := Machine.reify_eq_ok hreify
  cases hreified.shield.symm.trans hshield
  have hm' := hreadied.stacked_reified hint hshielded hreified hclear hq.frame hcovers
  have hroom := hcourse.trail.heap_room hstart
  obtain ⟨-, hmoves⟩ := hreified.moves hroom
  have hframe : m'.thread.frame = q.machine.thread.frame := hreified.frame
  refine ⟨_, _, k, hq.holdsReturn, hframe, hreified.frameEnd, hframe ▸ hm'.holdsReturn,
    hreified.cell_continuation, hreified.tag, ?_, ?_, fun cs hs hbody => ?_⟩
  · rw [hm'.links.eq_headD, hq.links.eq_headD]
  · rw [hreified.value]
    exact hmoves.value
  · have hs' : (c.machine.readied e).Sound P cs :=
      hs.draws rfl fun v hv => .inr (hv.of_eq rfl rfl rfl rfl (Nat.le_refl _))
    have hlive : s + 2 * recordSize ≤ c.machine.thread.liveEnd := by
      have hbelow := (hc.stack.records_below (hc.records_eq ▸ (hes.mem_shield hshield).1)).2
      have hend := hc.frameEnd
      rw [← hc.frame] at hbelow
      rw [Thread.liveEnd]
      omega
    have hheld : ∀ v ∈ vs, v.Sound P.fieldCount cs := fun v hv =>
      hs.kept v (Machine.keeps_slice (m := c.machine) hreified.slice (by omega) v hv)
    obtain ⟨words, hwords, hmoved⟩ := hreified.captured_eq hP (hs'.capturing hbody) hheld
      hc.size
    exact ⟨vs, words, hreified.slice, hwords, hmoved⟩

/-! ### A program with nested contexts -/

namespace Config

/-- Whether an instruction stores nothing over the return record of its frame. -/
def storesAbove : Instruction → Bool
  | .store r => 2 ≤ r.toNat
  | _ => true

/-- A test for orderly rounds, which asks more than is needed: it refuses what resumes. -/
def orderly (P : Program) (natives : Natives) (c : Config) : Bool :=
  (c.instruction? P).all storesAbove &&
  (c.native? P natives).all fun (x : String × Native) =>
    x.1 ≠ "core:fast_resume_handler" && x.1 ≠ "core:resume_handler" &&
    (c.machine.shield P).toOption.all fun (y : Nat × Nat) =>
      y.2 + 2 ∉ c.machine.records P || (x.1 ≠ "core:fast_abort_handler" && y.1 = y.2 + 2)

/-- Rounds that pass the test are orderly. -/
lemma Orderly.of_orderly {P : Program} {natives : Natives} {c : Config}
    (h : c.orderly P natives = true) (past : List Config) : c.Orderly P natives past := by
  rw [orderly, Bool.and_eq_true] at h
  obtain ⟨hinstruction, hnative⟩ := h
  refine ⟨fun r hr => ?_, fun native hn s b hshield => ?_, fun native hn => ?_,
    fun native hn s b hshield hb => ?_, fun native hn => ?_⟩
  · simpa [hr, storesAbove] using hinstruction
  · simpa [hn, hshield, Except.toOption] using hnative
  · simp [hn] at hnative
  · simpa [hn, hshield, Except.toOption, hb] using hnative
  · simp [hn] at hnative

lemma Orderly.of_all {P : Program} {natives : Natives} {past past' : List Config} {c : Config}
    (h : past.all (orderly P natives) = true) (hsuffix : c :: past' <:+ past) :
    c.Orderly P natives past' :=
  .of_orderly (List.all_eq_true.mp h c (hsuffix.mem List.mem_cons_self)) past'

/-- Whether the frame of the configuration in the given place was at the given register, and a
record has stood there ever since. -/
def laidAt (P : Program) (past : List Config) (c : Config) (i r : Nat) : Bool :=
  (past[i]?).any (fun q => q.machine.thread.frame = r) &&
    (c :: past.take i).all fun c' => r ∈ c'.machine.records P

lemma LaidBy.of_laidAt {P : Program} {past : List Config} {c : Config} {i r : Nat}
    (h : laidAt P past c i r = true) :
    ∃ q, past[i]? = some q ∧ q.machine.thread.frame = r ∧ c.LaidBy P past q := by
  rw [laidAt, Bool.and_eq_true, Option.any_eq_true, List.all_eq_true] at h
  obtain ⟨⟨q, hq, hr⟩, hall⟩ := h
  rw [decide_eq_true_eq] at hr
  obtain ⟨hi, rfl⟩ := List.getElem?_eq_some_iff.mp hq
  refine ⟨past[i], hq, hr, past.take i, past.drop (i + 1), ?_, fun c' hc' => ?_⟩
  · rw [← List.drop_eq_getElem_cons hi, List.take_append_drop]
  · rw [hr]
    exact of_decide_eq_true (hall c' hc')

end Config

/-- A program that enters a context in the last call of another one. Its inner body
triggers an effect of the outer context or of the inner one, in its last call or not, and
both handlers leave through a native. -/
def nestedCode (effect : Int32) (leave : MethodId) (last : Bool) : List Instruction :=
  -- at 0: the program
  [.create ⟨4⟩ 0, .store 4, .create ⟨6⟩ 0, .store 5, .create ⟨9⟩ 0, .call ⟨3⟩ 2, .ret,
  -- at 29: the outer body
    .create ⟨5⟩ 0, .store 2, .create ⟨7⟩ 0, .store 3, .create ⟨9⟩ 0, .call ⟨3⟩ 0] ++
  -- at 57: the inner body
  (if last then
    [.natural effect, .store 2, .create ⟨8⟩ 0, .store 3, .create ⟨9⟩ 0, .call ⟨4⟩ 0]
  else
    [.natural effect, .store 4, .create ⟨8⟩ 0, .store 5, .create ⟨9⟩ 0, .call ⟨4⟩ 2, .ret]) ++
  -- both handlers, and the reply
  [.create ⟨9⟩ 0, .call leave 0, .natural 7, .ret]

/-- The program with its classes and methods. -/
def nestedProgram (effect : Int32) (leave : MethodId) (last : Bool) : Program where
  classes := #[⟨"Empty", .user, 0⟩, ⟨"ProgramInit", .user, 0⟩,
    ⟨"Continuation", .continuation, 1⟩, ⟨"Int", .int, 0⟩, ⟨"Outer", .user, 0⟩,
    ⟨"Inner", .user, 0⟩, ⟨"OuterBody", .user, 0⟩, ⟨"InnerBody", .user, 0⟩, ⟨"Reply", .user, 0⟩,
    ⟨"Core", .user, 0⟩]
  methods := #[⟨"call", -6⟩, ⟨"stop", -1⟩, ⟨"ask", -1⟩, ⟨"enter", -4⟩, ⟨"trigger", -3⟩,
    ⟨"abort", -2⟩, ⟨"reify", -1⟩]
  implementations := #[⟨⟨6⟩, ⟨0⟩, .standard, 29⟩, ⟨⟨7⟩, ⟨0⟩, .standard, 57⟩,
    ⟨⟨8⟩, ⟨0⟩, .standard, if last then 96 else 97⟩,
    ⟨⟨4⟩, ⟨1⟩, .standard, if last then 84 else 85⟩,
    ⟨⟨5⟩, ⟨2⟩, .standard, if last then 84 else 85⟩,
    ⟨⟨9⟩, ⟨3⟩, .external, 0⟩, ⟨⟨9⟩, ⟨4⟩, .external, 1⟩, ⟨⟨9⟩, ⟨5⟩, .external, 2⟩,
    ⟨⟨9⟩, ⟨6⟩, .external, 3⟩]
  externals := #["core:enter_context", "core:trigger_effect", "core:fast_abort_handler",
    "core:reify_handler_context"]
  code := ((nestedCode effect leave last).flatMap Instruction.encode).toArray
  builtins := { int := ⟨3⟩, continuation := ⟨2⟩ }

/-- The natives that the program names. -/
def nestedNatives : Natives :=
  ⟨#[("core:enter_context", CoreNatives.enterContext),
    ("core:trigger_effect", CoreNatives.triggerEffect),
    ("core:fast_abort_handler", CoreNatives.fastAbort),
    ("core:reify_handler_context", CoreNatives.reify)]⟩

/-- The machine at the start of the program. -/
def nestedStart (effect : Int32) (leave : MethodId) (last : Bool) : Machine where
  image := .fresh (nestedProgram effect leave last) ⟨64, 32⟩
    (Journal.record {} (.loadedProgram 0 4 64))
  thread := ⟨0, 2, 2, 0, .nil, (Cells.fresh 32).overwrite 0
    [⟨⟨3⟩, 0⟩, .nil, ⟨⟨3⟩, 0⟩, ⟨⟨3⟩, Thread.halt⟩]⟩

lemma starts_nested (effect : Int32) (leave : MethodId) (last : Bool) :
    Starts (nestedProgram effect leave last) ⟨64, 32⟩ nestedNatives
      (nestedStart effect leave last) :=
  ⟨{}, (nestedStart effect leave last).image, rfl, rfl⟩

lemma linked_nested (effect : Int32) (leave : MethodId) (last : Bool) :
    (nestedProgram effect leave last).Linked := by
  -- neither classes nor builtins depend on the parameters
  have hall : ∀ kind, (((nestedProgram 0 ⟨0⟩ false).builtins.get? kind).all fun c =>
      decide ((nestedProgram 0 ⟨0⟩ false).Knows c)) = true := fun kind => by cases kind <;> decide
  exact .of_all (by simp [nestedProgram]) rfl hall

/-- The inner handler gives up the inner body. The inner context has been entered in the last
call of the outer body, so the thread returns to where the program has entered the outer
context. -/
theorem abort_leaves_context_nested :
    ∃ past c q m',
      Course (nestedProgram 2 ⟨5⟩ false) nestedNatives (nestedStart 2 ⟨5⟩ false) past c ∧
      c.LaidBy (nestedProgram 2 ⟨5⟩ false) past q ∧
      c.machine.shield (nestedProgram 2 ⟨5⟩ false) = .ok (10, 6) ∧
      q.machine.thread.registers.HoldsReturn (nestedProgram 2 ⟨5⟩ false) 6 4 28 ∧
      Machine.abort (nestedProgram 2 ⟨5⟩ false) .nil (c.machine.readied .registeredCore) =
        .ok () m' ∧
      m'.thread.value = .nil ∧ m'.thread.pos = 28 ∧ m'.thread.frame = 2 ∧
      m'.thread.context = 0 := by
  have htest : Config.comesTo (nestedProgram 2 ⟨5⟩ false) nestedNatives (fun past c =>
      (past.all (Config.orderly (nestedProgram 2 ⟨5⟩ false) nestedNatives)) &&
      decide (c.machine.shield (nestedProgram 2 ⟨5⟩ false) = .ok (10, 6)) &&
      decide (8 ∉ c.machine.records (nestedProgram 2 ⟨5⟩ false)) &&
      Config.laidAt (nestedProgram 2 ⟨5⟩ false) past c 11 6 &&
      (past[11]?).all fun q =>
        decide (Context.readInt (nestedProgram 2 ⟨5⟩ false) q.machine.thread.registers 6 =
          .ok 4) &&
        decide (q.machine.thread.registers.cell 7 = ⟨⟨3⟩, 28⟩) &&
        decide (Context.unwind (nestedProgram 2 ⟨5⟩ false) q.machine.thread.registers 2
          q.machine.thread.context = .ok 0)) 26 (nestedStart 2 ⟨5⟩ false) = true := by
    decide +kernel
  obtain ⟨past, c, hcourse, htest⟩ := Course.exists_of_comesTo htest
  simp only [Bool.and_eq_true, decide_eq_true_eq] at htest
  obtain ⟨⟨⟨⟨horderly, hshield⟩, hclear⟩, hlaid⟩, hq⟩ := htest
  obtain ⟨q, hat, hframe, hlaid⟩ := Config.LaidBy.of_laidAt hlaid
  rw [hat, Option.all_some, Bool.and_eq_true, Bool.and_eq_true, decide_eq_true_eq,
    decide_eq_true_eq, decide_eq_true_eq] at hq
  obtain ⟨⟨hdepth, htarget⟩, hunwind⟩ := hq
  obtain ⟨depth, pos, m', hreturn, habort, hvalue, hpos, hframe', hcontext⟩ :=
    abort_leaves_context (linked_nested 2 ⟨5⟩ false) rfl (by decide) (starts_nested 2 ⟨5⟩ false)
      hcourse (fun _ _ hsuffix => .of_all horderly hsuffix) hlaid (hframe ▸ hshield)
      (hframe ▸ hclear) .nil .registeredCore
  rw [hframe] at hreturn hframe'
  cases hdepth.symm.trans hreturn.depth
  cases htarget.symm.trans hreturn.target
  have hleft : m'.thread.frame = 2 := by
    rw [show (4 : Int32).toInt = 4 by decide] at hframe'
    omega
  rw [hleft] at hcontext
  exact ⟨past, c, q, m', hcourse, hlaid, hshield, hreturn, habort, hvalue, hpos, hleft,
    (Except.ok.inj (hunwind.symm.trans hcontext)).symm⟩

/-- There the thread does not come back to the context in which the inner one was entered: the
return from the inner context is one from the outer context as well. -/
theorem abort_leaves_enclosing_context :
    ∃ past c q native m',
      Course (nestedProgram 2 ⟨5⟩ false) nestedNatives (nestedStart 2 ⟨5⟩ false) past c ∧
      (∀ c' ∈ past, ∀ r, c'.instruction? (nestedProgram 2 ⟨5⟩ false) = some (.store r) →
        2 ≤ r.toNat) ∧
      c.LaidBy (nestedProgram 2 ⟨5⟩ false) past q ∧
      q.native? (nestedProgram 2 ⟨5⟩ false) nestedNatives = some ("core:enter_context", native) ∧
      c.machine.shield (nestedProgram 2 ⟨5⟩ false) = .ok (10, q.machine.thread.frame) ∧
      Machine.abort (nestedProgram 2 ⟨5⟩ false) .nil (c.machine.readied .registeredCore) =
        .ok () m' ∧
      m'.thread.context ≠ q.machine.thread.context := by
  have htest : Config.comesTo (nestedProgram 2 ⟨5⟩ false) nestedNatives (fun past c =>
      decide (c.machine.shield (nestedProgram 2 ⟨5⟩ false) = .ok (10, 6)) &&
      (past.all fun c' => (c'.instruction? (nestedProgram 2 ⟨5⟩ false)).all Config.storesAbove) &&
      Config.laidAt (nestedProgram 2 ⟨5⟩ false) past c 11 6 &&
      (past[11]?).all fun q =>
        ((q.native? (nestedProgram 2 ⟨5⟩ false) nestedNatives).any fun (x : String × Native) =>
          x.1 = "core:enter_context") &&
        Machine.gives (Machine.abort (nestedProgram 2 ⟨5⟩ false) .nil
          (c.machine.readied .registeredCore)) ()
          fun m' => m'.thread.context ≠ q.machine.thread.context) 26
      (nestedStart 2 ⟨5⟩ false) = true := by decide +kernel
  obtain ⟨past, c, hcourse, htest⟩ := Course.exists_of_comesTo htest
  simp only [Bool.and_eq_true, decide_eq_true_eq, List.all_eq_true] at htest
  obtain ⟨⟨⟨hshield, hstores⟩, hlaid⟩, hq⟩ := htest
  obtain ⟨q, hat, hframe, hlaid⟩ := Config.LaidBy.of_laidAt hlaid
  rw [hat, Option.all_some, Bool.and_eq_true, Option.any_eq_true] at hq
  obtain ⟨⟨⟨name, native⟩, hnative, hname⟩, hgives⟩ := hq
  rw [decide_eq_true_eq] at hname
  obtain ⟨m', habort, hcontext⟩ := Machine.exists_of_gives hgives
  refine ⟨past, c, q, native, m', hcourse, fun c' hc' r hr => ?_, hlaid, hname ▸ hnative,
    hframe ▸ hshield, habort, of_decide_eq_true hcontext⟩
  simpa [hr, Config.storesAbove] using hstores c' hc'

/-- The inner handler makes a continuation of the inner body, which has triggered the effect in
its last call. It goes on in place of the round that entered the inner context. -/
theorem reify_replaces_context_nested :
    ∃ past c q m',
      Course (nestedProgram 2 ⟨6⟩ true) nestedNatives (nestedStart 2 ⟨6⟩ true) past c ∧
      c.LaidBy (nestedProgram 2 ⟨6⟩ true) past q ∧
      c.machine.shield (nestedProgram 2 ⟨6⟩ true) = .ok (8, 6) ∧
      q.machine.thread.registers.HoldsReturn (nestedProgram 2 ⟨6⟩ true) 6 4 28 ∧
      Machine.reify (nestedProgram 2 ⟨6⟩ true) ⟨⟨8⟩, 0⟩ (c.machine.readied .registeredCore) =
        .ok () m' ∧
      m'.thread.frame = 6 ∧ m'.thread.frameEnd = 3 ∧
      m'.thread.registers.HoldsReturn (nestedProgram 2 ⟨6⟩ true) 6 4 28 ∧
      (m'.thread.registers.cell 8).tag = ⟨2⟩ ∧ m'.thread.context = q.machine.thread.context ∧
      m'.thread.value = ⟨⟨8⟩, 0⟩ := by
  have htest : Config.comesTo (nestedProgram 2 ⟨6⟩ true) nestedNatives (fun past c =>
      (past.all (Config.orderly (nestedProgram 2 ⟨6⟩ true) nestedNatives)) &&
      decide (c.machine.shield (nestedProgram 2 ⟨6⟩ true) = .ok (8, 6)) &&
      Config.laidAt (nestedProgram 2 ⟨6⟩ true) past c 11 6 &&
      Machine.gives (Machine.reify (nestedProgram 2 ⟨6⟩ true) ⟨⟨8⟩, 0⟩
        (c.machine.readied .registeredCore)) () (fun _ => true) &&
      (past[11]?).all fun q =>
        decide (Context.readInt (nestedProgram 2 ⟨6⟩ true) q.machine.thread.registers 6 = .ok 4) &&
        decide (q.machine.thread.registers.cell 7 = ⟨⟨3⟩, 28⟩)) 26 (nestedStart 2 ⟨6⟩ true) =
      true := by decide +kernel
  obtain ⟨past, c, hcourse, htest⟩ := Course.exists_of_comesTo htest
  simp only [Bool.and_eq_true, decide_eq_true_eq] at htest
  obtain ⟨⟨⟨⟨horderly, hshield⟩, hlaid⟩, hgives⟩, hq⟩ := htest
  obtain ⟨q, hat, hframe, hlaid⟩ := Config.LaidBy.of_laidAt hlaid
  obtain ⟨m', hreify, -⟩ := Machine.exists_of_gives hgives
  rw [hat, Option.all_some, Bool.and_eq_true, decide_eq_true_eq, decide_eq_true_eq] at hq
  obtain ⟨depth, pos, k, hreturn, hframe', hend, hreturn', hk, htag, hcontext, hvalue, -⟩ :=
    reify_replaces_context (linked_nested 2 ⟨6⟩ true) rfl (by decide) (starts_nested 2 ⟨6⟩ true)
      hcourse (fun _ _ hsuffix => .of_all horderly hsuffix) hlaid (hframe ▸ hshield)
      (fun _ => by rw [hframe]) hreify
  rw [hframe] at hreturn hframe' hreturn' hk
  cases hq.1.symm.trans hreturn.depth
  cases hq.2.symm.trans hreturn.target
  refine ⟨past, c, q, m', hcourse, hlaid, hshield, hreturn, hreify, hframe', hend, hreturn', ?_,
    hcontext, ?_⟩
  · rw [hk]
    exact (Option.some.inj htag).symm
  · exact Machine.reifyMoved?_of_inline rfl hvalue

/-- The handler of the outer context makes a continuation while the inner context, which was
entered in the last call of the outer body, is still in place. It takes the record of the inner
context for the return record of the outer body, so what it goes on with does not return to where
the outer context was entered. -/
theorem reify_loses_return_record :
    ∃ past c q native m',
      Course (nestedProgram 1 ⟨6⟩ false) nestedNatives (nestedStart 1 ⟨6⟩ false) past c ∧
      (∀ c' ∈ past, ∀ r, c'.instruction? (nestedProgram 1 ⟨6⟩ false) = some (.store r) →
        2 ≤ r.toNat) ∧
      c.LaidBy (nestedProgram 1 ⟨6⟩ false) past q ∧
      q.native? (nestedProgram 1 ⟨6⟩ false) nestedNatives = some ("core:enter_context", native) ∧
      c.machine.shield (nestedProgram 1 ⟨6⟩ false) = .ok (10, q.machine.thread.frame) ∧
      q.machine.thread.registers.HoldsReturn (nestedProgram 1 ⟨6⟩ false) q.machine.thread.frame
        2 28 ∧
      Machine.reify (nestedProgram 1 ⟨6⟩ false) ⟨⟨8⟩, 0⟩ (c.machine.readied .registeredCore) =
        .ok () m' ∧
      m'.thread.registers.HoldsReturn (nestedProgram 1 ⟨6⟩ false) q.machine.thread.frame 0 0 := by
  have htest : Config.comesTo (nestedProgram 1 ⟨6⟩ false) nestedNatives (fun past c =>
      decide (c.machine.shield (nestedProgram 1 ⟨6⟩ false) = .ok (10, 4)) &&
      (past.all fun c' => (c'.instruction? (nestedProgram 1 ⟨6⟩ false)).all Config.storesAbove) &&
      Config.laidAt (nestedProgram 1 ⟨6⟩ false) past c 19 4 &&
      Machine.gives (Machine.reify (nestedProgram 1 ⟨6⟩ false) ⟨⟨8⟩, 0⟩
        (c.machine.readied .registeredCore)) () (fun m' =>
          decide (Context.readInt (nestedProgram 1 ⟨6⟩ false) m'.thread.registers 4 = .ok 0) &&
          decide (m'.thread.registers.cell 5 = ⟨⟨3⟩, 0⟩)) &&
      (past[19]?).all fun q =>
        ((q.native? (nestedProgram 1 ⟨6⟩ false) nestedNatives).any fun (x : String × Native) =>
          x.1 = "core:enter_context") &&
        decide (Context.readInt (nestedProgram 1 ⟨6⟩ false) q.machine.thread.registers 4 = .ok 2) &&
        decide (q.machine.thread.registers.cell 5 = ⟨⟨3⟩, 28⟩)) 26
      (nestedStart 1 ⟨6⟩ false) = true := by decide +kernel
  obtain ⟨past, c, hcourse, htest⟩ := Course.exists_of_comesTo htest
  simp only [Bool.and_eq_true, decide_eq_true_eq] at htest
  obtain ⟨⟨⟨⟨hshield, hstores⟩, hlaid⟩, hgives⟩, hq⟩ := htest
  obtain ⟨q, hat, hframe, hlaid⟩ := Config.LaidBy.of_laidAt hlaid
  rw [hat, Option.all_some, Bool.and_eq_true, Bool.and_eq_true, Option.any_eq_true,
    decide_eq_true_eq, decide_eq_true_eq] at hq
  obtain ⟨⟨⟨⟨name, native⟩, hnative, hname⟩, hdepth⟩, htarget⟩ := hq
  rw [decide_eq_true_eq] at hname
  obtain ⟨m', hreify, hrecord⟩ := Machine.exists_of_gives hgives
  rw [Bool.and_eq_true, decide_eq_true_eq, decide_eq_true_eq] at hrecord
  rw [List.all_eq_true] at hstores
  refine ⟨past, c, q, native, m', hcourse, fun c' hc' r hr => ?_, hlaid, hname ▸ hnative,
    hframe ▸ hshield, ?_, hreify, ?_⟩
  · simpa [hr, Config.storesAbove] using hstores c' hc'
  · rw [hframe]
    exact ⟨hdepth, htarget⟩
  · rw [hframe]
    exact ⟨hrecord.1, hrecord.2⟩

end EffectMachine
