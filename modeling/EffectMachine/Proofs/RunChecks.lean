/-
Checking runs that come to an end.

What a hypothesis asks of every configuration of a run can be tested along the
run, if it ends.

* `Config.checkRun`: the test, and `Trail.of_checkRun`: **what it says holds of
  every configuration**;
* `Config.follow`, `Config.retrace`, `Config.comesTo`: the configuration after a number of
  rounds, those before it, and a test of both;
* `Config.InFrame` is decidable, and `Config.recordsHold` is a test for
  `Config.RecordsHoldInts`;
* `Program.Linked.of_all`, `Machine.gives`: tests of a program and of a result;
* `replyProgram`: a program whose handler answers an effect by resuming a
  continuation, with facts about it at its start.
-/
import EffectMachine.Proofs.LinkedProgram
import EffectMachine.Proofs.Runs

namespace EffectMachine

/-! ### Following a run -/

/-- Whether the configuration, with those before it, and all that follow pass a
test, and the run ends within the given number of rounds. -/
def Config.checkRun (P : Program) (natives : Natives) (test : List Config → Config → Bool) :
    Nat → List Config → Config → Bool
  | 0, _, _ => false
  | rounds + 1, past, c =>
    test past c &&
      match c.advance P natives with
      | .ok call m => checkRun P natives test rounds (c :: past) ⟨call, m⟩
      | .error _ _ => true

/-- A run that passes the test passes it in every configuration. -/
lemma Trail.of_checkRun {P : Program} {natives : Natives} {m₀ : Machine} {past : List Config}
    {c : Config} (ht : Trail P natives m₀ past c) {test : List Config → Config → Bool}
    {rounds : Nat} (h : Config.checkRun P natives test rounds [] ⟨none, m₀⟩ = true) :
    test past c = true := by
  -- the check goes on from every configuration, with fewer rounds
  have hrest : ∃ rounds, Config.checkRun P natives test rounds past c = true := by
    induction ht with
    | start => exact ⟨rounds, h⟩
    | round _ hadvance ih =>
        obtain ⟨rounds, hc⟩ := ih
        cases rounds with
        | zero => cases hc
        | succ rounds =>
            rw [Config.checkRun, hadvance, Bool.and_eq_true] at hc
            exact ⟨rounds, hc.2⟩
  obtain ⟨rounds, hc⟩ := hrest
  cases rounds with
  | zero => cases hc
  | succ rounds =>
      rw [Config.checkRun, Bool.and_eq_true] at hc
      exact hc.1

/-- The configuration that the given number of rounds leads to. -/
def Config.follow (P : Program) (natives : Natives) : Nat → Config → Option Config
  | 0, c => some c
  | rounds + 1, c =>
    match c.advance P natives with
    | .ok call m => follow P natives rounds ⟨call, m⟩
    | .error _ _ => none

/-- A run comes to the configurations that it is followed to. -/
lemma Trail.exists_of_follow {P : Program} {natives : Natives} {m₀ : Machine}
    {past : List Config} {c c' : Config} (ht : Trail P natives m₀ past c) {rounds : Nat}
    (h : c.follow P natives rounds = some c') : ∃ past', Trail P natives m₀ past' c' := by
  induction rounds generalizing past c with
  | zero =>
      cases h
      exact ⟨past, ht⟩
  | succ rounds ih =>
      rw [Config.follow] at h
      split at h
      · rename_i hadvance
        exact ih (ht.round hadvance) h
      · cases h

/-- The configurations that the given number of rounds come through, the latest first,
and the one that they lead to. -/
def Config.retrace (P : Program) (natives : Natives) :
    Nat → List Config → Config → Option (List Config × Config)
  | 0, past, c => some (past, c)
  | rounds + 1, past, c =>
    match c.advance P natives with
    | .ok call m => retrace P natives rounds (c :: past) ⟨call, m⟩
    | .error _ _ => none

/-- A run comes through the configurations that it is retraced through. -/
lemma Trail.of_retrace {P : Program} {natives : Natives} {m₀ : Machine} {past : List Config}
    {c : Config} (ht : Trail P natives m₀ past c) {rounds : Nat} {x : List Config × Config}
    (h : Config.retrace P natives rounds past c = some x) : Trail P natives m₀ x.1 x.2 := by
  induction rounds generalizing past c with
  | zero =>
      cases h
      exact ht
  | succ rounds ih =>
      rw [Config.retrace] at h
      split at h
      · rename_i hadvance
        exact ih (ht.round hadvance) h
      · cases h

/-- Whether a run comes, in the given number of rounds, to a configuration that passes a test
together with those before it. -/
def Config.comesTo (P : Program) (natives : Natives) (test : List Config → Config → Bool)
    (rounds : Nat) (m₀ : Machine) : Bool :=
  (retrace P natives rounds [] ⟨none, m₀⟩).any fun (x : List Config × Config) =>
    (x.1.all fun c => !c.halted) && test x.1 x.2

lemma Course.exists_of_comesTo {P : Program} {natives : Natives} {m₀ : Machine}
    {test : List Config → Config → Bool} {rounds : Nat}
    (h : Config.comesTo P natives test rounds m₀ = true) :
    ∃ past c, Course P natives m₀ past c ∧ test past c = true := by
  rw [Config.comesTo, Option.any_eq_true] at h
  obtain ⟨⟨past, c⟩, hretrace, h⟩ := h
  rw [Bool.and_eq_true, List.all_eq_true] at h
  refine ⟨past, c, ⟨Trail.start.of_retrace hretrace, fun c' hc' => ?_⟩, h.2⟩
  simpa using h.1 c' hc'

/-! ### Tests -/

namespace Config

/-- Whether an instruction reads registers below an end only, and makes no
object of the marker's class. -/
def readsBelow (P : Program) (stop : Nat) : Instruction → Bool
  | .load r => r.toNat < stop
  | .create cls base =>
    cls ≠ .forwarded && (P.fieldCount cls = 0 || base.toNat + P.fieldCount cls ≤ stop)
  | _ => true

instance (P : Program) (natives : Natives) (c : Config) : Decidable (c.InFrame P natives) :=
  decidable_of_iff
    ((c.instruction? P).all (readsBelow P c.machine.thread.frameEnd) = true ∧
      ((c.native? P natives).all fun (x : String × Native) =>
        (c.machine.argumentsRead P x.1).all
          fun i => recordSize + i < c.machine.thread.frameEnd) = true) (by
    constructor
    · rintro ⟨hinstruction, hnative⟩
      refine ⟨fun r hr => ?_, fun cls base hb => ?_, fun name native hn => ?_⟩
      · simpa [hr, readsBelow] using hinstruction
      · simpa [hb, readsBelow] using hinstruction
      · simpa [hn] using hnative
    · intro h
      constructor
      · cases hi : c.instruction? P with
        | none => rfl
        | some i =>
            cases i with
            | load r => simpa [readsBelow] using h.load r hi
            | create cls base => simpa [readsBelow] using h.create cls base hi
            | _ => rfl
      · cases hn : c.native? P natives with
        | none => rfl
        | some x => simpa using h.native x.1 x.2 hn)

instance (P : Program) (rs : Registers) (index : Nat) : Decidable (HoldsRecord P rs index) :=
  inferInstanceAs (Decidable (_ ∧ _))

/-- A test for return records, which asks more than is needed: it does not look
whether the round succeeds. -/
def recordsHold (P : Program) (natives : Natives) (c : Config) : Bool :=
  (c.instruction? P ≠ some .ret ||
    HoldsRecord P c.machine.thread.registers c.machine.thread.frame) &&
  (c.native? P natives).all fun (x : String × Native) =>
    ((c.machine.recordsRead P x.1).all fun i => HoldsRecord P c.machine.thread.registers i) &&
    (x.1 ≠ "core:resume_handler" || (c.machine.captured? P).all fun captured =>
      HoldsRecord P c.machine.thread.registers c.machine.thread.frame &&
      (captured.drop (captured.length - recordSize)).all fun v => v.tag = P.intClass)

/-- Records that pass the test hold integers. -/
lemma RecordsHoldInts.of_recordsHold {P : Program} {natives : Natives} {c : Config}
    (h : c.recordsHold P natives = true) : c.RecordsHoldInts P natives := by
  rw [recordsHold, Bool.and_eq_true] at h
  obtain ⟨hinstruction, hnative⟩ := h
  refine ⟨fun hret _ _ _ => ?_, fun name native hn _ _ _ i hi => ?_,
    fun native hn captured hk _ => ?_, fun native hn captured hk _ _ _ _ v hv => ?_⟩
  · simpa [hret] using hinstruction
  · rw [hn, Option.all_some, Bool.and_eq_true] at hnative
    simpa using List.all_eq_true.mp hnative.1 i hi
  · rw [hn, Option.all_some, hk, Option.all_some] at hnative
    simp only [ne_eq, not_true, decide_false, Bool.false_or, Bool.and_eq_true, decide_eq_true_eq]
      at hnative
    exact hnative.2.1
  · rw [hn, Option.all_some, hk, Option.all_some] at hnative
    simp only [ne_eq, not_true, decide_false, Bool.false_or, Bool.and_eq_true, decide_eq_true_eq,
      List.all_eq_true] at hnative
    exact hnative.2.2 v hv

end Config

/-- A program is linked if its builtins pass a test. -/
lemma Program.Linked.of_all {P : Program} (hclasses : P.classes.size < 2 ^ 31)
    (hempty : P.fieldCount .empty = 0)
    (hall : ∀ kind, ((P.builtins.get? kind).all fun c => decide (P.Knows c)) = true) :
    P.Linked := by
  refine ⟨hclasses, hempty, fun kind c hc => ?_⟩
  have hknows := hall kind
  rw [hc, Option.all_some, decide_eq_true_eq] at hknows
  exact hknows

/-- Whether an operation gives a value, in a machine that passes a test. -/
def Machine.gives {α : Type} [DecidableEq α] (r : EStateM.Result Fault Machine α) (a : α)
    (test : Machine → Bool) : Bool :=
  match r with
  | .ok b m => b = a && test m
  | .error _ _ => false

lemma Machine.exists_of_gives {α : Type} [DecidableEq α] {r : EStateM.Result Fault Machine α}
    {a : α} {test : Machine → Bool} (h : gives r a test = true) :
    ∃ m, r = .ok a m ∧ test m = true := by
  cases r with
  | ok b m =>
      rw [gives, Bool.and_eq_true, decide_eq_true_eq] at h
      obtain ⟨rfl, htest⟩ := h
      exact ⟨m, rfl, htest⟩
  | error e m => cases h

/-! ### A program -/

/-- A program whose handler answers an effect. The program installs the handler
and calls the body, which triggers the effect and doubles the answer. The
handler makes a reply out of the effect's argument and its own field, and
replaces itself by the reply, which resumes the continuation with that field. -/
def replyCode : List Instruction :=
  -- at 0: the program, which gives up one handler
  [.natural 20, .store 2, .create ⟨6⟩ 2, .create ⟨6⟩ 2, .store 4, .create ⟨7⟩ 2, .store 5,
    .create ⟨9⟩ 2, .call ⟨2⟩ 2, .ret,
  -- at 42: the body
    .natural 1, .store 4, .natural 1, .store 5, .create ⟨9⟩ 2, .call ⟨3⟩ 2, .store 4, .store 5,
    .create ⟨9⟩ 2, .call ⟨6⟩ 2, .ret,
  -- at 85: the handler
    .field 0, .store 3, .create ⟨8⟩ 2, .store 2, .create ⟨9⟩ 2, .call ⟨4⟩ 0,
  -- at 112: the reply
    .field 1, .store 3, .create ⟨9⟩ 2, .call ⟨5⟩ 0]

/-- The program with its classes and methods. -/
def replyProgram : Program where
  classes := #[⟨"Empty", .user, 0⟩, ⟨"ProgramInit", .user, 0⟩,
    ⟨"Continuation", .continuation, 1⟩, ⟨"Int", .int, 0⟩, ⟨"True", .truth, 0⟩,
    ⟨"False", .falsehood, 0⟩, ⟨"Handler", .user, 1⟩, ⟨"Body", .user, 0⟩, ⟨"Reply", .user, 2⟩,
    ⟨"Core", .user, 0⟩]
  methods := #[⟨"call", -7⟩, ⟨"ask", -4⟩, ⟨"enter", -6⟩, ⟨"trigger", -5⟩, ⟨"reify", -4⟩,
    ⟨"resume", -3⟩, ⟨"add", -2⟩]
  implementations := #[⟨⟨7⟩, ⟨0⟩, .standard, 42⟩, ⟨⟨8⟩, ⟨0⟩, .standard, 112⟩,
    ⟨⟨6⟩, ⟨1⟩, .standard, 85⟩, ⟨⟨9⟩, ⟨2⟩, .external, 0⟩, ⟨⟨9⟩, ⟨3⟩, .external, 1⟩,
    ⟨⟨9⟩, ⟨4⟩, .external, 2⟩, ⟨⟨9⟩, ⟨5⟩, .external, 3⟩, ⟨⟨9⟩, ⟨6⟩, .external, 4⟩]
  externals := #["core:enter_context", "core:trigger_effect", "core:reify_handler_context",
    "core:resume_handler", "core:int_add"]
  code := (replyCode.flatMap Instruction.encode).toArray
  builtins := { int := ⟨3⟩, truth := ⟨4⟩, falsehood := ⟨5⟩, continuation := ⟨2⟩ }

/-- The natives that the program names. -/
def replyNatives : Natives :=
  ⟨#[("core:enter_context", CoreNatives.enterContext),
    ("core:trigger_effect", CoreNatives.triggerEffect),
    ("core:reify_handler_context", CoreNatives.reify),
    ("core:resume_handler", CoreNatives.resume),
    ("core:int_add", CoreNatives.arithmetic fun a b => .ok (a + b))]⟩

/-- The machine at the start of the program. -/
def replyStart (options : Options) : Machine where
  image := .fresh replyProgram options
    (Journal.record {} (.loadedProgram 0 5 options.heapWords))
  thread := ⟨0, 2, 2, 0, .nil, (Cells.fresh options.registers).overwrite 0
    [replyProgram.int 0, .nil, replyProgram.int 0, ⟨replyProgram.intClass, Thread.halt⟩]⟩

lemma starts_reply (options : Options) (h : 4 ≤ options.registers) :
    Starts replyProgram options replyNatives (replyStart options) := by
  refine ⟨{}, (replyStart options).image, rfl, ?_⟩
  rw [Machine.start, Thread.fresh, if_neg (by rw [recordSize]; omega)]
  rfl

lemma linked_reply : replyProgram.Linked :=
  .of_all (by decide) (by decide) fun kind => by cases kind <;> decide

lemma inlineScalars_reply : replyProgram.InlineScalars where
  int := by decide
  truth := by decide
  falsehood := by decide

end EffectMachine
