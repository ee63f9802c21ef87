/-
Runs of the machine, round by round.

A round executes one instruction or dispatches one method. A run is what rounds
lead to, one after the other, from a fresh thread; the functions that run a
program do nothing but rounds.

* `Config`, `Config.advance`: a machine between two rounds, and its next round;
* `Trail`: the configurations that a machine has come through, the latest
  first, and `Course`: those of a run, which stops when it has halted;
* `Machine.step_course`, `Machine.run_course`, `Machine.run_error_course`: steps
  and runs are made of rounds;
* `Config.dispatch_eq_ok`: what a dispatch has done;
* `Starts`: a fresh thread in a fresh image, with the core natives;
* `Config.InFrame`: a round names no register past those in use, and makes no
  object of the class that marks what a collection has moved;
* `Config.RecordsHoldInts`: the return records through which a round returns
  hold two integers.
-/
import EffectMachine.CoreNatives
import EffectMachine.Execution
import Mathlib.Tactic.Common

namespace EffectMachine

/-! ### Rounds -/

/-- A machine between two rounds. It dispatches a method next, or else executes
an instruction. -/
structure Config where
  call : Option MethodId
  machine : Machine

/-- One round. It gives the method that is to be dispatched in the next one, if
there is one. -/
def Config.advance (P : Program) (natives : Natives) (c : Config) :
    EStateM.Result Fault Machine (Option MethodId) :=
  match c.call with
  | none => Machine.execute P c.machine
  | some method => Machine.dispatchOnce P natives method c.machine

/-- The machine comes through the configurations of the list, the latest first,
to the last one. -/
inductive Trail (P : Program) (natives : Natives) (m₀ : Machine) : List Config → Config → Prop
  | start : Trail P natives m₀ [] ⟨none, m₀⟩
  | round {past : List Config} {c : Config} {call : Option MethodId} {m : Machine} :
      Trail P natives m₀ past c → c.advance P natives = .ok call m →
      Trail P natives m₀ (c :: past) ⟨call, m⟩

/-- A machine has come to each configuration through those before it. -/
lemma Trail.of_suffix {P : Program} {natives : Natives} {m₀ : Machine} {past past' : List Config}
    {c c' : Config} (h : Trail P natives m₀ past c) (hsuffix : c' :: past' <:+ past) :
    Trail P natives m₀ past' c' := by
  induction h with
  | start => cases List.eq_nil_of_suffix_nil hsuffix
  | round htrail _ ih =>
      rcases List.suffix_cons_iff.mp hsuffix with heq | hsuffix
      · cases heq
        exact htrail
      · exact ih hsuffix

/-- Whether a run ends with the configuration. -/
def Config.halted (c : Config) : Bool := c.call.isNone && c.machine.thread.halted

/-- A run comes through the configurations of the list, the latest first, to the
last one: it has not halted before. -/
structure Course (P : Program) (natives : Natives) (m₀ : Machine) (past : List Config)
    (c : Config) : Prop where
  trail : Trail P natives m₀ past c
  going : ∀ c' ∈ past, c'.halted = false

namespace Course

variable {P : Program} {natives : Natives} {m₀ : Machine} {past : List Config} {c c' : Config}

/-- A run has come to each of its configurations through those before it. -/
lemma of_suffix {past' : List Config} (h : Course P natives m₀ past c)
    (hsuffix : c' :: past' <:+ c :: past) : Course P natives m₀ past' c' ∧ past' <:+ past := by
  rcases List.suffix_cons_iff.mp hsuffix with heq | hsuffix
  · cases heq
    exact ⟨h, List.suffix_rfl⟩
  · have htail : past' <:+ past := (List.suffix_cons c' past').trans hsuffix
    exact ⟨⟨h.trail.of_suffix hsuffix, fun d hd => h.going d (htail.mem hd)⟩, htail⟩

/-- The configuration from which the last round has led. -/
lemma exists_before (h : Course P natives m₀ (c' :: past) c) :
    Course P natives m₀ past c' ∧ c'.halted = false ∧
      c'.advance P natives = .ok c.call c.machine := by
  obtain ⟨htrail, hgoing⟩ := h
  cases htrail with
  | round htrail hadvance =>
      exact ⟨⟨htrail, fun d hd => hgoing d (List.mem_cons_of_mem _ hd)⟩,
        hgoing c' List.mem_cons_self, hadvance⟩

lemma start : Course P natives m₀ [] ⟨none, m₀⟩ :=
  ⟨.start, fun _ h => by cases h⟩

lemma round {call : Option MethodId} {m : Machine} (h : Course P natives m₀ past c)
    (hc : c.halted = false) (hadvance : c.advance P natives = .ok call m) :
    Course P natives m₀ (c :: past) ⟨call, m⟩ := by
  refine ⟨h.trail.round hadvance, fun c' hc' => ?_⟩
  rcases List.mem_cons.mp hc' with rfl | hc'
  · exact hc
  · exact h.going c' hc'

lemma of_mem (h : Course P natives m₀ past c) (hc' : c' ∈ past) :
    ∃ past', Course P natives m₀ past' c' := by
  obtain ⟨htrail, hgoing⟩ := h
  induction htrail with
  | start => cases hc'
  | @round past c _ _ htrail _ ih =>
      have hpast : ∀ d ∈ past, d.halted = false := fun d hd =>
        hgoing d (List.mem_cons_of_mem _ hd)
      rcases List.mem_cons.mp hc' with rfl | hc'
      · exact ⟨past, htrail, hpast⟩
      · exact ih hc' hpast

end Course

namespace Machine

variable {P : Program} {natives : Natives} {m₀ m m' : Machine} {past : List Config}
  {rounds : Nat} {e : Fault}

/-- Settling a call dispatches once and goes on. -/
lemma settle_some (method : MethodId) :
    settle P natives (rounds + 1) (some method) m =
      match dispatchOnce P natives method m with
      | .ok call m => settle P natives rounds call m
      | .error e m => .error e m := rfl

/-- A step is an instruction, and what settles the call it gives. -/
lemma step_eq :
    step P natives rounds m =
      match execute P m with
      | .ok call m => settle P natives rounds call m
      | .error e m => .error e m := by
  simp only [step, bind, EStateM.bind]
  cases execute P m <;> rfl

lemma run_zero :
    run P natives 0 m = .ok (if m.thread.halted then some m.thread.value else none) m := rfl

lemma run_succ :
    run P natives (rounds + 1) m =
      if m.thread.halted then .ok (some m.thread.value) m
      else
        match step P natives rounds m with
        | .ok true m => run P natives rounds m
        | .ok false m => .ok none m
        | .error e m => .error e m := rfl

lemma settle_course {call : Option MethodId} {b : Bool} (h : Course P natives m₀ past ⟨call, m⟩)
    (hs : settle P natives rounds call m = .ok b m') :
    ∃ past' call', Course P natives m₀ past' ⟨call', m'⟩ ∧ (b = true → call' = none) := by
  induction rounds generalizing call m past with
  | zero =>
      cases call with
      | none =>
          cases hs
          exact ⟨past, none, h, fun _ => rfl⟩
      | some method =>
          cases hs
          exact ⟨past, some method, h, fun hb => by cases hb⟩
  | succ rounds ih =>
      cases call with
      | none =>
          cases hs
          exact ⟨past, none, h, fun _ => rfl⟩
      | some method =>
          rw [settle_some] at hs
          split at hs
          · rename_i next m₁ hnext
            exact ih (h.round rfl hnext) hs
          · cases hs

lemma settle_error_course {call : Option MethodId} (h : Course P natives m₀ past ⟨call, m⟩)
    (hs : settle P natives rounds call m = .error e m') :
    ∃ past' c, Course P natives m₀ past' c ∧ c.halted = false ∧
      c.advance P natives = .error e m' := by
  induction rounds generalizing call m past with
  | zero => cases call <;> cases hs
  | succ rounds ih =>
      cases call with
      | none => cases hs
      | some method =>
          rw [settle_some] at hs
          split at hs
          · rename_i next m₁ hnext
            exact ih (h.round rfl hnext) hs
          · rename_i e₁ m₁ hnext
            cases hs
            exact ⟨past, _, h, rfl, hnext⟩

lemma step_course (h : Course P natives m₀ past ⟨none, m⟩) (hm : m.thread.halted = false)
    (hs : step P natives rounds m = .ok true m') :
    ∃ past', Course P natives m₀ past' ⟨none, m'⟩ := by
  rw [step_eq] at hs
  split at hs
  · rename_i call m₁ hcall
    obtain ⟨past', call', hcourse, hnone⟩ := settle_course (h.round hm hcall) hs
    rw [hnone rfl] at hcourse
    exact ⟨past', hcourse⟩
  · cases hs

lemma step_error_course (h : Course P natives m₀ past ⟨none, m⟩) (hm : m.thread.halted = false)
    (hs : step P natives rounds m = .error e m') :
    ∃ past' c, Course P natives m₀ past' c ∧ c.halted = false ∧
      c.advance P natives = .error e m' := by
  rw [step_eq] at hs
  split at hs
  · rename_i call m₁ hcall
    exact settle_error_course (h.round hm hcall) hs
  · rename_i e₁ m₁ hcall
    cases hs
    exact ⟨past, _, h, hm, hcall⟩

lemma run_error_course (h : Course P natives m₀ past ⟨none, m⟩)
    (hr : run P natives rounds m = .error e m') :
    ∃ past' c, Course P natives m₀ past' c ∧ c.halted = false ∧
      c.advance P natives = .error e m' := by
  induction rounds generalizing m past with
  | zero => cases hr
  | succ rounds ih =>
      rw [run_succ] at hr
      split at hr
      · cases hr
      · rename_i hm
        rw [Bool.not_eq_true] at hm
        split at hr
        · rename_i m₁ hstep
          obtain ⟨past', h'⟩ := step_course h hm hstep
          exact ih h' hr
        · cases hr
        · rename_i e₁ m₁ hstep
          cases hr
          exact step_error_course h hm hstep

/-- A run that ends is made of rounds, and ends halted. -/
lemma run_course {v : Value} (h : Course P natives m₀ past ⟨none, m⟩)
    (hr : run P natives rounds m = .ok (some v) m') :
    ∃ past', Course P natives m₀ past' ⟨none, m'⟩ ∧ m'.thread.halted = true ∧
      m'.thread.value = v := by
  induction rounds generalizing m past with
  | zero =>
      rw [run_zero] at hr
      by_cases hm : m.thread.halted = true
      · rw [if_pos hm] at hr
        cases hr
        exact ⟨past, h, hm, rfl⟩
      · rw [if_neg hm] at hr
        cases hr
  | succ rounds ih =>
      rw [run_succ] at hr
      split at hr
      · rename_i hm
        cases hr
        exact ⟨past, h, hm, rfl⟩
      · rename_i hm
        rw [Bool.not_eq_true] at hm
        split at hr
        · rename_i m₁ hstep
          obtain ⟨past', h'⟩ := step_course h hm hstep
          exact ih h' hr
        · cases hr
        · cases hr

end Machine

/-! ### Dispatch -/

namespace Machine

/-- The machine as a native finds it: the call is reported, and control has not
been handed on. -/
def readied (m : Machine) (e : Entry) : Machine :=
  ⟨⟨m.image.globals, m.image.heap, m.image.journal.record e⟩, m.thread, none⟩

/-- A native is run, and has to hand control on. -/
lemma runNative_eq {P : Program} {natives : Natives} {index : UInt32} {name : String}
    {native : Native} (h : natives.entries[index.toNat]? = some (name, native)) (r : Value)
    (m : Machine) :
    runNative P natives index r m =
      match native P r (m.readied (.native name r)) with
      | .error e s => .error e s
      | .ok _ s =>
        match s.transfer with
        | none => .error (.nativeDidNotTransfer name) s
        | some .returned => .ok none { s with transfer := none }
        | some (.call method) => .ok (some method) { s with transfer := none } := by
  have hget : natives.get index = .ok native := by rw [Natives.get, h]
  have hname : natives.name index = name := by rw [Natives.name, h]
  simp only [runNative, hget, hname, bind, EStateM.bind, Action.ofExcept, record, clearTransfer,
    Machine.read]
  rw [readied]
  cases native P r _ with
  | error e s => rfl
  | ok a s =>
      dsimp only
      cases s.transfer with
      | none => rfl
      | some how => cases how <;> rfl

/-- A native that is not there cannot be run. -/
lemma runNative_missing {P : Program} {natives : Natives} {index : UInt32}
    (h : natives.entries[index.toNat]? = none) (r : Value) (m : Machine) :
    runNative P natives index r m = .error (.invalidNative index) m := by
  have hget : natives.get index = .error (.invalidNative index) := by rw [Natives.get, h]
  simp only [runNative, hget, Action.ofExcept, bind, EStateM.bind]

lemma dispatchOnce_eq (P : Program) (natives : Natives) (method : MethodId) (m : Machine) :
    dispatchOnce P natives method m =
      match P.dispatch m.thread.value.tag method with
      | none => .error (.dispatchMiss m.thread.value.tag method) m
      | some found =>
        match found.kind with
        | .standard => .ok none { m with thread := { m.thread with pos := found.entry } }
        | .handler => .error (.handlerBinding m.thread.value.tag method) m
        | .external => runNative P natives found.entry m.thread.value m := by
  simp only [dispatchOnce, bind, EStateM.bind, value, Machine.read]
  cases P.dispatch m.thread.value.tag method with
  | none => rfl
  | some found =>
      dsimp only
      cases found.kind <;> rfl

end Machine

/-! ### Starting a program -/

/-- The machine is at the start of the program, with a fresh thread in a fresh
image, and the core natives. -/
def Starts (P : Program) (options : Options) (natives : Natives) (m : Machine) : Prop :=
  ∃ journal image, Image.load P .core options journal = .ok (natives, image) ∧
    Machine.start P options image = .ok m

/-- What a registry holds after insertions was there before, or was inserted. -/
lemma Registry.mem_insertAll {r : Registry} {entries : List (String × Native)}
    {x : String × Native} (h : x ∈ (r.insertAll entries).entries) :
    x ∈ r.entries ∨ x ∈ entries := by
  induction entries generalizing r with
  | nil => exact .inl h
  | cons entry rest ih =>
      rcases ih h with h | h
      · rcases List.mem_cons.mp h with rfl | h
        · exact .inr List.mem_cons_self
        · exact .inl (List.mem_filter.mp h).1
      · exact .inr (List.mem_cons_of_mem _ h)

lemma Registry.mem_of_get? {r : Registry} {name : String} {native : Native}
    (h : r.get? name = some native) : (name, native) ∈ r.entries := by
  obtain ⟨⟨name', native'⟩, hfind, rfl⟩ := Option.map_eq_some_iff.mp h
  have hname : name' = name := by simpa using List.find?_some hfind
  exact hname ▸ List.mem_of_find?_eq_some hfind

/-- Every native that has been resolved is an entry of the registry. -/
lemma Natives.mem_of_resolveList {r : Registry} {names : List String}
    {entries : List (String × Native)} (h : resolveList r names = .ok entries)
    {x : String × Native} (hx : x ∈ entries) : x ∈ r.entries := by
  induction names generalizing entries with
  | nil =>
      cases h
      cases hx
  | cons name names ih =>
      rw [resolveList] at h
      split at h
      · cases h
      · rename_i native hnative
        split at h
        · rename_i rest hrest
          cases h
          rcases List.mem_cons.mp hx with rfl | hx
          · exact Registry.mem_of_get? hnative
          · exact ih hrest hx
        · cases h

/-- So is the native at an index. -/
lemma Natives.mem_of_resolve {r : Registry} {names : Array String} {natives : Natives}
    (h : resolve r names = .ok natives) {index : Nat} {x : String × Native}
    (hx : natives.entries[index]? = some x) : x ∈ r.entries := by
  rw [resolve] at h
  split at h
  · rename_i entries hentries
    cases h
    rw [List.getElem?_toArray] at hx
    exact mem_of_resolveList hentries (List.mem_of_getElem? hx)
  · cases h

/-- The registry of the core natives holds no other ones. -/
lemma Registry.mem_core {x : String × Native} (h : x ∈ Registry.core.entries) :
    x ∈ coreNatives :=
  (mem_insertAll h).resolve_left List.not_mem_nil

lemma Image.load_eq_ok {P : Program} {registry : Registry} {options : Options} {journal : Journal}
    {natives : Natives} {image : Image}
    (h : Image.load P registry options journal = .ok (natives, image)) :
    Natives.resolve registry P.externals = .ok natives ∧
      ∃ journal', image = .fresh P options journal' := by
  rw [Image.load] at h
  cases hint : P.builtin .int with
  | error e =>
      rw [hint] at h
      cases h
  | ok c =>
      rw [hint] at h
      cases hres : Natives.resolve registry P.externals with
      | error e =>
          rw [hres] at h
          cases h
      | ok natives' =>
          rw [hres] at h
          cases h
          exact ⟨rfl, _, rfl⟩

/-- A machine at the start has the core natives that the program names. -/
lemma Starts.resolve {P : Program} {options : Options} {natives : Natives} {m : Machine}
    (h : Starts P options natives m) : Natives.resolve .core P.externals = .ok natives := by
  obtain ⟨journal, image, hload, -⟩ := h
  exact (Image.load_eq_ok hload).1

/-- The natives of a machine at the start are core natives. -/
lemma Starts.mem_coreNatives {P : Program} {options : Options} {natives : Natives} {m : Machine}
    (h : Starts P options natives m) {index : Nat} {x : String × Native}
    (hx : natives.entries[index]? = some x) : x ∈ coreNatives :=
  Registry.mem_core (Natives.mem_of_resolve h.resolve hx)

lemma Machine.start_eq_ok {P : Program} {options : Options} {image : Image} {m : Machine}
    (h : Machine.start P options image = .ok m) :
    2 * recordSize ≤ options.registers ∧ m.image = image ∧ m.transfer = none ∧
      m.thread = ⟨0, recordSize, recordSize, 0, .nil, (Cells.fresh options.registers).overwrite 0
        [P.int 0, .nil, P.int 0, ⟨P.intClass, Thread.halt⟩]⟩ := by
  rw [Machine.start, Thread.fresh] at h
  split at h
  · rename_i thread hthread
    split at hthread
    · cases hthread
    · rename_i hsize
      cases hthread
      cases h
      exact ⟨Nat.le_of_not_lt hsize, rfl, rfl, rfl⟩
  · cases h

lemma Starts.eq {P : Program} {options : Options} {natives : Natives} {m : Machine}
    (h : Starts P options natives m) :
    2 * recordSize ≤ options.registers ∧ ∃ journal, m.image = .fresh P options journal ∧
      m.transfer = none ∧
      m.thread = ⟨0, recordSize, recordSize, 0, .nil, (Cells.fresh options.registers).overwrite 0
        [P.int 0, .nil, P.int 0, ⟨P.intClass, Thread.halt⟩]⟩ := by
  obtain ⟨journal, image, hload, hstart⟩ := h
  obtain ⟨-, journal', rfl⟩ := Image.load_eq_ok hload
  obtain ⟨hsize, himage, htransfer, hthread⟩ := Machine.start_eq_ok hstart
  exact ⟨hsize, journal', himage, htransfer, hthread⟩

/-! ### What a round reads -/

namespace Machine

/-- The register that holds an argument of a native. -/
def argument (m : Machine) (index : Nat) : Value :=
  m.thread.registers.cell (m.thread.frame + recordSize + index)

/-- The arguments that an operation on two integers reads: the second one if the
first is an integer. -/
def integersRead (P : Program) (m : Machine) : List Nat :=
  match P.intValue (m.argument 0) with
  | .ok _ => [0, 1]
  | .error _ => [0]

/-- The arguments that triggering an effect reads: the second one if the first is
the number of a method. -/
def triggerRead (P : Program) (m : Machine) : List Nat :=
  match P.intValue (m.argument 0) with
  | .ok n => if n < 0 then [0] else [0, 1]
  | .error _ => [0]

/-- The arguments that a conditional reads: the one that it calls if the first is
a truth value. -/
def conditionalRead (P : Program) (m : Machine) : List Nat :=
  match P.boolValue (m.argument 0) with
  | .ok condition => [0, if condition then 1 else 2]
  | .error _ => [0]

/-- The arguments that setting an element of an array reads: the third one if the
first two are an array and an index inside it. -/
def elementRead (P : Program) (m : Machine) : List Nat :=
  match (m.argument 0).tag.arrayLength?, P.intValue (m.argument 1) with
  | some length, .ok n => if CoreNatives.wrapIndex n < length then [0, 1, 2] else [0, 1]
  | _, _ => [0, 1]

/-- The arguments that a core native reads. -/
def argumentsRead (P : Program) (m : Machine) : String → List Nat
  | "core:fast_abort_handler" | "core:fast_resume_handler" | "core:reify_handler_context"
  | "core:array_len" => [0]
  | "core:enter_context" | "core:resume_handler" | "core:array_get" => [0, 1]
  | "core:trigger_effect" => m.triggerRead P
  | "core:int_add" | "core:int_sub" | "core:int_mul" | "core:int_div" | "core:int_eq"
  | "core:int_lt" => m.integersRead P
  | "core:if" => m.conditionalRead P
  | "core:array_set" => m.elementRead P
  | _ => []

/-- The innermost synthetic record, and the record that it serves. -/
def shield (P : Program) (m : Machine) : Except Fault (Nat × Nat) := do
  let synthetic ← Context.synthetic P m.thread.registers m.thread.context
  let handling ← Context.handling m.thread.registers synthetic
  return (synthetic, handling)

lemma shield_eq_ok {P : Program} {m : Machine} {s b : Nat} :
    m.shield P = .ok (s, b) ↔ Context.synthetic P m.thread.registers m.thread.context = .ok s ∧
      Context.handling m.thread.registers s = .ok b := by
  rw [shield]
  cases Context.synthetic P m.thread.registers m.thread.context with
  | error e => simp [bind, Except.bind]
  | ok s' =>
      cases hb : Context.handling m.thread.registers s' with
      | error e =>
          simp only [bind, Except.bind, hb]
          constructor
          · intro h
            cases h
          · rintro ⟨h, h'⟩
            cases h
            rw [hb] at h'
            cases h'
      | ok b' =>
          simp only [bind, Except.bind, hb, pure, Except.pure]
          constructor
          · intro h
            cases h
            exact ⟨rfl, hb⟩
          · rintro ⟨h, h'⟩
            cases h
            rw [hb] at h'
            cases h'
            rfl

/-- The registers that a continuation has captured. -/
def captured (P : Program) (m : Machine) (k : Value) : Except Fault (List Value) := do
  m.image.asArray (← m.image.field P k 0)

/-- The registers that the first argument has captured, if it is a
continuation. -/
def captured? (P : Program) (m : Machine) : Option (List Value) :=
  if P.builtins.get? .continuation = some (m.argument 0).tag then
    (m.captured P (m.argument 0)).toOption
  else none

/-- The return records among the registers that a core native reads to leave
through them. The two that move the record of their frame up do not read it in
this sense. -/
def recordsRead (P : Program) (m : Machine) : String → List Nat
  | "core:enter_context" | "core:trigger_effect" | "core:if" => []
  | "core:fast_abort_handler" =>
    match m.shield P with
    | .ok (_, handling) => [handling + recordSize]
    | .error _ => []
  | "core:fast_resume_handler" =>
    match Context.synthetic P m.thread.registers m.thread.context with
    | .ok synthetic => [synthetic + recordSize]
    | .error _ => []
  | "core:reify_handler_context" =>
    match m.shield P with
    | .ok (synthetic, handling) => [handling + bodyRecordOffset (synthetic - handling)]
    | .error _ => []
  | _ => [m.thread.frame]

end Machine

/-- Both registers of the return record hold integers. -/
def HoldsRecord (P : Program) (rs : Registers) (index : Nat) : Prop :=
  (rs.cell index).tag = P.intClass ∧ (rs.cell (index + 1)).tag = P.intClass

namespace Config

/-- The instruction that the next round executes. -/
def instruction? (P : Program) (c : Config) : Option Instruction :=
  match c.call with
  | none => (Instruction.decode P.code c.machine.thread.pos.toNat).toOption
  | some _ => none

/-- The native that the next round runs, with its name. -/
def native? (P : Program) (natives : Natives) (c : Config) : Option (String × Native) := do
  let found ← P.dispatch c.machine.thread.value.tag (← c.call)
  if found.kind = .external then natives.entries[found.entry.toNat]? else none

/-- The native that the next round runs is an entry. -/
lemma exists_entry {P : Program} {natives : Natives} {c : Config} {x : String × Native}
    (h : c.native? P natives = some x) : ∃ index : Nat, natives.entries[index]? = some x := by
  obtain ⟨method, -, h⟩ := Option.bind_eq_some_iff.mp h
  obtain ⟨found, -, h⟩ := Option.bind_eq_some_iff.mp h
  split at h
  · exact ⟨_, h⟩
  · cases h

/-- A dispatch that succeeds enters a method of the program, or has run a native
that has handed control on. -/
lemma dispatch_eq_ok {P : Program} {natives : Natives} {method : MethodId} {m m' : Machine}
    {call : Option MethodId} (h : Machine.dispatchOnce P natives method m = .ok call m') :
    (native? P natives ⟨some method, m⟩ = none ∧
      ∃ entry, m' = { m with thread := { m.thread with pos := entry } }) ∨
      ∃ name native u s, native? P natives ⟨some method, m⟩ = some (name, native) ∧
        native P m.thread.value (m.readied (.native name m.thread.value)) = .ok u s ∧
        m' = { s with transfer := none } ∧ (s.transfer = some .returned → call = none) := by
  rw [Machine.dispatchOnce_eq] at h
  cases hfound : P.dispatch m.thread.value.tag method with
  | none =>
      rw [hfound] at h
      cases h
  | some found =>
      rw [hfound] at h
      dsimp only at h
      cases hkind : found.kind with
      | standard =>
          rw [hkind] at h
          cases h
          refine .inl ⟨?_, found.entry, rfl⟩
          simp only [native?, Option.bind_eq_bind, Option.bind_some, hfound, hkind]
          rfl
      | handler =>
          rw [hkind] at h
          cases h
      | external =>
          rw [hkind] at h
          dsimp only at h
          cases hentry : natives.entries[found.entry.toNat]? with
          | none =>
              rw [Machine.runNative_missing hentry] at h
              cases h
          | some x =>
              obtain ⟨name, native⟩ := x
              rw [Machine.runNative_eq hentry] at h
              split at h
              · cases h
              · rename_i u s hs
                refine .inr ⟨name, native, u, s, ?_, hs, ?_⟩
                · simp only [native?, Option.bind_eq_bind, Option.bind_some, hfound, hkind,
                    if_pos, hentry]
                · split at h
                  · cases h
                  · cases h
                    exact ⟨rfl, fun _ => rfl⟩
                  · rename_i htransfer
                    cases h
                    refine ⟨rfl, fun hreturned => ?_⟩
                    cases htransfer.symm.trans hreturned

/-- A round that succeeds and runs a native has run it, and it has handed control
on. -/
lemma native_eq_ok {P : Program} {natives : Natives} {c : Config} {name : String}
    {native : Native} (hnative : c.native? P natives = some (name, native))
    {call : Option MethodId} {m' : Machine} (h : c.advance P natives = .ok call m') :
    ∃ u s, native P c.machine.thread.value
        (c.machine.readied (.native name c.machine.thread.value)) = .ok u s ∧
      m' = { s with transfer := none } := by
  obtain ⟨_ | method, m⟩ := c
  · cases hnative
  · rcases dispatch_eq_ok h with ⟨hnone, -⟩ | ⟨name', native', u, s, hnative', hs, hm, -⟩
    · cases hnone.symm.trans hnative
    · cases hnative.symm.trans hnative'
      exact ⟨u, s, hs, hm⟩

/-- The next round reads no register of the frame, and no argument, past the
registers in use, and makes no object of the marker's class. -/
structure InFrame (P : Program) (natives : Natives) (c : Config) : Prop where
  load : ∀ r, c.instruction? P = some (.load r) → r.toNat < c.machine.thread.frameEnd
  create : ∀ cls base, c.instruction? P = some (.create cls base) → cls ≠ .forwarded ∧
    (P.fieldCount cls = 0 ∨ base.toNat + P.fieldCount cls ≤ c.machine.thread.frameEnd)
  native : ∀ name native, c.native? P natives = some (name, native) →
    ∀ i ∈ c.machine.argumentsRead P name, recordSize + i < c.machine.thread.frameEnd

/-- The return records that the next round reads, to leave through them or to
have a continuation leave through them, hold integers. -/
structure RecordsHoldInts (P : Program) (natives : Natives) (c : Config) : Prop where
  instruction : c.instruction? P = some .ret → ∀ call m, c.advance P natives = .ok call m →
    HoldsRecord P c.machine.thread.registers c.machine.thread.frame
  native : ∀ name native, c.native? P natives = some (name, native) →
    ∀ call m, c.advance P natives = .ok call m → ∀ i ∈ c.machine.recordsRead P name,
      HoldsRecord P c.machine.thread.registers i
  resumed : ∀ native, c.native? P natives = some ("core:resume_handler", native) →
    ∀ captured, c.machine.captured? P = some captured → minCapture ≤ captured.length →
      HoldsRecord P c.machine.thread.registers c.machine.thread.frame
  /-- The trigger returns through the last two registers of the continuation,
  unless they have been replaced. -/
  trigger : ∀ native, c.native? P natives = some ("core:resume_handler", native) →
    ∀ captured, c.machine.captured? P = some captured → minCapture < captured.length →
      ∀ call m, c.advance P natives = .ok call m →
        ∀ v ∈ captured.drop (captured.length - recordSize), v.tag = P.intClass

end Config

end EffectMachine
