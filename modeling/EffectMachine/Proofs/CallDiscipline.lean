/-
The discipline of calls.

As long as no native leaves a handler, calls and returns match: the return records that are found
from the frame down are those of the calls that have been made and not yet been left. A tail call
and a native that calls another method leave them alone. Entering a context and triggering an
effect move the innermost one up, and keep what it leads to.

* `CallStack`: the frame and the pending returns, as the rounds of a run have made them;
* `Registers.ReturnChain`: return records, each in the frame that the one before leads to;
* `Config.Straight`: a round that leaves return records alone and no handler;
* `Machine.Stacked.advance_moved`: **what a straight round does to the calls**;
* `straight_run_keeps_calls`: **the records of a straight run are its pending returns**, and a
  call that is left gives its caller back the frame, the context and the registers that it had;
* `askProgram`: a body that triggers an effect, and ends in a tail call.
-/
import EffectMachine.Proofs.HandlerExits

namespace EffectMachine

open Activation (Move allRecords)

/-! ### Pending returns -/

/-- The frame of a thread, and where it returns to: frames and positions, the innermost one
first. -/
structure CallStack where
  frame : Nat
  returns : List (Nat × UInt32)

namespace CallStack

/-- A fresh thread stands in the first frame, and halts when it returns. -/
def fresh : CallStack := ⟨2, [(2, Thread.halt)]⟩

/-- A round makes a move; a call goes back to `next`. -/
def move (next : UInt32) : Move → CallStack → CallStack
  | .stay, s => s
  | .lift, s => ⟨s.frame + 2, s.returns⟩
  | .call base, s => ⟨s.frame + base, (s.frame, next) :: s.returns⟩
  | .leave, s => ⟨(s.returns.headD (0, 0)).1, s.returns.tail⟩

end CallStack

/-- Return records in frames one below the other: each frame is as far down as the record above
it says. The last record halts the thread, in the first frame. -/
inductive Registers.ReturnChain (P : Program) (rs : Registers) : Nat → List (Nat × UInt32) → Prop
  | last {frame : Nat} {depth : Int32} : rs.HoldsReturn P frame depth Thread.halt →
      (frame : Int) - depth.toInt = 2 → ReturnChain P rs frame [(2, Thread.halt)]
  | next {frame caller : Nat} {depth : Int32} {pos : UInt32} {returns : List (Nat × UInt32)} :
      rs.HoldsReturn P frame depth pos → (frame : Int) - depth.toInt = caller →
      caller + 2 ≤ frame → ReturnChain P rs caller returns →
      ReturnChain P rs frame ((caller, pos) :: returns)

namespace Config

/-- The position after the instruction that the next round executes. -/
def next (P : Program) (c : Config) : UInt32 :=
  c.machine.thread.pos + UInt32.ofNat ((c.instruction? P).elim 0 Instruction.size)

/-- The move that the next round makes, if it leaves no handler. -/
def move (P : Program) (natives : Natives) (c : Config) : Move :=
  match c.instruction? P with
  | some i => Machine.instructionMove i
  | none => ((c.native? P natives).map fun x => Machine.nativeMove x.1).getD .stay

/-- The frame and the pending returns after the rounds of a run, the latest one first. -/
def callStack (P : Program) (natives : Natives) : List Config → CallStack
  | [] => .fresh
  | c :: past => (callStack P natives past).move (c.next P) (c.move P natives)

/-- The next round does not store over the return record of its frame, and runs no native that
leaves a handler or resumes a continuation. -/
structure Straight (P : Program) (natives : Natives) (c : Config) : Prop where
  store : ∀ r, c.instruction? P = some (.store r) → 2 ≤ r.toNat
  native : ∀ name native, c.native? P natives = some (name, native) →
    name ∉ ["core:fast_abort_handler", "core:fast_resume_handler", "core:reify_handler_context",
      "core:resume_handler"]

end Config

/-! ### Calls as pending returns -/

namespace Activation

/-- Where a call returns to. -/
def destination (a : Activation) : Nat × UInt32 := (a.caller, a.pos)

/-- The calls in progress as pending returns. -/
def callStack (a : Activation) (as : List Activation) : CallStack :=
  ⟨a.frame, (a :: as).map destination⟩

/-- A move does to the pending returns what it does to the calls. -/
lemma Move.callStack_eq {move : Move} {next : UInt32} {a b : Activation}
    {as bs : List Activation} (h : move.apply next a as = b :: bs)
    (hframe : move = .leave → a.caller = b.frame) :
    b.callStack bs = (a.callStack as).move next move := by
  cases move with
  | stay =>
      cases h
      rfl
  | lift =>
      cases h
      rw [Activation.callStack, frame_lifted]
      rfl
  | call base =>
      cases h
      rfl
  | leave =>
      cases h
      rw [Activation.callStack, ← hframe rfl]
      rfl

/-- A move does nothing to the calls below the innermost one. -/
lemma Move.apply_append (move : Move) (next : UInt32) (a : Activation) (as bs : List Activation) :
    move.apply next a (as ++ bs) = move.apply next a as ++ bs := by
  cases move <;> rfl

/-- A call that makes a move goes on, perhaps with records or calls above it, or is left. -/
lemma Move.apply_self (move : Move) (next : UInt32) (a : Activation) (as : List Activation) :
    (∃ above n, move.apply next a as = above ++ { a with lifts := n } :: as) ∨
      move = .leave ∧ move.apply next a as = as := by
  cases move with
  | stay => exact .inl ⟨[], a.lifts, rfl⟩
  | lift => exact .inl ⟨[], a.lifts + 1, rfl⟩
  | call base => exact .inl ⟨[_], a.lifts, rfl⟩
  | leave => exact .inr ⟨rfl, rfl⟩

lemma Move.length_apply (move : Move) (next : UInt32) {a : Activation} {as : List Activation}
    {s : CallStack} (h : (a :: as).length = s.returns.length) :
    (move.apply next a as).length = (s.move next move).returns.length := by
  cases move with
  | leave =>
      rw [CallStack.move, List.length_tail, ← h]
      rfl
  | call base => exact congrArg (· + 1) h
  | _ => exact h

end Activation

lemma Stack.returnChain {P : Program} {rs : Registers} {a : Activation} {as : List Activation}
    (h : Stack P rs (a :: as)) (hsize : rs.size ≤ 2 ^ 31) :
    rs.ReturnChain P a.frame ((a :: as).map Activation.destination) := by
  -- what a return record says of the frame below
  have hholds : ∀ {b : Activation}, b.Held P rs → b.caller ≤ b.frame →
      rs.HoldsReturn P b.frame (Int32.ofNat (b.frame - b.caller)) b.pos ∧
        (b.frame : Int) - (Int32.ofNat (b.frame - b.caller)).toInt = b.caller := by
    intro b hheld hle
    have hroom := hheld.room
    refine ⟨⟨?_, hheld.target⟩, ?_⟩
    · rw [Machine.readInt_eq_ok]
      exact ⟨by omega, hheld.depth⟩
    · rw [Int32.toInt_ofNat_of_lt (by omega)]
      omega
  induction as generalizing a with
  | nil =>
      cases h with
      | root hbase hcaller hpos hheld =>
          have hframe : a.base ≤ a.frame := Nat.le_add_right _ _
          obtain ⟨hreturn, hdepth⟩ := hholds hheld (by omega)
          rw [hpos] at hreturn
          rw [hcaller] at hreturn hdepth
          rw [List.map_cons, List.map_nil, Activation.destination, hcaller, hpos]
          exact .last hreturn hdepth
  | cons b bs ih =>
      cases h with
      | call hcaller hbase hheld htail =>
          have hframe : a.base ≤ a.frame := Nat.le_add_right _ _
          obtain ⟨hreturn, hdepth⟩ := hholds hheld (by omega)
          rw [recordSize] at hbase
          exact .next hreturn hdepth (by omega) (hcaller ▸ ih htail)

/-! ### Straight rounds -/

namespace Config

variable {P : Program} {natives : Natives} {c : Config} {a : Activation} {as : List Activation}
  {call : Option MethodId} {m : Machine}

lemma instruction?_of_decode {m : Machine} {i : Instruction}
    (h : Instruction.decode P.code m.thread.pos.toNat = .ok i) :
    instruction? P ⟨none, m⟩ = some i := by
  rw [instruction?]
  dsimp only
  rw [h]
  rfl

/-- **A straight round makes its move.** -/
lemma Straight.advance (hint : P.fieldCount P.intClass = 0)
    (hcore : ∀ (index : Nat) x, natives.entries[index]? = some x → x ∈ coreNatives)
    (hc : c.Straight P natives) (h : c.machine.Stacked P a as)
    (hadvance : c.advance P natives = .ok call m) :
    c.machine.Moved P a as (c.next P) (c.move P natives) m ∧
      (c.move P natives = .leave → call = none) := by
  obtain ⟨_ | method, m₀⟩ := c
  · obtain ⟨i, hi, -⟩ := Machine.execute_iff.mp hadvance
    have hinstruction := instruction?_of_decode hi
    rw [next, move, hinstruction]
    exact h.execute_moved hint hadvance hi fun r hr => hc.store r (hr ▸ hinstruction)
  · have hinstruction : instruction? P ⟨some method, m₀⟩ = none := rfl
    rcases dispatch_eq_ok hadvance with
      ⟨hnone, entry, rfl⟩ | ⟨name, native, u, s, hnative, hs, rfl, hreturned⟩
    · rw [move, hinstruction, hnone]
      exact ⟨⟨h.of_thread rfl rfl rfl rfl, fun _ => .of_same rfl (.refl _ _),
        fun hleave => by cases hleave⟩, fun hleave => by cases hleave⟩
    · rw [move, hinstruction, hnative]
      obtain ⟨index, hentry⟩ := exists_entry hnative
      have hreadied : (m₀.readied (.native name m₀.thread.value)).Stacked P a as :=
        h.of_thread rfl rfl rfl rfl
      obtain ⟨⟨hstands, hfollows, hleaves⟩, htransfer⟩ := hreadied.core_moved hint
        (hcore index _ hentry) (hc.native name native hnative) hs (next P ⟨some method, m₀⟩)
      refine ⟨⟨?_, fun hroom => ⟨(hfollows hroom).size, (hfollows hroom).cell⟩, hleaves⟩,
        fun hleave => hreturned (htransfer hleave)⟩
      simp only [Option.map_some, Option.getD_some]
      generalize (Machine.nativeMove name).apply (next P ⟨some method, m₀⟩) a as = bs at hstands
      cases bs with
      | nil => exact hstands
      | cons b bs => exact Machine.Stacked.of_thread hstands rfl rfl rfl rfl

lemma Straight.moved?_eq (hc : c.Straight P natives) (m : Machine) :
    c.moved? P natives m = c.machine.moved? P m := by
  refine moved?_of_plain ?_ m
  rw [reifies, Option.any_eq_false]
  rintro ⟨name, native⟩ hnative
  have hname := hc.native name native hnative
  rw [decide_eq_false_iff_not]
  rintro rfl
  simp at hname

end Config

/-! ### Straight runs -/

namespace Config

variable {P : Program} {natives : Natives} {past : List Config} {c : Config}

/-- The calls in progress are the pending returns of the rounds so far. -/
structure Pending (P : Program) (natives : Natives) (past : List Config) (c : Config)
    (as : List Activation) : Prop where
  stands : c.Stands P as
  length : as.length = (callStack P natives past).returns.length
  calls : ∀ a bs, as = a :: bs → a.callStack bs = callStack P natives past

/-- What a straight round makes of the calls in progress, and what it leaves alone. -/
lemma Pending.round {a : Activation} {as : List Activation} (h : c.Pending P natives past (a :: as))
    (hint : P.fieldCount P.intClass = 0)
    (hcore : ∀ (index : Nat) x, natives.entries[index]? = some x → x ∈ coreNatives)
    (hc : c.Straight P natives) {c' : Config}
    (hadvance : c.advance P natives = .ok c'.call c'.machine) :
    c'.Pending P natives (c :: past) ((c.move P natives).apply (c.next P) a as) ∧
      c.machine.Moved P a as (c.next P) (c.move P natives) c'.machine := by
  obtain ⟨hmoved, hcall⟩ := hc.advance hint hcore h.stands.1 hadvance
  refine ⟨⟨⟨hmoved.stands, fun hnil => hcall (Move.eq_leave hnil)⟩, Move.length_apply _ _ h.length,
    fun b bs heq => ?_⟩, hmoved⟩
  have hstands := hmoved.stands
  rw [heq] at hstands
  rw [callStack, ← h.calls a as rfl]
  exact Move.callStack_eq heq fun hleave => (hmoved.leaves hleave).2.symm.trans hstands.frame

end Config

section Runs

variable {P : Program} {options : Options} {natives : Natives} {m₀ : Machine} {c : Config}

open Config (callStack)

/-- **The calls of a straight run are its pending returns.** -/
lemma Course.exists_pending (hint : P.fieldCount P.intClass = 0)
    (hregisters : options.registers ≤ 2 ^ 31) (hstart : Starts P options natives m₀)
    {past : List Config} (hcourse : Course P natives m₀ past c)
    (hstraight : ∀ c' ∈ past, c'.Straight P natives) : ∃ as, c.Pending P natives past as := by
  induction past generalizing c with
  | nil =>
      cases hcourse.trail
      refine ⟨[_], ⟨hstart.stacked hregisters, fun hnil => by cases hnil⟩, rfl, fun a bs heq => ?_⟩
      cases heq
      rfl
  | cons d past ih =>
      obtain ⟨hbefore, hgoing, hadvance⟩ := hcourse.exists_before
      obtain ⟨as, hd⟩ := ih hbefore fun c' hc' => hstraight c' (List.mem_cons_of_mem _ hc')
      obtain ⟨a, as, rfl, -⟩ := hd.stands.exists_stacked hgoing
      exact ⟨_, (hd.round hint (fun _ _ => hstart.mem_coreNatives) (hstraight d List.mem_cons_self)
        hadvance).1⟩

/-- **A call is in progress until it is left.** As long as there have been more pending returns
than before it, the call stands on those of its caller; when there are not, the thread has come
back. The registers of the caller below the call have stayed. -/
lemma Course.exists_called (hint : P.fieldCount P.intClass = 0)
    (hstart : Starts P options natives m₀) {since older : List Config} {q : Config}
    (hcourse : Course P natives m₀ (since ++ q :: older) c)
    (hstraight : ∀ c' ∈ since ++ q :: older, c'.Straight P natives) {b : Activation}
    {bs : List Activation} (hq : q.Pending P natives older (b :: bs)) {base : Nat}
    (hcall : q.move P natives = .call base)
    (hopen : ∀ d mid, d :: mid <:+ since → (callStack P natives older).returns.length <
      (callStack P natives (mid ++ q :: older)).returns.length) :
    ∃ as, c.Pending P natives (since ++ q :: older) as ∧
      (∀ i < q.machine.thread.frame + min q.machine.thread.frameEnd base,
        Config.carried? P natives (since ++ [q]) c.machine (q.machine.thread.registers.cell i) =
          some (c.machine.thread.registers.cell i)) ∧
      ((∃ above n, as = above ++
          ⟨q.machine.thread.frame + base, n, q.machine.thread.frame, q.next P⟩ :: b :: bs) ∨
        as = b :: bs ∧ c.machine.thread.pos = q.next P) := by
  have hcore : ∀ (index : Nat) x, natives.entries[index]? = some x → x ∈ coreNatives :=
    fun _ _ => hstart.mem_coreNatives
  have hstacked : q.machine.Stacked P b bs := hq.stands.1
  -- by induction on the rounds since the call
  induction since generalizing c with
  | nil =>
      obtain ⟨hbefore, -, hadvance⟩ := hcourse.exists_before
      have hround := hstraight q List.mem_cons_self
      obtain ⟨hpending, hmoved⟩ := hq.round hint hcore hround hadvance
      refine ⟨_, hpending, fun i hi => ?_, .inl ⟨[], 0, ?_⟩⟩
      · rw [List.nil_append, Config.carried?, Config.carried?, Option.bind_some,
          hround.moved?_eq]
        refine (hmoved.follows (hbefore.trail.heap_room hstart)).cell i ?_
        rw [hcall]
        exact hi
      · rw [hcall, Move.apply, hstacked.frame]
        rfl
  | cons d since ih =>
      obtain ⟨hbefore, hgoing, hadvance⟩ := hcourse.exists_before
      have hround := hstraight d List.mem_cons_self
      obtain ⟨as, hd, hcarried, hcalls⟩ := ih hbefore
        (fun c' hc' => hstraight c' (List.mem_cons_of_mem _ hc'))
        fun e mid hmid => hopen e mid (hmid.trans (List.suffix_cons d since))
      have hdeep := hopen d since List.suffix_rfl
      obtain ⟨above, n, hsplit⟩ := hcalls.resolve_right fun ⟨heq, _⟩ => by
        rw [← hd.length, heq, hq.length] at hdeep
        exact Nat.lt_irrefl _ hdeep
      obtain ⟨a, rest, rfl, hinner⟩ := hd.stands.exists_stacked hgoing
      obtain ⟨hpending, hmoved⟩ := hd.round hint hcore hround hadvance
      refine ⟨_, hpending, fun i hi => ?_, ?_⟩
      · -- the call, and what stands on it, lies above the registers of the caller
        have hlow : q.machine.thread.frame + base ≤ a.frame := by
          have hbase : a.base ≤ a.frame := Nat.le_add_right _ _
          cases above with
          | nil =>
              cases hsplit
              exact hbase
          | cons e above =>
              cases hsplit
              have hapart := hinner.stack.apart (List.mem_cons_self (a := a) (l := above))
              rw [Activation.frame] at hapart
              dsimp only at hapart
              omega
        rw [List.cons_append, Config.carried?, hcarried i hi, Option.bind_some, hround.moved?_eq]
        refine (hmoved.follows (hbefore.trail.heap_room hstart)).cell i ?_
        rw [hinner.frame]
        omega
      · cases above with
        | nil =>
            cases hsplit
            rcases Move.apply_self (d.move P natives) (d.next P)
              ⟨q.machine.thread.frame + base, n, q.machine.thread.frame, q.next P⟩ (b :: bs) with
              ⟨above, k, heq⟩ | ⟨hmove, heq⟩
            · exact .inl ⟨above, k, heq⟩
            · exact .inr ⟨heq, (hmoved.leaves hmove).1⟩
        | cons e above =>
            cases hsplit
            exact .inl ⟨_, n, Move.apply_append ..⟩

/-- **The records of a straight run are its pending returns.** The frame is the one that its
rounds lead to, and the return records from there on lead to the pending returns, the last of
which halts the thread. A call lays one record, that leads back to it. A round that leaves comes
to the innermost pending return. When a call has been left, its caller has its frame, its context,
its pending returns and its registers below the call back, and goes on after it. -/
theorem straight_run_keeps_calls (hint : P.fieldCount P.intClass = 0)
    (hregisters : options.registers ≤ 2 ^ 31) (hstart : Starts P options natives m₀)
    {past : List Config} (hcourse : Course P natives m₀ past c)
    (hstraight : ∀ c' ∈ past, c'.Straight P natives) :
    (c.halted = false →
      c.machine.thread.frame = (callStack P natives past).frame ∧
      c.machine.thread.registers.ReturnChain P c.machine.thread.frame
        (callStack P natives past).returns) ∧
    (∀ q older, past = q :: older →
      (∀ base, q.move P natives = .call base →
        c.machine.thread.frame = q.machine.thread.frame + base ∧
        c.machine.thread.registers.HoldsReturn P c.machine.thread.frame (Int32.ofNat base)
          (q.next P)) ∧
      (q.move P natives = .leave → (callStack P natives older).returns.head? =
        some (c.machine.thread.frame, c.machine.thread.pos))) ∧
    ∀ since q older base, past = since ++ q :: older → q.move P natives = .call base →
      (∀ d mid, d :: mid <:+ since → (callStack P natives older).returns.length <
        (callStack P natives (mid ++ q :: older)).returns.length) →
      (callStack P natives past).returns.length ≤ (callStack P natives older).returns.length →
      c.machine.thread.frame = q.machine.thread.frame ∧ c.machine.thread.pos = q.next P ∧
      c.machine.thread.context = q.machine.thread.context ∧
      (callStack P natives past).returns = (callStack P natives older).returns ∧
      ∀ i < q.machine.thread.frame + min q.machine.thread.frameEnd base,
        Config.carried? P natives (since ++ [q]) c.machine (q.machine.thread.registers.cell i) =
          some (c.machine.thread.registers.cell i) := by
  refine ⟨fun hgoing => ?_, fun q older hpast => ?_,
    fun since q older base hpast hcall hopen hleft => ?_⟩
  · obtain ⟨as, hpending⟩ := hcourse.exists_pending hint hregisters hstart hstraight
    obtain ⟨a, as, rfl, hstacked⟩ := hpending.stands.exists_stacked hgoing
    rw [← hpending.calls a as rfl, hstacked.frame]
    exact ⟨rfl, hstacked.stack.returnChain hstacked.size⟩
  · subst hpast
    obtain ⟨hbefore, hgoing, hadvance⟩ := hcourse.exists_before
    obtain ⟨as, hq⟩ := hbefore.exists_pending hint hregisters hstart
      fun c' hc' => hstraight c' (List.mem_cons_of_mem _ hc')
    obtain ⟨a, as, rfl, hstacked⟩ := hq.stands.exists_stacked hgoing
    obtain ⟨-, hmoved⟩ := hq.round hint (fun _ _ => hstart.mem_coreNatives)
      (hstraight q List.mem_cons_self) hadvance
    refine ⟨fun base hcall => ?_, fun hleave => ?_⟩
    · have hcallee : c.machine.Stacked P ⟨a.frame + base, 0, a.frame, q.next P⟩ (a :: as) := by
        have hstands := hmoved.stands
        rw [hcall] at hstands
        exact hstands
      have hframe : c.machine.thread.frame = a.frame + base := hcallee.frame
      have hreturn := hcallee.holdsReturn
      dsimp only at hreturn
      rw [hcallee.frame.symm.trans hframe, Nat.add_sub_cancel_left] at hreturn
      exact ⟨hframe.trans (by rw [hstacked.frame]), hreturn⟩
    · obtain ⟨hpos, hframe⟩ := hmoved.leaves hleave
      rw [← hq.calls a as rfl, hpos, hframe]
      rfl
  · subst hpast
    have hsuffix : q :: older <:+ c :: (since ++ q :: older) :=
      (List.suffix_append since _).trans (List.suffix_cons c _)
    obtain ⟨hbefore, hbelow⟩ := hcourse.of_suffix hsuffix
    obtain ⟨bs, hq⟩ := hbefore.exists_pending hint hregisters hstart
      fun c' hc' => hstraight c' (hbelow.mem hc')
    obtain ⟨b, bs, rfl, hcaller⟩ := hq.stands.exists_stacked
      (hcourse.going q (List.mem_append_right _ List.mem_cons_self))
    obtain ⟨as, hpending, hcarried, hcalls⟩ :=
      hcourse.exists_called hint hstart hstraight hq hcall hopen
    -- there are no more calls than before, so the call is not among them
    obtain ⟨rfl, hpos⟩ := hcalls.resolve_left fun ⟨above, n, heq⟩ => by
      rw [← hpending.length, ← hq.length, heq] at hleft
      simp only [List.length_append, List.length_cons] at hleft
      omega
    have hc : c.machine.Stacked P b bs := hpending.stands.1
    refine ⟨hc.frame.trans hcaller.frame.symm, hpos, ?_, ?_, hcarried⟩
    · rw [hc.links.eq_headD, hcaller.links.eq_headD]
    · rw [← hpending.calls b bs rfl, ← hq.calls b bs rfl]

end Runs

/-! ### A body that triggers an effect -/

namespace Config

variable {P : Program} {natives : Natives}

/-- A test for straight rounds. -/
def straight (P : Program) (natives : Natives) (c : Config) : Bool :=
  (c.instruction? P).all storesAbove &&
  (c.native? P natives).all fun (x : String × Native) => decide (x.1 ∉ Machine.leavingNatives)

lemma Straight.of_straight {c : Config} (h : c.straight P natives = true) :
    c.Straight P natives := by
  rw [straight, Bool.and_eq_true] at h
  refine ⟨fun r hr => ?_, fun name native hn => ?_⟩
  · simpa [hr, storesAbove] using h.1
  · have hname := h.2
    rw [hn, Option.all_some, decide_eq_true_eq] at hname
    exact hname

/-- Whether there have been more pending returns, ever since a configuration, than before its
round. -/
def deeper (P : Program) (natives : Natives) (older : List Config) (q : Config) :
    List Config → Bool
  | [] => true
  | _ :: mid => decide ((callStack P natives older).returns.length <
      (callStack P natives (mid ++ q :: older)).returns.length) && deeper P natives older q mid

lemma lt_of_deeper {older since : List Config} {q : Config}
    (h : deeper P natives older q since = true) {d : Config} {mid : List Config}
    (hmid : d :: mid <:+ since) : (callStack P natives older).returns.length <
      (callStack P natives (mid ++ q :: older)).returns.length := by
  induction since with
  | nil => exact absurd (List.suffix_nil.mp hmid) (List.cons_ne_nil _ _)
  | cons e since ih =>
      rw [deeper, Bool.and_eq_true, decide_eq_true_eq] at h
      rcases List.suffix_cons_iff.mp hmid with heq | hmid
      · cases heq
        exact h.1
      · exact ih h.2 hmid

end Config

/-- A program that enters a context. Its body triggers an effect, and adds to the answer in its
last call. The handler answers with what it is given. -/
def askCode : List Instruction :=
  -- at 0: the program
  [.create ⟨4⟩ 0, .store 4, .create ⟨5⟩ 0, .store 5, .create ⟨6⟩ 0, .call ⟨2⟩ 2, .ret,
  -- at 29: the body
    .natural 1, .store 4, .natural 7, .store 5, .create ⟨6⟩ 0, .call ⟨3⟩ 2, .store 2,
    .natural 35, .store 3, .create ⟨6⟩ 0, .call ⟨4⟩ 0,
  -- at 76: the handler
    .load 2, .ret]

/-- The program with its classes and methods. -/
def askProgram : Program where
  classes := #[⟨"Empty", .user, 0⟩, ⟨"ProgramInit", .user, 0⟩,
    ⟨"Continuation", .continuation, 1⟩, ⟨"Int", .int, 0⟩, ⟨"Handler", .user, 0⟩,
    ⟨"Body", .user, 0⟩, ⟨"Core", .user, 0⟩]
  methods := #[⟨"call", -4⟩, ⟨"ask", -4⟩, ⟨"enter", -4⟩, ⟨"trigger", -3⟩, ⟨"add", -2⟩]
  implementations := #[⟨⟨4⟩, ⟨1⟩, .standard, 76⟩, ⟨⟨5⟩, ⟨0⟩, .standard, 29⟩,
    ⟨⟨6⟩, ⟨2⟩, .external, 0⟩, ⟨⟨6⟩, ⟨3⟩, .external, 1⟩, ⟨⟨6⟩, ⟨4⟩, .external, 2⟩]
  externals := #["core:enter_context", "core:trigger_effect", "core:int_add"]
  code := (askCode.flatMap Instruction.encode).toArray
  builtins := { int := ⟨3⟩, continuation := ⟨2⟩ }

/-- The natives that the program names. -/
def askNatives : Natives :=
  ⟨#[("core:enter_context", CoreNatives.enterContext),
    ("core:trigger_effect", CoreNatives.triggerEffect),
    ("core:int_add", CoreNatives.arithmetic fun a b => .ok (a + b))]⟩

/-- The machine at the start of the program. -/
def askStart : Machine where
  image := .fresh askProgram ⟨64, 32⟩ (Journal.record {} (.loadedProgram 0 3 64))
  thread := ⟨0, 2, 2, 0, .nil, (Cells.fresh 32).overwrite 0
    [⟨⟨3⟩, 0⟩, .nil, ⟨⟨3⟩, 0⟩, ⟨⟨3⟩, Thread.halt⟩]⟩

lemma starts_ask : Starts askProgram ⟨64, 32⟩ askNatives askStart :=
  ⟨{}, askStart.image, rfl, rfl⟩

/-- The program calls the body in a context, whose record is laid under the return record of the
call. While the handler runs, the frame of the body is two registers up, and the body leads back
to the program. After its tail call the program goes on in its frame, outside of the context. -/
theorem straight_run_keeps_calls_ask :
    ∃ since q older c d earlier, Course askProgram askNatives askStart (since ++ q :: older) c ∧
      d :: earlier <:+ since ++ q :: older ∧ d.machine.thread.context = 8 ∧
      d.machine.thread.registers.ReturnChain askProgram d.machine.thread.frame
        [(6, 55), (2, 28), (2, Thread.halt)] ∧
      q.move askProgram askNatives = .call 2 ∧ q.machine.thread.frame = 2 ∧
      c.machine.thread.value = ⟨⟨3⟩, 42⟩ ∧ c.machine.thread.frame = 2 ∧
      c.machine.thread.pos = 28 ∧ c.machine.thread.context = 0 ∧
      c.machine.thread.registers.ReturnChain askProgram 2 [(2, Thread.halt)] := by
  have htest : Config.comesTo askProgram askNatives (fun past c =>
      past.all (Config.straight askProgram askNatives) && !c.halted &&
      decide (c.machine.thread.value = ⟨⟨3⟩, 42⟩ ∧
        (Config.callStack askProgram askNatives past).returns = [(2, Thread.halt)]) &&
      ((past[7]?).any fun d => !d.halted && decide (d.machine.thread.context = 8 ∧
        (Config.callStack askProgram askNatives (past.drop 8)).returns =
          [(6, 55), (2, 28), (2, Thread.halt)])) &&
      (past[18]?).any fun q =>
        decide (q.move askProgram askNatives = .call 2 ∧ q.machine.thread.frame = 2 ∧
          q.next askProgram = 28 ∧ q.machine.thread.context = 0 ∧
          (Config.callStack askProgram askNatives (past.drop 19)).returns = [(2, Thread.halt)]) &&
        Config.deeper askProgram askNatives (past.drop 19) q (past.take 18)) 24 askStart =
      true := by decide +kernel
  obtain ⟨past, c, hcourse, htest⟩ := Course.exists_of_comesTo htest
  simp only [Bool.and_eq_true, Bool.not_eq_true', decide_eq_true_eq, Option.any_eq_true,
    List.all_eq_true] at htest
  obtain ⟨⟨⟨⟨hall, hgoing⟩, hvalue, hreturns⟩, d, hd, hgoing', hcontext, hreturns'⟩, q, hq,
    ⟨hcall, hframe, hnext, hcontext', hreturns''⟩, hdeeper⟩ := htest
  have hstraight : ∀ c' ∈ past, c'.Straight askProgram askNatives :=
    fun c' hc' => .of_straight (hall c' hc')
  obtain ⟨hlt, rfl⟩ := List.getElem?_eq_some_iff.mp hq
  obtain ⟨hlt', rfl⟩ := List.getElem?_eq_some_iff.mp hd
  have hsplit : past = past.take 18 ++ past[18] :: past.drop 19 := by
    rw [← List.drop_eq_getElem_cons hlt, List.take_append_drop]
  have hsuffix : past[7] :: past.drop 8 <:+ past := by
    rw [← List.drop_eq_getElem_cons hlt']
    exact List.drop_suffix 7 past
  -- while the handler runs
  obtain ⟨hcourse', htail⟩ := hcourse.of_suffix (hsuffix.trans (List.suffix_cons c past))
  obtain ⟨-, hchain'⟩ := (straight_run_keeps_calls rfl (by decide) starts_ask hcourse'
    fun c' hc' => hstraight c' (htail.mem hc')).1 hgoing'
  -- after the call
  obtain ⟨hchain, -, hleft⟩ :=
    straight_run_keeps_calls rfl (by decide) starts_ask hcourse hstraight
  obtain ⟨hframe', hpos, hcontext'', -⟩ := hleft _ _ _ 2 hsplit hcall
    (fun d mid hmid => Config.lt_of_deeper hdeeper hmid) (by rw [hreturns, hreturns''])
  have hthere : c.machine.thread.frame = 2 := hframe'.trans hframe
  refine ⟨past.take 18, past[18], past.drop 19, c, past[7], past.drop 8, ?_, ?_, hcontext,
    hreturns' ▸ hchain', hcall, hframe, hvalue, hthere, hpos.trans hnext,
    hcontext''.trans hcontext', ?_⟩
  · rw [← hsplit]
    exact hcourse
  · rw [← hsplit]
    exact hsuffix
  · have hlast := (hchain hgoing).2
    rw [hthere, hreturns] at hlast
    exact hlast

end EffectMachine
