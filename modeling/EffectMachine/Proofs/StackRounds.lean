/-
Rounds keep the stack.

A program that leaves the return records of its calls alone has a stack all along:
what it calls comes to stand on top, and what it leaves is dropped. Three natives
look for a return record at a fixed distance from a context record, so a context
that has been entered in the last call of another one must not have moved it.

* `Activation.Evolves`: what a round does to the calls in progress;
* `Machine.Follows`: registers hold what they held, where collections have put it;
* `Machine.Moved`: **what a round does that leaves no handler**, to the calls and to the
  registers below the frame;
* `Machine.Arrives`: the calls in progress when a native has handed control on;
* `Machine.Tidy`, `Config.Tidy`: a round leaves return records alone, finds them
  where it looks for them, and lays whole calls down;
* `Machine.Stacked.core`, `Machine.Stacked.execute`, `Machine.Stacked.advance`:
  **every tidy round keeps the stack**.
-/
import EffectMachine.Proofs.HeldValues
import EffectMachine.Proofs.StackGraft

namespace EffectMachine

open Activation (allRecords allRecords_cons allRecords_append mem_allRecords)

/-! ### What a round does to the calls -/

namespace Activation

/-- What a round does to the calls in progress: the innermost one lays records or
calls others, or calls are left, or records that one has laid are taken back. -/
inductive Evolves : List Activation → List Activation → Prop
  | grow {a : Activation} {as : List Activation} {n : Nat} (above : List Activation) :
      a.lifts ≤ n → Evolves (a :: as) (above ++ { a with lifts := n } :: as)
  | leave (above as : List Activation) : Evolves (above ++ as) as
  | cut {a : Activation} {as : List Activation} {n : Nat} (above : List Activation) :
      n ≤ a.lifts → Evolves (above ++ a :: as) ({ a with lifts := n } :: as)

/-- What a round does that leaves no handler: the innermost call goes on in its frame, or
lays one record, or calls a method the given number of registers up, or is left. -/
inductive Move where
  | stay
  | lift
  | call (base : Nat)
  | leave
deriving DecidableEq

/-- The calls after such a round, a new one going back to `next`. -/
def Move.apply (next : UInt32) : Move → Activation → List Activation → List Activation
  | .stay, a, as => a :: as
  | .lift, a, as => { a with lifts := a.lifts + 1 } :: as
  | .call base, a, as => ⟨a.frame + base, 0, a.frame, next⟩ :: a :: as
  | .leave, _, as => as

/-- How many registers of the frame stay as they are: those in use below the frame that is
opened. -/
def Move.untouched (frameEnd : Nat) : Move → Nat
  | .call base => min frameEnd base
  | _ => 0

lemma Move.evolves (move : Move) (next : UInt32) (a : Activation) (as : List Activation) :
    Evolves (a :: as) (move.apply next a as) := by
  cases move with
  | stay => exact .leave [] _
  | lift => exact .grow [] (Nat.le_succ _)
  | call base => exact .grow [_] (Nat.le_refl a.lifts)
  | leave => exact .leave [a] as

/-- Only a call that is left can have been the last one. -/
lemma Move.eq_leave {move : Move} {next : UInt32} {a : Activation} {as : List Activation}
    (h : move.apply next a as = []) : move = .leave := by
  cases move with
  | leave => rfl
  | _ => cases h

end Activation

namespace Machine

variable {P : Program} {m m' : Machine} {a : Activation} {as : List Activation}
  {es : List Record} {u : Unit} {next : UInt32}

/-- The registers below one of them hold what they held, where a collection has put it. -/
structure Follows (P : Program) (n : Nat) (m m' : Machine) : Prop where
  size : m'.thread.registers.size = m.thread.registers.size
  cell : ∀ i < n, m.moved? P m' (m.thread.registers.cell i) = some (m'.thread.registers.cell i)

/-- Where there has been no collection, the registers are as they were. -/
lemma Follows.of_same {n : Nat}
    (hstats : m'.image.heap.stats.collections = m.image.heap.stats.collections)
    (hsame : m.thread.registers.Same n m'.thread.registers) : m.Follows P n m' :=
  ⟨hsame.size, fun i hi => by rw [moved?, Heap.moved?_of_eq hstats, hsame.cell i hi]⟩

/-- When control has been handed on, the calls have evolved; there is none left only if
it has been handed to the caller of the outermost one. -/
def Arrives (P : Program) (as : List Activation) (m : Machine) : Prop :=
  ∃ bs, Activation.Evolves as bs ∧ m.Stands P bs ∧ (bs = [] → m.transfer = some .returned)

/-- The calls have made a move. Nothing has been written below the frame, or below one that is
opened in the registers that are in use, as long as the words in use exist. A call that has been
left leads to its caller. -/
structure Moved (P : Program) (a : Activation) (as : List Activation) (next : UInt32) (m : Machine)
    (move : Activation.Move) (m' : Machine) : Prop where
  stands : m'.Stands P (move.apply next a as)
  follows : m.image.heap.top ≤ m.image.heap.front.size →
    m.Follows P (m.thread.frame + move.untouched m.thread.frameEnd) m'
  leaves : move = .leave → m'.thread.pos = a.pos ∧ m'.thread.frame = a.caller

lemma Moved.arrives {move : Activation.Move} (h : m.Moved P a as next move m')
    (hm' : move = .leave → m'.transfer = some .returned) : m'.Arrives P (a :: as) :=
  ⟨_, move.evolves next a as, h.stands, fun hnil => hm' (Activation.Move.eq_leave hnil)⟩

namespace Stacked

/-! ### Natives that return -/

/-- A native that returns leaves a call. -/
lemma moved_ret (h : m.Stacked P a as) {v : Value} (hr : Machine.ret P v m = .ok u m')
    (next : UInt32) : m.Moved P a as next .leave m' ∧ m'.transfer = some .returned := by
  obtain ⟨hret, hstands⟩ := h.ret (ret_eq_ok hr).1 v
  cases hret.symm.trans hr
  exact ⟨⟨hstands, fun _ => .of_same rfl (.refl _ _), fun _ => ⟨rfl, rfl⟩⟩, rfl⟩

/-- Calls above may have been given up before. -/
lemma arrives_ret (h : m.Stacked P a as) {v : Value} (hr : Machine.ret P v m = .ok u m')
    (above : List Activation) : m'.Arrives P (above ++ a :: as) := by
  obtain ⟨hmoved, hm'⟩ := h.moved_ret hr 0
  refine ⟨as, ?_, hmoved.stands, fun _ => hm'⟩
  rw [← List.singleton_append, ← List.append_assoc]
  exact .leave _ _

/-- A native that returns what it has written to the heap leaves a call, too. -/
lemma moved_written (h : m.Stacked P a as) {offset : Nat} {v : Value}
    (hr : Machine.ret P v (m.written offset v) = .ok u m') (next : UInt32) :
    m.Moved P a as next .leave m' ∧ m'.transfer = some .returned := by
  have h₁ : (m.written offset v).Stacked P a as := h.of_thread rfl rfl rfl rfl
  obtain ⟨⟨hstands, -, hleaves⟩, hm'⟩ := h₁.moved_ret hr next
  refine ⟨⟨hstands, fun _ => .of_same ?_ ?_, hleaves⟩, hm'⟩
  · rw [image_of_ret hr]
    rfl
  · rw [registers_of_ret hr]
    exact .refl _ _

/-- A native that calls something in its own place keeps the frame. -/
lemma moved_conditional (h : m.Stacked P a as) (v : Value) (how : Option Transfer)
    (next : UInt32) : m.Moved P a as next .stay ⟨m.image, { m.thread with
      frameEnd := max m.thread.frameEnd recordSize, value := v }, how⟩ := by
  have h' : Stacked P ⟨m.image, { m.thread with
      frameEnd := max m.thread.frameEnd recordSize, value := v }, how⟩ a as :=
    ⟨h.stack, h.frame, Nat.le_max_right _ _, h.links, h.size⟩
  exact ⟨h', fun _ => .of_same rfl (.refl _ _), fun hleave => by cases hleave⟩

/-! ### Natives that lay a record -/

/-- **Entering a context** lays a record. -/
lemma enterContext (hint : P.fieldCount P.intClass = 0) (h : m.Stacked P a as)
    {handler body : Value} (he : Machine.enterContext P handler body m = .ok u m')
    (next : UInt32) : m.Moved P a as next .lift m' := by
  obtain ⟨-, depth, hdepth, hroom, rfl⟩ := enterContext_eq_ok he
  refine ⟨?_, fun _ => .of_same rfl (same_entered P m depth handler body),
    fun hleave => by cases hleave⟩
  exact h.lift hint hdepth hroom handler rfl rfl (Nat.le_refl _) (.refl P _ _)

/-- **Triggering an effect** lays a record. -/
lemma trigger (hint : P.fieldCount P.intClass = 0) (h : m.Stacked P a as) {method : MethodId}
    {arg : Value} (ht : Machine.trigger P method arg m = .ok u m') (next : UInt32) :
    m.Moved P a as next .lift m' := by
  obtain ⟨depth, handling, -, hdepth, hroom, rfl⟩ := trigger_eq_ok ht
  refine ⟨?_, fun _ => .of_same rfl (same_triggered P m method depth handling arg),
    fun hleave => by cases hleave⟩
  refine h.lift hint hdepth hroom ⟨.empty, UInt32.ofNat (m.thread.frame - handling)⟩ rfl rfl
    (Nat.le_succ _) ?_
  dsimp only [triggered]
  exact (Registers.Keeps.refl P _ _).set (Nat.le_refl _) arg

/-! ### Natives that leave a handler -/

/-- A record with none right above it may be gone back to, and its call left. -/
lemma arrives_refocused (h : m.Stacked P a as) {r : Nat} (hr : r ∈ m.records P)
    (hlast : r + recordSize ∉ m.records P) {v : Value}
    (hret : Machine.ret P v (m.refocused r) = .ok u m') : m'.Arrives P (a :: as) := by
  rw [h.records_eq] at hr hlast
  obtain ⟨front, b, bs, hsplit, hrb, hframe⟩ := h.stack.exists_last hr hlast
  rw [hsplit]
  exact (h.refocus hsplit hrb hframe).arrives_ret hret front

/-- **Returning to a trigger** leaves the call that triggers. -/
lemma fastResume (h : m.Stacked P a as) (hes : m.Shielded P es) {s : Nat}
    (hs : Context.synthetic P m.thread.registers m.thread.context = .ok s)
    (hlast : s + recordSize ∉ m.records P) {v : Value}
    (hr : Machine.fastResume P v m = .ok u m') : m'.Arrives P (a :: as) := by
  rw [fastResume_eq hs] at hr
  refine h.arrives_refocused ?_ hlast hr
  rcases hes.chain.exists_synthetic with herror | ⟨front, s', c, back, rfl, hs'⟩
  · cases herror.symm.trans hs
  · cases hs'.symm.trans hs
    rw [hes.records_eq]
    simp

/-- **Giving up a computation** leaves the call that is handled. -/
lemma abort (h : m.Stacked P a as) (hes : m.Shielded P es) {s c : Nat}
    (hshield : m.shield P = .ok (s, c)) (hlast : c + recordSize ∉ m.records P) {v : Value}
    (hr : Machine.abort P v m = .ok u m') : m'.Arrives P (a :: as) := by
  rw [abort_eq hshield] at hr
  exact h.arrives_refocused (hes.mem_shield hshield).2.1 hlast hr

lemma alloc (hint : P.fieldCount P.intClass = 0) (h : m.Stacked P a as) {cls : ClassId}
    {fields : List Value} {v : Value} (hm : Machine.alloc P cls fields m = .ok v m') :
    m'.Stacked P a as := by
  have hkeeps := alloc_keeps hm
  have hend : m'.thread.frameEnd = m.thread.frameEnd := by rw [(thread_of_alloc hm).2]
  exact h.calm hint hkeeps.context hkeeps.frame (hend ▸ h.frameEnd) (hkeeps.registers _)

/-- A record that stands right above another one leads to it. -/
lemma parent_above (h : m.Stacked P a as) {r : Nat} (hr : r ∈ m.records P)
    (hnext : r + recordSize ∈ m.records P) :
    Context.parent P m.thread.registers (r + recordSize) = .ok r := by
  rw [h.records_eq] at hr hnext
  have hlinks := h.links
  have hstack := h.stack
  generalize a :: as = bs at hr hnext hlinks hstack
  obtain ⟨front, b, bs, i, rfl, hi, rfl⟩ := Stack.exists_of_record hr
  have hi' := (hstack.next_record_iff hi).mp hnext
  obtain ⟨above, habove⟩ := Activation.exists_allRecords front bs hi'
  rw [habove] at hlinks
  obtain ⟨p, hp, hback⟩ := hlinks.exists_parent
  have hp' : p = b.base + recordSize * i := by
    cases hback with
    | cons => rfl
  rw [Nat.add_assoc, ← Nat.mul_add_one, hp, hp']

/-- If a continuation can be made, the return record of the handled call is where it is
looked for, unless a context has been entered in the last call of the handled one, and
no effect triggered there. -/
lemma body_clear (hint : P.fieldCount P.intClass = 0) (h : m.Stacked P a as)
    (hes : m.Shielded P es) {s c : Nat} (hshield : m.shield P = .ok (s, c))
    (hplain : c + recordSize ∈ m.records P → s = c + recordSize) {body : Value}
    (hr : Machine.reify P body m = .ok u m') :
    c + bodyRecordOffset (s - c) ∉ m.records P := by
  intro hmem
  obtain ⟨m₁, m₂, s', c', vs, array, k, hreified⟩ := reify_eq_ok hr
  cases hshield.symm.trans hreified.shield
  obtain ⟨hs, -, hcs⟩ := hes.mem_shield hshield
  rw [bodyRecordOffset] at hmem
  split at hmem
  · -- the record above the synthetic one is too close to be a return record
    rename_i hlast
    obtain ⟨depth, hdepth, hdeep, -⟩ := hreified.record
    have h₂ : m₂.Stacked P a as := by
      have h₁ : (m.capturing body).Stacked P a as := h.of_thread rfl rfl rfl rfl
      exact (h₁.alloc hint hreified.stored).alloc hint hreified.made
    have hs' : s = c + recordSize := by omega
    have hmem₂ : ∀ r ∈ m.records P, r ∈ m₂.records P := by
      rw [h.records_eq, h₂.records_eq]
      exact fun _ hr => hr
    have hparent := h₂.parent_above (hmem₂ s hs) (hmem₂ _ (by
      rw [hs']
      rwa [Nat.two_mul, ← Nat.add_assoc] at hmem))
    obtain ⟨-, hcell⟩ := readInt_eq_ok.mp hdepth
    obtain ⟨-, -, hpos, hle, heq⟩ := Context.parent_eq_ok.mp hparent
    rw [bodyRecordOffset, if_pos hlast, show c + 2 * recordSize = s + recordSize by omega] at hcell
    rw [hcell, Program.signed_int] at hpos hle heq
    rw [bodyRecordOffset, if_pos hlast, Int32.lt_iff_toInt_lt] at hdeep
    have htwo : (Int32.ofNat (2 * recordSize)).toInt = 4 := by decide
    rw [htwo] at hdeep
    rw [recordSize] at *
    omega
  · rename_i hlast
    exact hlast (by rw [hplain hmem, Nat.add_sub_cancel_left])

/-- **Making a continuation** takes back the record served, and those that its call has
laid since. -/
lemma exists_cut (hint : P.fieldCount P.intClass = 0) (h : m.Stacked P a as)
    (hes : m.Shielded P es) {body : Value} {m₁ m₂ : Machine} {s c : Nat} {vs : List Value}
    {array k : Value} (hreified : Reified P body m m₁ m₂ m' s c vs array k)
    (hbody : c + bodyRecordOffset (s - c) ∉ m.records P) :
    ∃ front b bs i, a :: as = front ++ b :: bs ∧ i < b.lifts ∧ c = b.base + recordSize * i ∧
      m'.Stacked P { b with lifts := i } bs := by
  obtain ⟨front, b, bs, i, hsplit, hi, hc, hframe⟩ := h.exists_served hes hreified.shield hbody
  refine ⟨front, b, bs, i, hsplit, hi, hc, ?_⟩
  have h₁ : (m.capturing body).Stacked P a as := h.of_thread rfl rfl rfl rfl
  have h₂ := (h₁.alloc hint hreified.stored).alloc hint hreified.made
  have hstack : Stack P m₂.thread.registers (b :: bs) :=
    (hsplit ▸ h₂.stack : Stack P _ (front ++ b :: bs)).of_append
  obtain ⟨p, hp, hcontext⟩ := hreified.enclosing
  obtain ⟨depth, hdepth, -, hregisters⟩ := hreified.record
  obtain ⟨-, hcaller⟩ := hstack.caller
  have hroom := hstack.held.room
  have hshift : 0 < bodyRecordOffset (s - c) := by
    rw [bodyRecordOffset, recordSize]
    split <;> omega
  -- the return record goes back to where the record stood
  have hdepth' : depth = Int32.ofNat (c - b.caller) + Int32.ofNat (bodyRecordOffset (s - c)) := by
    have hcell := hstack.held.depth
    rw [hframe, (readInt_eq_ok.mp hdepth).2, Program.nat] at hcell
    have hsigned := congrArg Value.signed hcell
    rw [Program.signed_int, Program.signed_int] at hsigned
    rw [hsigned, ← Int32.ofNat_add]
    exact congrArg Int32.ofNat (by omega)
  have hkeeps : m₂.thread.registers.Keeps P c m'.thread.registers := by
    rw [hregisters]
    exact (((Registers.Keeps.refl P c _).set (Nat.le_refl c) _).set (Nat.le_add_right c _) _).set
      (Nat.le_add_right c _) _
  have hheld : Activation.Held P m'.thread.registers { b with lifts := i } := by
    have hframe' : ({ b with lifts := i } : Activation).frame = c := hc.symm
    refine ⟨?_, ?_, ?_⟩ <;> rw [hframe']
    · rw [hkeeps.size]
      omega
    · rw [hregisters, Cells.cell_setIfInBounds, if_neg (by rw [recordSize]; omega),
        Cells.cell_setIfInBounds, if_neg (by omega), Cells.cell_setIfInBounds,
        if_pos ⟨rfl, by omega⟩, hdepth', Int32.add_sub_cancel, Program.nat]
    · rw [hregisters, Cells.cell_setIfInBounds, if_neg (by rw [recordSize]; omega),
        Cells.cell_setIfInBounds, if_pos ⟨rfl, by rw [Array.size_setIfInBounds]; omega⟩, ← hframe,
        hstack.held.target]
  refine h₂.cut hint hsplit hi (hreified.frame.trans hc) ?_ ?_ (hc ▸ hkeeps) hheld
  · rw [hreified.frameEnd]
    exact Nat.le_succ _
  · rw [← hc, hcontext]
    exact hp

/-- **Making a continuation** takes records back. -/
lemma reify (hint : P.fieldCount P.intClass = 0) (h : m.Stacked P a as) (hes : m.Shielded P es)
    {s c : Nat} (hshield : m.shield P = .ok (s, c))
    (hplain : c + recordSize ∈ m.records P → s = c + recordSize) {body : Value}
    (hr : Machine.reify P body m = .ok u m') : m'.Arrives P (a :: as) := by
  have hbody := h.body_clear hint hes hshield hplain hr
  obtain ⟨m₁, m₂, s', c', vs, array, k, hreified⟩ := reify_eq_ok hr
  cases hshield.symm.trans hreified.shield
  obtain ⟨front, b, bs, i, hsplit, hi, -, hcut⟩ := h.exists_cut hint hes hreified hbody
  rw [hsplit]
  exact ⟨_, .cut front (Nat.le_of_lt hi), hcut, fun hnil => by cases hnil⟩

/-- **Resuming** lays calls down, and leaves the innermost one of these. -/
lemma resume (hint : P.fieldCount P.intClass = 0) (h : m.Stacked P a as) {d : Machine}
    {a' : Activation} {as' : List Activation} {ds : List Record} (hd : d.Stacked P a' as')
    (hds : d.Shielded P ds) {words : List Value} {s c : Nat} (hmakes : d.Makes P words s c)
    {k v : Value} (hwords : m.captured P k = .ok words)
    (hr : Machine.resume P k v m = .ok u m') : m'.Arrives P (a :: as) := by
  obtain ⟨-, words', depth, hwords', -, hdepth, hroom, hret⟩ := resume_iff.mp hr
  cases hwords'.symm.trans hwords
  obtain ⟨b, bs, above, n, hgraft, hcalls⟩ := h.graft hint hd hds hmakes hdepth hroom
  obtain ⟨hret', hstands⟩ := hgraft.ret (ret_eq_ok hret).1 v
  cases hret'.symm.trans hret
  refine ⟨bs, ?_, hstands, fun _ => rfl⟩
  cases above with
  | nil =>
      cases hcalls
      exact .leave [a] as
  | cons e above =>
      cases hcalls
      exact .grow above (Nat.le_add_right _ _)

end Stacked

/-! ### Core natives -/

/-- A native that looks for a return record at a fixed distance from a context record
finds it there, and one that resumes a continuation lays whole calls down. -/
structure Tidy (P : Program) (m : Machine) (name : String) : Prop where
  abort : name = "core:fast_abort_handler" → ∀ s c, m.shield P = .ok (s, c) →
    c + recordSize ∉ m.records P
  fastResume : name = "core:fast_resume_handler" → ∀ s,
    Context.synthetic P m.thread.registers m.thread.context = .ok s →
      s + recordSize ∉ m.records P
  reify : name = "core:reify_handler_context" → ∀ s c, m.shield P = .ok (s, c) →
    c + recordSize ∈ m.records P → s = c + recordSize
  resume : name = "core:resume_handler" → ∀ words, m.captured? P = some words →
    ∃ d b bs ds s c, Stacked P d b bs ∧ d.Shielded P ds ∧ d.Makes P words s c

/-- The natives that leave a handler, or lay a continuation down. -/
def leavingNatives : List String :=
  ["core:fast_abort_handler", "core:fast_resume_handler", "core:reify_handler_context",
    "core:resume_handler"]

/-- The move that another native makes. -/
def nativeMove : String → Activation.Move
  | "core:enter_context" | "core:trigger_effect" => .lift
  | "core:if" => .stay
  | _ => .leave

/-- A native that returns an integer or a truth value leaves its own call, and no handler. -/
lemma leaves_of_mem : ∀ name ∈ integerNatives ++ truthNatives,
    name ∉ leavingNatives ∧ nativeMove name = .leave := by
  decide

/-- **Every core native that leaves no handler makes its move.** -/
theorem Stacked.core_moved (hint : P.fieldCount P.intClass = 0) (h : m.Stacked P a as)
    {name : String} {native : Native} (hcore : (name, native) ∈ coreNatives)
    (hname : name ∉ leavingNatives) {r : Value} (hn : native P r m = .ok u m') (next : UInt32) :
    m.Moved P a as next (nativeMove name) m' ∧
      (nativeMove name = .leave → m'.transfer = some .returned) := by
  -- a native that returns, and one that does not
  have hleave : ∀ {move : Activation.Move}, move = .leave →
      m.Moved P a as next .leave m' ∧ m'.transfer = some .returned →
      m.Moved P a as next move m' ∧ (move = .leave → m'.transfer = some .returned) := by
    rintro _ rfl ⟨hmoved, hm'⟩
    exact ⟨hmoved, fun _ => hm'⟩
  have hstay : ∀ {move : Activation.Move}, m.Moved P a as next move m' → move ≠ .leave →
      m.Moved P a as next move m' ∧ (move = .leave → m'.transfer = some .returned) :=
    fun hmoved hne => ⟨hmoved, fun heq => absurd heq hne⟩
  cases runsCore_of_mem hcore hn with
  | enterContext enters => exact hstay (h.enterContext hint enters next) (by decide)
  | trigger _ _ triggers => exact hstay (h.trigger hint triggers next) (by decide)
  | abort | fastResume | reify | resume => exact absurd (by decide) hname
  | integer mem returns =>
      exact hleave (leaves_of_mem name (List.mem_append_left _ mem)).2 (h.moved_ret returns next)
  | truth mem _ returns =>
      exact hleave (leaves_of_mem name (List.mem_append_right _ mem)).2 (h.moved_ret returns next)
  | conditional => exact hstay (h.moved_conditional _ _ next) (by decide)
  | arrayGet _ returns => exact hleave rfl (h.moved_ret returns next)
  | arraySet _ _ returns => exact hleave rfl (h.moved_written returns next)

/-- **Every core native keeps the stack.** -/
theorem Stacked.core (hint : P.fieldCount P.intClass = 0) (h : m.Stacked P a as)
    (hes : m.Shielded P es) {name : String} {native : Native}
    (hcore : (name, native) ∈ coreNatives) (htidy : m.Tidy P name) {r : Value}
    (hn : native P r m = .ok u m') : m'.Arrives P (a :: as) := by
  have hmoves : name ∉ leavingNatives → m'.Arrives P (a :: as) := by
    intro hname
    obtain ⟨hmoved, hm'⟩ := h.core_moved hint hcore hname hn 0
    exact hmoved.arrives hm'
  cases runsCore_of_mem hcore hn with
  | abort aborts =>
      obtain ⟨s, c, hshield⟩ := exists_shield_of_abort aborts
      exact h.abort hes hshield (htidy.abort rfl s c hshield) aborts
  | fastResume resumes =>
      obtain ⟨s, hs⟩ := exists_synthetic_of_fastResume resumes
      exact h.fastResume hes hs (htidy.fastResume rfl s hs) resumes
  | reify reifies =>
      obtain ⟨m₁, m₂, s, c, vs, array, k, hreified⟩ := reify_eq_ok reifies
      exact h.reify hint hes hreified.shield (htidy.reify rfl s c hreified.shield) reifies
  | resume resumes =>
      obtain ⟨htag, words, -, hwords, -⟩ := resume_iff.mp resumes
      obtain ⟨d, b, bs, ds, s, c, hd, hds, hmakes⟩ := htidy.resume rfl words (by
        rw [captured?, if_pos htag, hwords]
        rfl)
      exact h.resume hint hd hds hmakes hwords resumes
  | enterContext | trigger | conditional | arrayGet | arraySet => exact hmoves (by decide)
  | integer mem => exact hmoves (leaves_of_mem name (List.mem_append_left _ mem)).1
  | truth mem => exact hmoves (leaves_of_mem name (List.mem_append_right _ mem)).1

/-! ### Instructions -/

/-- Storing above the return record of the frame. -/
lemma Stacked.stored (hint : P.fieldCount P.intClass = 0) (h : m.Stacked P a as) {r : Nat}
    (hr : recordSize ≤ r) : (m.stored r).Stacked P a as :=
  h.calm hint rfl rfl (Nat.le_trans h.frameEnd (Nat.le_max_left _ _))
    ((same_stored m (Nat.add_le_add_left h.frameEnd _) (Nat.add_le_add_left hr _)).keeps P)

/-- **Opening a frame** puts a call on the stack. -/
lemma Stacked.opened (hint : P.fieldCount P.intClass = 0) (h : m.Stacked P a as) {base : Nat}
    (hbase : recordSize ≤ base)
    (hroom : m.thread.frame + base + 1 < m.thread.registers.size) :
    (m.opened P base).Stacked P ⟨m.thread.frame + base, 0, m.thread.frame, m.thread.pos⟩
      (a :: as) := by
  have hkeeps := (same_opened P m (Nat.add_le_add_left h.frameEnd _)
    (Nat.add_le_add_left hbase _)).keeps P
  have hframe := h.frame
  have hheld : Activation.Held P (m.opened P base).thread.registers
      ⟨m.thread.frame + base, 0, m.thread.frame, m.thread.pos⟩ := by
    have hcallee : (⟨m.thread.frame + base, 0, m.thread.frame, m.thread.pos⟩ : Activation).frame =
      m.thread.frame + base := rfl
    refine ⟨?_, ?_, ?_⟩ <;> rw [hcallee]
    · rw [hkeeps.size]
      exact hroom
    · dsimp only [Machine.opened]
      rw [Cells.cell_setIfInBounds, if_neg (by omega), Cells.cell_setIfInBounds,
        if_pos ⟨rfl, by rw [Registers.size_unset]; omega⟩, Nat.add_sub_cancel_left]
    · dsimp only [Machine.opened]
      rw [Cells.cell_setIfInBounds,
        if_pos ⟨rfl, by rw [Array.size_setIfInBounds, Registers.size_unset]; exact hroom⟩,
        Program.int, UInt32.toUInt32_toInt32]
  refine ⟨.call hframe ?_ hheld (h.stack.keeps hint (hframe ▸ hkeeps)), rfl,
    Nat.le_max_right _ _, ?_, ?_⟩
  · rw [← hframe]
    exact Nat.add_le_add_left hbase _
  · refine h.links.keeps hint hkeeps fun r hr => ?_
    have hbelow := (h.stack.records_below hr).2
    rw [← hframe, recordSize] at hbelow
    omega
  · exact hkeeps.size ▸ h.size

/-- The move that an instruction makes. -/
def instructionMove : Instruction → Activation.Move
  | .ret => .leave
  | .call _ base => if base = 0 then .stay else .call base.toNat
  | _ => .stay

/-- **Every instruction makes its move**, if it does not store over the return record of
its frame. -/
theorem Stacked.execute_moved (hint : P.fieldCount P.intClass = 0) (h : m.Stacked P a as)
    {call : Option MethodId} (he : Machine.execute P m = .ok call m') {i : Instruction}
    (hi : Instruction.decode P.code m.thread.pos.toNat = .ok i)
    (hstore : ∀ r, i = .store r → recordSize ≤ r.toNat) :
    m.Moved P a as (m.thread.pos + UInt32.ofNat i.size) (instructionMove i) m' ∧
      (instructionMove i = .leave → call = none) := by
  obtain ⟨j, hj, he⟩ := execute_iff.mp he
  cases hi.symm.trans hj
  have h₁ : (m.passed i).Stacked P a as := h.of_thread rfl rfl rfl rfl
  -- most instructions stay in the frame
  have hstay : ∀ {m' : Machine} {call : Option MethodId}, m'.Stacked P a as →
      (m.image.heap.top ≤ m.image.heap.front.size → m.Follows P m.thread.frame m') →
      m.Moved P a as (m.thread.pos + UInt32.ofNat i.size) .stay m' ∧
        (Activation.Move.stay = .leave → call = none) :=
    fun h' hfollows => ⟨⟨h', hfollows, fun hleave => by cases hleave⟩, fun hleave => by cases hleave⟩
  cases he with
  | load | natural | globalLoad | globalStore | field =>
      exact hstay (h₁.of_thread rfl rfl rfl rfl) fun _ => .of_same rfl (.refl _ _)
  | store =>
      exact hstay (h₁.stored hint (hstore _ rfl)) fun _ => .of_same rfl
        (same_stored _ (Nat.le_add_right _ _) (Nat.le_add_right _ _))
  | create _ made =>
      refine hstay ((h₁.alloc hint made).of_thread rfl rfl rfl rfl) fun hroom => ?_
      obtain ⟨-, hmoves⟩ := alloc_moved? (m := m.passed _) hroom made
      refine ⟨hmoves.size, fun i hi => hmoves.live i ?_ ?_⟩
      · exact Nat.lt_of_lt_of_le hi (Nat.le_add_right _ _)
      · have hheld := h₁.stack.held.room
        rw [← h₁.frame] at hheld
        exact Nat.lt_trans hi (Nat.lt_of_succ_lt hheld)
  | ret returns =>
      obtain ⟨hreturn, hstands⟩ := h₁.returnValue
      cases hreturn.symm.trans returns
      exact ⟨⟨hstands, fun _ => .of_same rfl (.refl _ _), fun _ => ⟨rfl, rfl⟩⟩, fun _ => rfl⟩
  | callHere => exact hstay h₁ fun _ => .of_same rfl (.refl _ _)
  | @call method base above room =>
      have hzero : base ≠ 0 := by
        rintro rfl
        exact absurd above (by decide)
      have hstands := h₁.opened hint above room
      rw [h₁.frame] at hstands
      rw [instructionMove, if_neg hzero]
      refine ⟨⟨hstands, fun _ => .of_same rfl ?_, fun hleave => by cases hleave⟩,
        fun hleave => by cases hleave⟩
      exact same_opened P (m.passed _) (Nat.add_le_add_left (Nat.min_le_left _ _) _)
        (Nat.add_le_add_left (Nat.min_le_right _ _) _)

/-- **Every instruction keeps the stack**, if it does not store over the return record
of its frame. -/
theorem Stacked.execute (hint : P.fieldCount P.intClass = 0) (h : m.Stacked P a as)
    {call : Option MethodId} (he : Machine.execute P m = .ok call m')
    (hstore : ∀ r, Instruction.decode P.code m.thread.pos.toNat = .ok (.store r) →
      recordSize ≤ r.toNat) :
    ∃ bs, Activation.Evolves (a :: as) bs ∧ m'.Stands P bs ∧ (bs = [] → call = none) := by
  obtain ⟨i, hi, -⟩ := execute_iff.mp he
  obtain ⟨hmoved, hcall⟩ := h.execute_moved hint he hi fun r hr => hstore r (hr ▸ hi)
  exact ⟨_, Activation.Move.evolves _ _ a as, hmoved.stands,
    fun hnil => hcall (Activation.Move.eq_leave hnil)⟩

end Machine

/-! ### Rounds -/

namespace Config

/-- The machine stands in the calls; if there is none left, no method is about to be
dispatched. -/
def Stands (P : Program) (c : Config) (as : List Activation) : Prop :=
  c.machine.Stands P as ∧ (as = [] → c.call = none)

/-- The next round leaves return records alone, finds them where it looks for them, and
lays whole calls down. -/
structure Tidy (P : Program) (natives : Natives) (c : Config) : Prop where
  store : ∀ r, c.instruction? P = some (.store r) → recordSize ≤ r.toNat
  native : ∀ name native, c.native? P natives = some (name, native) → c.machine.Tidy P name

end Config

/-- **A tidy round keeps the stack.** -/
theorem Machine.Stacked.advance {P : Program} {natives : Natives} {c : Config}
    {a : Activation} {as : List Activation} {es : List Record}
    (hint : P.fieldCount P.intClass = 0)
    (hcore : ∀ (index : Nat) x, natives.entries[index]? = some x → x ∈ coreNatives)
    (h : c.machine.Stacked P a as) (hes : c.machine.Shielded P es) (htidy : c.Tidy P natives)
    {call : Option MethodId} {m : Machine} (hadvance : c.advance P natives = .ok call m) :
    ∃ bs, Activation.Evolves (a :: as) bs ∧ Config.Stands P ⟨call, m⟩ bs := by
  obtain ⟨_ | method, m₀⟩ := c
  · obtain ⟨bs, hevolves, hstands, hnil⟩ := h.execute hint hadvance fun r hdecode =>
      htidy.store r (by
        rw [Config.instruction?, hdecode]
        rfl)
    exact ⟨bs, hevolves, hstands, hnil⟩
  · rcases Config.dispatch_eq_ok hadvance with
      ⟨-, entry, rfl⟩ | ⟨name, native, u, s, hnative, hs, rfl, hreturned⟩
    · exact ⟨a :: as, .leave [] _, h.of_thread rfl rfl rfl rfl, fun hnil => by cases hnil⟩
    · obtain ⟨index, hentry⟩ := Config.exists_entry hnative
      have hreadied : (m₀.readied (.native name m₀.thread.value)).Stacked P a as :=
        h.of_thread rfl rfl rfl rfl
      have hshielded : (m₀.readied (.native name m₀.thread.value)).Shielded P es :=
        hes.of_thread rfl rfl rfl
      obtain ⟨habort, hfast, hreify, hresume⟩ := htidy.native name native hnative
      obtain ⟨bs, hevolves, hstands, hnil⟩ := hreadied.core hint hshielded (hcore index _ hentry)
        ⟨habort, hfast, hreify, hresume⟩ hs
      refine ⟨bs, hevolves, ?_, fun h => hreturned (hnil h)⟩
      cases bs with
      | nil => exact hstands
      | cons b bs => exact Stacked.of_thread hstands rfl rfl rfl rfl

end EffectMachine
