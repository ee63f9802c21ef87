/-
What rounds do to the heap, and to what the machine holds.

Most rounds leave the heap as it is. One native writes an element of an array, one
instruction makes an object, and making a continuation takes two objects. A round that
stays in its frame holds nothing afterwards that was not held before, unless it is inline
or new.

* `Machine.Draws`: what a machine holds is inline, or another one holds it;
* `Config.HeapStep`: what a round has done;
* `Config.heapStep`: **every round is one of these**.
-/
import EffectMachine.Proofs.CollectionSafety
import EffectMachine.Proofs.Relocation
import EffectMachine.Proofs.ShieldedRounds

namespace EffectMachine

/-- The value is held inline, and is not the marker of a collection. -/
def Value.Inline (P : Program) (v : Value) : Prop :=
  P.fieldCount v.tag = 0 ∧ v.tag ≠ .forwarded

lemma Value.inline_int {P : Program} (hP : P.Plain) (data : UInt32) :
    Value.Inline P ⟨P.intClass, data⟩ := ⟨hP.int, hP.int_ne⟩

lemma Value.inline_empty {P : Program} (hP : P.Plain) (data : UInt32) :
    Value.Inline P ⟨.empty, data⟩ := ⟨hP.empty, show ClassId.empty ≠ .forwarded by decide⟩

namespace Machine

variable {P : Program} {m m' m'' : Machine} {u : Unit}

/-- The value is inline, or the machine holds it. -/
def Knows (P : Program) (m : Machine) (v : Value) : Prop := v.Inline P ∨ m.Keeps v

/-- What the second machine holds is inline, or the first one holds it. -/
def Draws (P : Program) (m m' : Machine) : Prop := ∀ v, m'.Keeps v → m.Knows P v

lemma Draws.trans (h : m.Draws P m') (h' : m'.Draws P m'') : m.Draws P m'' := fun v hv =>
  (h' v hv).elim .inl (h v)

/-- What a thread holds in another state, the image holding the same. -/
lemma Draws.of_thread (hheap : m'.image.heap = m.image.heap)
    (hglobals : m'.image.globals = m.image.globals) (hvalue : m.Knows P m'.thread.value)
    (hregisters : ∀ i < m'.thread.liveEnd, m.Knows P (m'.thread.registers.cell i)) :
    m.Draws P m' := by
  intro v hv
  cases hv with
  | value => exact hvalue
  | register hi => exact hregisters _ hi
  | global hv => exact .inr (.global (hglobals ▸ hv))
  | word hi =>
      rw [hheap] at hi ⊢
      exact .inr (.word hi)

/-- Control and reports are not held. -/
lemma Keeps.of_eq {v : Value} (h : m.Keeps v) (hheap : m'.image.heap = m.image.heap)
    (hglobals : m'.image.globals = m.image.globals)
    (hvalue : m'.thread.value = m.thread.value)
    (hregisters : m'.thread.registers = m.thread.registers)
    (hlive : m.thread.liveEnd ≤ m'.thread.liveEnd) : m'.Keeps v := by
  cases h with
  | value => exact hvalue ▸ .value
  | register hi => exact hregisters ▸ .register (Nat.lt_of_lt_of_le hi hlive)
  | global hv => exact .global (hglobals ▸ hv)
  | word hi =>
      rw [← hheap] at hi ⊢
      exact .word hi

/-- The frame has its return record, the innermost context record has one above it, and the
registers and words in use exist. -/
structure Settled (m : Machine) : Prop where
  frameEnd : recordSize ≤ m.thread.frameEnd
  context : m.thread.context = 0 ∨ m.thread.context + 2 * recordSize ≤ m.thread.liveEnd
  live : m.thread.liveEnd ≤ m.thread.registers.size
  room : m.image.heap.top ≤ m.image.heap.front.size

lemma Settled.frame_le (h : m.Settled) : m.thread.frame + recordSize ≤ m.thread.liveEnd :=
  Nat.add_le_add_left h.frameEnd _

lemma Settled.context_le (h : m.Settled) {r : Nat} (hr : 0 < r) (hle : r ≤ m.thread.context) :
    r + 2 * recordSize ≤ m.thread.liveEnd := by
  rcases h.context with hzero | hlive
  · omega
  · omega

/-- An argument that is read below the end of the frame is held. -/
lemma keeps_argument {i : Nat} (hi : recordSize + i < m.thread.frameEnd) :
    m.Keeps (m.argument i) := by
  refine .register ?_
  rw [Thread.liveEnd]
  omega

/-! ### Returning -/

lemma draws_returnValue {m₀ : Machine} (h : returnValue P m = .ok u m')
    (hheap : m.image.heap = m₀.image.heap) (hglobals : m.image.globals = m₀.image.globals)
    (hvalue : m₀.Knows P m.thread.value)
    (hregisters : ∀ i < m.thread.frame + recordSize, m₀.Knows P (m.thread.registers.cell i)) :
    m₀.Draws P m' := by
  obtain ⟨depth, ctx, -, -, hlo, hhi, -, rfl⟩ := returnValue_iff.mp h
  refine .of_thread hheap hglobals hvalue fun i hi => hregisters i ?_
  rw [Thread.liveEnd] at hi
  dsimp only at hi
  rw [recordSize] at *
  omega

lemma image_of_ret {v : Value} (h : ret P v m = .ok u m') : m'.image = m.image := by
  obtain ⟨-, depth, ctx, -, -, -, -, -, rfl⟩ := ret_iff.mp h
  rfl

lemma registers_of_ret {v : Value} (h : ret P v m = .ok u m') :
    m'.thread.registers = m.thread.registers := by
  obtain ⟨-, depth, ctx, -, -, -, -, -, rfl⟩ := ret_iff.mp h
  rfl

lemma draws_ret {m₀ : Machine} {v : Value} (h : ret P v m = .ok u m')
    (hheap : m.image.heap = m₀.image.heap) (hglobals : m.image.globals = m₀.image.globals)
    (hvalue : m₀.Knows P v)
    (hregisters : ∀ i < m.thread.frame + recordSize, m₀.Knows P (m.thread.registers.cell i)) :
    m₀.Draws P m' :=
  draws_returnValue (ret_eq_ok h).2 hheap hglobals hvalue hregisters

/-- A native that returns a value holds nothing new. -/
lemma Settled.draws_ret (hm : m.Settled) {v : Value} (h : ret P v m = .ok u m')
    (hvalue : m.Knows P v) : m.Draws P m' :=
  Machine.draws_ret h rfl rfl hvalue fun _ hi => .inr (.register (Nat.lt_of_lt_of_le hi hm.frame_le))

/-- So does one that goes back to a record to return from it. -/
lemma Settled.draws_refocused (hm : m.Settled) {r : Nat} (hr : 0 < r) (hle : r ≤ m.thread.context)
    {v : Value} (h : ret P v (m.refocused r) = .ok u m') (hvalue : m.Knows P v) :
    m.Draws P m' := by
  have hlive := hm.context_le hr hle
  refine Machine.draws_ret h rfl rfl hvalue fun i hi => .inr (.register ?_)
  have hframe : (m.refocused r).thread.frame = r + recordSize := rfl
  omega

/-! ### Laying records -/

/-- What the registers hold under which a record has been laid. -/
lemma Settled.knows_laid (hP : P.Plain) (hm : m.Settled) {depth : Int32} {mark : Value}
    (hmark : m.Knows P mark) (hroom : m.thread.frame + recordSize + 1 < m.thread.registers.size)
    {i : Nat} (hi : i < m.thread.frame + 2 * recordSize) :
    m.Knows P (Cells.cell (laid P m.thread depth mark) i) := by
  have hframe := hm.frame_le
  rw [recordSize] at *
  rw [laid, recordSize, Cells.cell_setIfInBounds]
  split
  · exact hmark
  · rw [Cells.cell_setIfInBounds]
    split
    · exact .inl (Value.inline_int hP _)
    · rw [Cells.cell_setIfInBounds]
      split
      · exact .inr (.register (by omega))
      · rw [Cells.cell_setIfInBounds]
        split
        · exact .inl (Value.inline_int hP _)
        · -- the four registers of the two records have been met
          simp only [Array.size_setIfInBounds] at *
          exact .inr (.register (by omega))

/-- **Entering a context** holds nothing new. -/
lemma Settled.draws_entered (hP : P.Plain) (hm : m.Settled) {depth : Int32} {handler body : Value}
    (hhandler : m.Knows P handler) (hbody : m.Knows P body)
    (hroom : m.thread.frame + recordSize + 1 < m.thread.registers.size) :
    m.Draws P (m.entered P depth handler body) := by
  refine .of_thread rfl rfl hbody fun i hi => hm.knows_laid hP hhandler hroom ?_
  rw [Thread.liveEnd] at hi
  dsimp only [entered] at hi
  omega

/-- **Triggering an effect** holds nothing new. -/
lemma Settled.draws_triggered (hP : P.Plain) (hm : m.Settled) {method : MethodId} {depth : Int32}
    {handling : Nat} {arg : Value} (harg : m.Knows P arg)
    (hhandling : Context.handler P m.thread.registers method m.thread.context = .ok handling)
    (hroom : m.thread.frame + recordSize + 1 < m.thread.registers.size) :
    m.Draws P (m.triggered P method depth handling arg) := by
  obtain ⟨hpos, hle, -⟩ := Context.handler_spec hhandling
  have hcontext := hm.context_le hpos hle
  refine .of_thread rfl rfl (.inr (.register (by rw [recordSize] at hcontext; omega)))
    fun i hi => ?_
  rw [Thread.liveEnd] at hi
  dsimp only [triggered] at hi ⊢
  rw [Cells.cell_setIfInBounds]
  split
  · exact harg
  · rename_i hne
    by_cases hlast : i < m.thread.frame + 2 * recordSize
    · exact hm.knows_laid hP (.inl (Value.inline_empty hP _)) hroom hlast
    · -- the argument has been laid where there is no register
      have hi' : i = m.thread.frame + 2 * recordSize := by
        rw [recordSize] at *
        omega
      rw [Cells.cell_eq_getD, Array.getElem?_eq_none (by omega), Option.getD_none]
      exact .inl (Value.inline_empty hP _)

/-! ### Continuations -/

/-- What a continuation has captured: the elements of the array in its first field. -/
lemma captured_eq_ok {k : Value} {words : List Value} : m.captured P k = .ok words ↔
    0 < P.fieldCount k.tag ∧ k.offset < m.image.heap.top ∧
    ∃ n, (m.image.heap.front.cell k.offset).tag.arrayLength? = some n ∧
      m.image.heap.fields (m.image.heap.front.cell k.offset) n = .ok words := by
  rw [captured, Image.field, Image.checkField, Heap.field, Heap.slot, Nat.add_zero]
  by_cases hpos : 0 < P.fieldCount k.tag
  · rw [if_pos hpos]
    by_cases htop : k.offset < m.image.heap.top
    · rw [if_pos htop]
      simp only [bind, Except.bind, Image.asArray, hpos, htop, true_and]
      cases (m.image.heap.front.cell k.offset).tag.arrayLength? with
      | none => simp
      | some n => simp
    · simp [bind, Except.bind, htop]
  · simp [bind, Except.bind, hpos]

lemma keeps_captured (hroom : m.image.heap.top ≤ m.image.heap.front.size) {k : Value}
    {words : List Value} (h : m.captured P k = .ok words) : ∀ v ∈ words, m.Keeps v := by
  intro v hv
  obtain ⟨-, -, n, -, hfields⟩ := captured_eq_ok.mp h
  obtain ⟨hend, hlen, hcells⟩ := (Heap.fields_eq_ok hroom).mp hfields
  obtain ⟨i, hi⟩ := List.getElem?_of_mem hv
  have hlt : i < n := hlen ▸ (List.getElem?_eq_some_iff.mp hi).1
  rw [hcells i hlt, Option.some.injEq] at hi
  exact hi ▸ .word (by omega)

/-- **Resuming** holds nothing new. -/
lemma Settled.draws_resume (hP : P.Plain) (hm : m.Settled) {k v : Value} (hv : m.Knows P v)
    (h : Machine.resume P k v m = .ok u m') : m.Draws P m' := by
  obtain ⟨-, words, depth, hwords, hlen, -, hroom, hret⟩ := resume_iff.mp h
  have hkeeps := keeps_captured hm.room hwords
  have hframe := hm.frame_le
  refine Machine.draws_ret hret (rfl : (grafted P words depth m).image.heap = m.image.heap) rfl hv
    fun i hi => ?_
  have hi' : i < m.thread.frame + words.length := by
    have hend : (grafted P words depth m).thread.frame =
      m.thread.frame + (words.length - 2 * recordSize) + recordSize := rfl
    rw [minCapture, recordSize] at *
    omega
  show m.Knows P (Cells.cell (overlay P m.thread words _ _) i)
  rw [overlay, Cells.cell_setIfInBounds]
  split
  · exact .inl (Value.inline_int hP _)
  · rw [Cells.cell_setIfInBounds]
    split
    · exact .inl (Value.inline_int hP _)
    · rw [Cells.cell_setIfInBounds]
      split
      · exact .inl (Value.inline_int hP _)
      · rw [Cells.cell_overwrite]
        split
        · rename_i hlaid
          rw [List.getElem?_eq_getElem (by omega), Option.getD_some]
          exact .inr (hkeeps _ (List.getElem_mem _))
        · exact .inr (.register (by omega))

/-! ### Conditionals and arrays -/

lemma keeps_field {v w : Value} {i : Nat} (h : m.image.field P v i = .ok w) : m.Keeps w := by
  rw [Image.field, Image.checkField] at h
  split at h
  · have h : m.image.heap.field v i = .ok w := h
    rw [Heap.field, Heap.slot] at h
    by_cases htop : v.offset + i < m.image.heap.top
    · rw [if_pos htop] at h
      cases h
      exact .word htop
    · rw [if_neg htop] at h
      cases h
  · cases h

lemma keeps_slice {base count : Nat} {vs : List Value}
    (h : m.thread.registers.slice base count = .ok vs)
    (hlive : count = 0 ∨ base + count ≤ m.thread.liveEnd) : ∀ v ∈ vs, m.Keeps v := by
  obtain ⟨-, hcount, hget⟩ := Registers.slice_eq_ok h
  intro v hv
  obtain ⟨i, hi⟩ := List.getElem?_of_mem hv
  have hlt : i < count := hcount ▸ (List.getElem?_eq_some_iff.mp hi).1
  cases (hget i hlt).symm.trans hi
  exact .register (by omega)

/-- **A conditional** that calls something held holds nothing new. -/
lemma Settled.draws_conditional (hm : m.Settled) {v : Value} (hv : m.Knows P v)
    (how : Option Transfer) : m.Draws P ⟨m.image, { m.thread with
      frameEnd := max m.thread.frameEnd recordSize, value := v }, how⟩ := by
  refine .of_thread rfl rfl hv fun i hi => .inr (.register ?_)
  have hend := hm.frameEnd
  rw [Thread.liveEnd] at hi ⊢
  dsimp only at hi
  omega

/-- **Writing an element of an array** holds nothing new. -/
lemma Settled.draws_arraySet (hm : m.Settled) {offset : Nat} {v : Value} (hv : m.Knows P v)
    (hr : ret P v (m.written offset v) = .ok u m') : m.Draws P m' := by
  obtain ⟨-, depth, ctx, -, -, hlo, hhi, -, rfl⟩ := ret_iff.mp hr
  have hframe := hm.frame_le
  intro w hw
  cases hw with
  | value => exact hv
  | @register j hj =>
      rw [Thread.liveEnd] at hj
      dsimp only [written] at hj hhi ⊢
      refine .inr (.register ?_)
      rw [recordSize] at *
      omega
  | global hw => exact .inr (.global hw)
  | @word j hj =>
      dsimp only [written] at hj ⊢
      rw [Heap.write, Cells.cell_setIfInBounds]
      split
      · exact hv
      · exact .inr (.word hj)

/-! ### Instructions -/

lemma draws_passed (P : Program) (m : Machine) (i : Instruction) : m.Draws P (m.passed i) :=
  fun _ hv => .inr (hv.of_eq rfl rfl rfl rfl (Nat.le_refl _))

/-- **Storing** holds nothing new. -/
lemma draws_stored (hP : P.Plain) {r : Nat}
    (hroom : m.thread.frame + r < m.thread.registers.size) : m.Draws P (m.stored r) := by
  refine .of_thread rfl rfl (.inr .value) fun i hi => ?_
  rw [Thread.liveEnd] at hi
  dsimp only [stored] at hi ⊢
  rw [Cells.cell_setIfInBounds]
  split
  · exact .inr .value
  · rw [Registers.cell_unset (Nat.le_of_lt hroom)]
    split
    · exact .inl (Value.inline_empty hP _)
    · rw [Registers.size_unset] at *
      exact .inr (.register (by rw [Thread.liveEnd]; omega))

/-- **Opening a frame** holds nothing new. -/
lemma draws_opened (hP : P.Plain) {base : Nat}
    (hroom : m.thread.frame + base + 1 < m.thread.registers.size) :
    m.Draws P (m.opened P base) := by
  refine .of_thread rfl rfl (.inr .value) fun i hi => ?_
  rw [Thread.liveEnd] at hi
  dsimp only [opened] at hi ⊢
  rw [Cells.cell_setIfInBounds]
  split
  · exact .inl (Value.inline_int hP _)
  · rw [Cells.cell_setIfInBounds]
    split
    · exact .inl (Value.inline_int hP _)
    · rw [Registers.cell_unset (by omega)]
      split
      · exact .inl (Value.inline_empty hP _)
      · -- the registers of the return record have been met
        rw [Array.size_setIfInBounds, Registers.size_unset] at *
        rw [recordSize] at hi
        exact .inr (.register (by rw [Thread.liveEnd]; omega))

end Machine

/-! ### Rounds -/

namespace Config

variable {P : Program} {natives : Natives} {c : Config} {T : Prop} {u : Unit} {m' : Machine}

/-- Whether the next round makes a continuation. -/
def reifies (P : Program) (natives : Natives) (c : Config) : Bool :=
  (c.native? P natives).any fun (x : String × Native) => x.1 = "core:reify_handler_context"

/-- What a round has done to the heap, and, if `T` holds, what the machine holds after it. There
are as many registers as before. -/
inductive HeapStep (T : Prop) (P : Program) (natives : Natives) (c : Config) (m' : Machine) : Prop
  /-- Nothing has been done to the heap. -/
  | quiet (plain : c.reifies P natives = false) (heap : m'.image.heap = c.machine.image.heap)
      (size : m'.thread.registers.size = c.machine.thread.registers.size)
      (draws : T → c.machine.Draws P m')
  /-- An element of an array has been written. -/
  | write {i : Nat} {v : Value} {native : Native}
      (set : c.native? P natives = some ("core:array_set", native))
      (index : i < P.fieldCount (c.machine.argument 0).tag)
      (heap : m'.image.heap = c.machine.image.heap.write ((c.machine.argument 0).offset + i) v)
      (size : m'.thread.registers.size = c.machine.thread.registers.size)
      (draws : T → c.machine.Draws P m' ∧ c.machine.Keeps (c.machine.argument 0))
  /-- An object has been made. -/
  | create {m₁ m₂ : Machine} {cls : ClassId} {fields : List Value} {x : Value}
      (plain : c.reifies P natives = false) (start : m₁.image.heap = c.machine.image.heap)
      (made : Machine.alloc P cls fields m₁ = .ok x m₂) (heap : m'.image.heap = m₂.image.heap)
      (size : m'.thread.registers.size = c.machine.thread.registers.size)
      (draws : T → c.machine.Draws P m₁ ∧ (∀ v ∈ fields, c.machine.Keeps v) ∧
        cls ≠ .forwarded ∧ ∀ v, m'.Keeps v → v = x ∨ m₂.Keeps v)
  /-- A continuation has been made. -/
  | reify {m₁ m₂ m'' : Machine} {s b : Nat} {vs : List Value} {array k : Value}
      (plain : c.reifies P natives = true)
      (reified : Machine.Reified P (c.machine.argument 0)
        (c.machine.readied (.native "core:reify_handler_context" c.machine.thread.value))
        m₁ m₂ m'' s b vs array k)
      (left : m' = { m'' with transfer := none })
      (draws : T → c.machine.Keeps (c.machine.argument 0) ∧ ∀ v ∈ vs, c.machine.Keeps v)

/-- What a native holds that has been run. -/
lemma draws_of_readied {m s : Machine} {e : Entry} (h : (m.readied e).Draws P s) :
    m.Draws P { s with transfer := none } := by
  intro v hv
  have hs : s.Keeps v := hv.of_eq rfl rfl rfl rfl (Nat.le_refl _)
  refine (h v hs).imp_right fun hm => ?_
  exact hm.of_eq rfl rfl rfl rfl (Nat.le_refl _)

/-- A native that makes no continuation, and leaves the heap as it is. -/
lemma HeapStep.of_readied {name : String} {native : Native} {e : Entry} {s : Machine}
    (hnative : c.native? P natives = some (name, native))
    (hname : name ≠ "core:reify_handler_context")
    (hheap : s.image.heap = (c.machine.readied e).image.heap)
    (hsize : s.thread.registers.size = (c.machine.readied e).thread.registers.size)
    (hdraws : T → (c.machine.readied e).Draws P s) :
    c.HeapStep T P natives { s with transfer := none } := by
  refine .quiet ?_ hheap hsize fun ht => draws_of_readied (hdraws ht)
  simpa [reifies, hnative] using hname

lemma HeapStep.of_ret {name : String} {native : Native} {e : Entry} {s : Machine} {v : Value}
    (hnative : c.native? P natives = some (name, native))
    (hname : name ≠ "core:reify_handler_context") (hT : T → (c.machine.readied e).Settled)
    (hr : Machine.ret P v (c.machine.readied e) = .ok u s)
    (hv : T → (c.machine.readied e).Knows P v) :
    c.HeapStep T P natives { s with transfer := none } :=
  .of_readied hnative hname (by rw [Machine.image_of_ret hr])
    (by rw [Machine.registers_of_ret hr]) fun ht => (hT ht).draws_ret hr (hv ht)

/-- **What the core natives do to the heap.** -/
lemma core_heapStep (hT : T → P.Plain ∧ c.machine.Settled ∧ c.InFrame P natives) {name : String}
    {native : Native} (hcore : (name, native) ∈ coreNatives)
    (hnative : c.native? P natives = some (name, native)) {s : Machine}
    (hn : native P c.machine.thread.value
      (c.machine.readied (.native name c.machine.thread.value)) = .ok u s) :
    c.HeapStep T P natives { s with transfer := none } := by
  have hsettled : T → (c.machine.readied (.native name c.machine.thread.value)).Settled := by
    intro ht
    obtain ⟨-, ⟨hframeEnd, hcontext, hlive, hroom⟩, -⟩ := hT ht
    exact ⟨hframeEnd, hcontext, hlive, hroom⟩
  have hkept : T → ∀ i ∈ c.machine.argumentsRead P name, c.machine.Keeps (c.machine.argument i) :=
    fun ht i hi => Machine.keeps_argument ((hT ht).2.2.native name native hnative i hi)
  have harg : T → ∀ i ∈ c.machine.argumentsRead P name, Machine.Knows P
      (c.machine.readied (.native name c.machine.thread.value)) (c.machine.argument i) :=
    fun ht i hi => .inr ((hkept ht i hi).of_eq rfl rfl rfl rfl (Nat.le_refl _))
  cases Machine.runsCore_of_mem hcore hn with
  | enterContext enters =>
      obtain ⟨-, depth, -, hroom, rfl⟩ := Machine.enterContext_eq_ok enters
      exact .of_readied hnative (by decide) rfl (Machine.same_entered P _ depth _ _).size fun ht =>
        (hsettled ht).draws_entered (hT ht).1 (harg ht 0 (.head _))
          (harg ht 1 (.tail _ (.head _))) hroom
  | trigger effect sign triggers =>
      obtain ⟨depth, handling, hhandling, -, hroom, rfl⟩ := Machine.trigger_eq_ok triggers
      refine .of_readied hnative (by decide) rfl
        (Machine.same_triggered P _ _ depth handling _).size fun ht =>
        (hsettled ht).draws_triggered (hT ht).1 (harg ht 1 ?_) hhandling hroom
      show 1 ∈ c.machine.triggerRead P
      have heffect : P.intValue (c.machine.argument 0) = _ := effect
      rw [Machine.triggerRead, heffect]
      dsimp only
      rw [if_neg sign]
      exact .tail _ (.head _)
  | abort aborts =>
      obtain ⟨s', b, hshield⟩ := Machine.exists_shield_of_abort aborts
      obtain ⟨hs, hb⟩ := Machine.shield_eq_ok.mp hshield
      have hs' := Context.synthetic_spec hs
      have hb' := Context.handling_spec hb
      rw [Machine.abort_eq hshield] at aborts
      exact .of_readied hnative (by decide) (by rw [Machine.image_of_ret aborts]; rfl)
        (by rw [Machine.registers_of_ret aborts]; rfl) fun ht =>
        (hsettled ht).draws_refocused hb'.1 (by omega) aborts (harg ht 0 (.head _))
  | fastResume resumes =>
      obtain ⟨s', hs⟩ := Machine.exists_synthetic_of_fastResume resumes
      have hs' := Context.synthetic_spec hs
      rw [Machine.fastResume_eq hs] at resumes
      exact .of_readied hnative (by decide) (by rw [Machine.image_of_ret resumes]; rfl)
        (by rw [Machine.registers_of_ret resumes]; rfl) fun ht =>
        (hsettled ht).draws_refocused (by omega) (by omega) resumes (harg ht 0 (.head _))
  | reify reifies =>
      obtain ⟨m₁, m₂, s', b, vs, array, k, hreified⟩ := Machine.reify_eq_ok reifies
      refine .reify (by simp [Config.reifies, hnative]) hreified rfl fun ht =>
        ⟨hkept ht 0 (.head _), fun v hv => ?_⟩
      obtain ⟨hs, hb⟩ := Machine.shield_eq_ok.mp hreified.shield
      have hs' := Context.synthetic_spec hs
      have hb' := Context.handling_spec hb
      have hlive := (hsettled ht).context_le hs'.1 hs'.2.1
      exact (Machine.keeps_slice hreified.slice (by omega) v hv).of_eq rfl rfl rfl rfl
        (Nat.le_refl _)
  | resume resumes =>
      obtain ⟨-, words, depth, -, -, -, -, hr⟩ := Machine.resume_iff.mp resumes
      exact .of_readied hnative (by decide) (by rw [Machine.image_of_ret hr]; rfl)
        (by rw [Machine.registers_of_ret hr, (Machine.keeps_grafted P _ words depth).size])
        fun ht => (hsettled ht).draws_resume (hT ht).1 (harg ht 1 (.tail _ (.head _))) resumes
  | integer mem returns =>
      refine .of_ret hnative ?_ hsettled returns fun ht => .inl (Value.inline_int (hT ht).1 _)
      rintro rfl
      exact absurd mem (by decide)
  | truth mem truth returns =>
      refine .of_ret hnative ?_ hsettled returns fun ht => .inl ((hT ht).1.boolean truth)
      rintro rfl
      exact absurd mem (by decide)
  | conditional mem =>
      exact .of_readied hnative (by decide) rfl rfl fun ht =>
        (hsettled ht).draws_conditional (harg ht _ mem) _
  | arrayGet held returns =>
      exact .of_ret hnative (by decide) hsettled returns fun _ => .inr (Machine.keeps_field held)
  | arraySet index reads returns =>
      have hreads : c.machine.argumentsRead P "core:array_set" = [0, 1, 2] := reads
      rw [hreads] at harg hkept
      refine .write hnative index (by rw [Machine.image_of_ret returns]; rfl)
        (by rw [Machine.registers_of_ret returns]; rfl) fun ht => ⟨?_, hkept ht 0 (by decide)⟩
      exact draws_of_readied ((hsettled ht).draws_arraySet (harg ht 2 (by decide)) returns)

lemma HeapStep.of_passed {m s : Machine} {i : Instruction}
    (hheap : s.image.heap = (m.passed i).image.heap)
    (hsize : s.thread.registers.size = (m.passed i).thread.registers.size)
    (hdraws : T → (m.passed i).Draws P s) : Config.HeapStep T P natives ⟨none, m⟩ s :=
  .quiet rfl hheap hsize fun ht => (Machine.draws_passed P m i).trans (hdraws ht)

lemma HeapStep.of_holding {m : Machine} {i : Instruction} {v : Value}
    (hv : T → (m.passed i).Knows P v) :
    Config.HeapStep T P natives ⟨none, m⟩ ((m.passed i).holding v) :=
  .of_passed rfl rfl fun ht => .of_thread rfl rfl (hv ht) fun _ hi => .inr (.register hi)

/-- **What the instructions do to the heap.** -/
lemma execute_heapStep {m : Machine}
    (hT : T → P.Plain ∧ m.Settled ∧ Config.InFrame P natives ⟨none, m⟩)
    {call : Option MethodId} (he : Machine.execute P m = .ok call m') :
    Config.HeapStep T P natives ⟨none, m⟩ m' := by
  obtain ⟨i, hi, he⟩ := Machine.execute_iff.mp he
  have hinstruction : Config.instruction? P ⟨none, m⟩ = some i := by
    rw [instruction?]
    dsimp only
    rw [hi]
    rfl
  cases he with
  | load =>
      refine .of_holding fun ht => .inr (.register ?_)
      exact Nat.add_lt_add_left ((hT ht).2.2.load _ hinstruction) _
  | store room =>
      exact .of_passed rfl (Machine.same_stored _ (Nat.zero_le _) (Nat.zero_le _)).size fun ht =>
        Machine.draws_stored (hT ht).1 room
  | natural => exact .of_holding fun ht => .inl (Value.inline_int (hT ht).1 _)
  | globalLoad held => exact .of_holding fun _ => .inr (.global (Array.mem_of_getElem? held))
  | globalStore =>
      refine .of_passed rfl rfl fun _ v hv => ?_
      cases hv with
      | value => exact .inr .value
      | register hi => exact .inr (.register hi)
      | global hv =>
          rcases Array.mem_or_eq_of_mem_setIfInBounds hv with hv | rfl
          · exact .inr (.global hv)
          · exact .inr .value
      | word hi => exact .inr (.word hi)
  | @create cls base fields v m₂ slice made =>
      have hframe := fun ht => (hT ht).2.2.create cls base hinstruction
      have hstart : (m.passed (.create cls base)).image.heap = m.image.heap := rfl
      refine .create rfl hstart made rfl ((Machine.alloc_keeps made).registers 0).size
        fun ht => ⟨Machine.draws_passed P m _, fun v hv => ?_, (hframe ht).1, fun w hw => ?_⟩
      · have hheld : (m.passed (.create cls base)).Keeps v := by
          refine Machine.keeps_slice slice ((hframe ht).2.imp_right fun hend => ?_) v hv
          exact (Nat.add_assoc ..).trans_le (Nat.add_le_add_left hend _)
        exact hheld.of_eq rfl rfl rfl rfl (Nat.le_refl _)
      · cases hw with
        | value => exact .inl rfl
        | register hi => exact .inr (.register hi)
        | global hv => exact .inr (.global hv)
        | word hi => exact .inr (.word hi)
  | field held => exact .of_holding fun _ => .inr (Machine.keeps_field held)
  | ret returns =>
      obtain ⟨himage, hregisters⟩ : m'.image = (m.passed .ret).image ∧
          m'.thread.registers = (m.passed .ret).thread.registers := by
        obtain ⟨depth, ctx, -, -, -, -, -, rfl⟩ := Machine.returnValue_iff.mp returns
        exact ⟨rfl, rfl⟩
      exact .of_passed (by rw [himage]) (by rw [hregisters]) fun ht =>
        Machine.draws_returnValue returns rfl rfl (.inr .value) fun i hi => .inr (.register
          (Nat.lt_of_lt_of_le hi (hT ht).2.1.frame_le))
  | callHere => exact .of_passed rfl rfl fun _ _ hv => .inr hv
  | call _ room =>
      exact .of_passed rfl (Machine.same_opened P _ (Nat.zero_le _) (Nat.zero_le _)).size fun ht =>
        Machine.draws_opened (hT ht).1 room

/-- **What rounds do to the heap.** -/
theorem heapStep (hcore : ∀ (index : Nat) x, natives.entries[index]? = some x → x ∈ coreNatives)
    (hT : T → P.Plain ∧ c.machine.Settled ∧ c.InFrame P natives) {call : Option MethodId}
    (hadvance : c.advance P natives = .ok call m') : c.HeapStep T P natives m' := by
  obtain ⟨_ | method, m⟩ := c
  · exact execute_heapStep hT hadvance
  · rcases dispatch_eq_ok hadvance with
      ⟨hnone, entry, rfl⟩ | ⟨name, native, u, s, hnative, hs, rfl, -⟩
    · refine .quiet (by simp only [reifies, hnone]; rfl) rfl rfl fun _ v hv => .inr ?_
      exact hv.of_eq rfl rfl rfl rfl (Nat.le_refl _)
    · obtain ⟨index, hentry⟩ := exists_entry hnative
      exact core_heapStep hT (hcore index _ hentry) hnative hs

lemma HeapStep.room (h : c.HeapStep T P natives m')
    (hroom : c.machine.image.heap.top ≤ c.machine.image.heap.front.size) :
    m'.image.heap.top ≤ m'.image.heap.front.size := by
  cases h with
  | quiet plain heap size draws => rwa [heap]
  | write set index heap size draws =>
      rw [heap, Heap.write, Array.size_setIfInBounds]
      exact hroom
  | create plain start made heap size draws =>
      rw [← start] at hroom
      rw [heap]
      exact (Machine.alloc_moved? hroom made).1
  | reify plain reified left draws =>
      rw [left]
      exact (reified.moves hroom).1

lemma HeapStep.registers_size (h : c.HeapStep T P natives m') :
    m'.thread.registers.size = c.machine.thread.registers.size := by
  cases h with
  | quiet plain heap size draws => exact size
  | write set index heap size draws => exact size
  | create plain start made heap size draws => exact size
  | reify plain reified left draws =>
      rw [left]
      exact reified.size

end Config

/-- The words in use exist in every configuration that a run comes through. -/
lemma Trail.heap_room {P : Program} {natives : Natives} {options : Options} {m₀ : Machine}
    (hstart : Starts P options natives m₀) {past : List Config} {c : Config}
    (ht : Trail P natives m₀ past c) :
    c.machine.image.heap.top ≤ c.machine.image.heap.front.size := by
  induction ht with
  | start =>
      obtain ⟨-, journal, himage, -, -⟩ := hstart.eq
      dsimp only
      rw [himage]
      exact Nat.zero_le _
  | round _ hadvance ih =>
      exact (Config.heapStep (T := False) (fun _ _ => hstart.mem_coreNatives) False.elim
        hadvance).room ih

/-- There are as many registers as the options say in every configuration that a run comes
through. -/
lemma Trail.registers_size {P : Program} {natives : Natives} {options : Options} {m₀ : Machine}
    (hstart : Starts P options natives m₀) {past : List Config} {c : Config}
    (ht : Trail P natives m₀ past c) : c.machine.thread.registers.size = options.registers := by
  induction ht with
  | start =>
      obtain ⟨-, journal, -, -, hthread⟩ := hstart.eq
      dsimp only
      rw [hthread, Cells.size_overwrite, Cells.size_fresh]
  | round _ hadvance ih =>
      exact (Config.heapStep (T := False) (fun _ _ => hstart.mem_coreNatives) False.elim
        hadvance).registers_size.trans ih

end EffectMachine
