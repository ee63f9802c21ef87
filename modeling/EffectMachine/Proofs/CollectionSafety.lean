/-
Collections are safe.

Collections move objects while a program runs, and what the program holds has to
move along. A program is beside itself in lockstep, so all that it holds names
objects.

* `Machine.Keeps`: what a machine holds, in the value register, the registers in
  use, the globals and the words of the heap;
* `Value.Names`: the value names an object by its class and its first word;
* `Trail.inStep`: a machine that names no register past those in use stays in
  lockstep with itself;
* `references_safe`: **the heap is made of objects, everything the machine
  holds names one of them, and no run ends on a value that does not**.
-/
import EffectMachine.Proofs.LockstepRounds
import EffectMachine.Proofs.RunChecks

namespace EffectMachine

/-- The machine holds the value. -/
inductive Machine.Keeps (m : Machine) : Value → Prop
  | value : m.Keeps m.thread.value
  | register {i : Nat} : i < m.thread.liveEnd → m.Keeps (m.thread.registers.cell i)
  | global {v : Value} : v ∈ m.image.globals → m.Keeps v
  | word {i : Nat} : i < m.image.heap.top → m.Keeps (m.image.heap.front.cell i)

/-- The value names one of the objects, with its class and its first word, and no
other object has that word. -/
def Value.Names (L : Layout) (objects : List Object) (v : Value) : Prop :=
  v.object ∈ objects ∧
    ∀ t ∈ objects, t.1 ≤ v.offset → v.offset < t.1 + L t.2 → t = v.object

lemma Value.Sound.names_object {L : Layout} {cs : List ClassId} {v : Value} (h : v.Sound L cs)
    (hpos : 0 < L v.tag) : v.Names L (L.objects cs) := by
  have hmem := h.names hpos
  refine ⟨hmem, fun t ht hlo hhi => ?_⟩
  have hobject : v.object.1 = v.offset ∧ v.object.2 = v.tag := ⟨rfl, rfl⟩
  rcases Layout.eq_or_apart ht hmem with h | h | h
  · exact h
  · rw [hobject.1] at h
    omega
  · rw [hobject.1, hobject.2] at h
    omega

lemma Together.sound_of_keeps {P : Program} {w : World} {c : Control} {m : Machine}
    (h : Together P w c c.liveEnd m m) {v : Value} (hv : m.Keeps v) :
    v.Sound P.fieldCount w.classes₁ := by
  have hpairs : ∀ {u : Value}, w.Pairs P u u → u.Sound P.fieldCount w.classes₁ := by
    rintro u ⟨-, r, hr, -⟩
    exact hr.sound h.image₁.heap
  cases hv with
  | value => exact hpairs h.value
  | register hi => exact hpairs (h.registers _ (h.liveEnd₁ ▸ hi))
  | global hv =>
      obtain ⟨r, hr⟩ := Heap.Holds.exists_at_of_mem h.image₁.globals (Array.mem_toList_iff.mpr hv)
      exact hr.sound h.image₁.heap
  | word hi => exact h.image₁.heap.sound.words _ hi

namespace Trail

variable {P : Program} {natives : Natives} {m₀ : Machine} {past : List Config} {c : Config}

/-- A machine that names no register past those in use stays in lockstep with
itself. -/
lemma inStep (hP : P.Plain) {options : Options} (hwords : options.heapWords ≤ 2 ^ 32)
    (hstart : Starts P options natives m₀) (ht : Trail P natives m₀ past c)
    (hframe : ∀ c' ∈ past, c'.InFrame P natives) : InStep P true c c := by
  induction ht with
  | start => exact .start hP hwords hwords hstart hstart fun _ => rfl
  | @round past c call m _ hadvance ih =>
      have hc := ih fun c' hc' => hframe c' (List.mem_cons_of_mem _ hc')
      have hagrees := advance_agrees hP (fun _ _ => hstart.mem_coreNatives) hc
        (hframe c List.mem_cons_self) (.inl rfl)
      rw [hadvance] at hagrees
      exact hagrees

end Trail

/-- A round from a machine beside itself does not fail on a value that names no
object. -/
lemma InStep.dangling_eq_false {P : Program} (hP : P.Plain) {natives : Natives}
    (hcore : ∀ (index : Nat) x, natives.entries[index]? = some x → x ∈ coreNatives) {c : Config}
    (h : InStep P true c c) (hframe : c.InFrame P natives) {e : Fault} {m : Machine}
    (hadvance : c.advance P natives = .error e m) : e.dangling = false := by
  have hagrees := advance_agrees hP hcore h hframe (.inl rfl)
  rw [hadvance] at hagrees
  -- a fault about size is not about a value
  have hstarved : ∀ {e : Fault}, e.starved = true → e.dangling = false := by
    intro e he
    cases e <;> first | rfl | cases he
  rcases hagrees with he | he | he
  · exact hstarved he
  · exact hstarved he
  · exact he.2

/-- **Collections are safe.** In every configuration that a run comes through,
the frame has its return record and the registers in use exist, and the words
of the heap in use are made of objects so that everything the machine holds is
inline or names exactly one of them. So no run ends on a value that names no
object. -/
theorem references_safe {P : Program} (hP : P.Linked) (hscalars : P.InlineScalars)
    {options : Options} (hwords : options.heapWords ≤ 2 ^ 32) {natives : Natives} {m₀ : Machine}
    (hstart : Starts P options natives m₀) :
    (∀ past c, Trail P natives m₀ past c → (∀ c' ∈ past, c'.InFrame P natives) →
      2 ≤ c.machine.thread.frameEnd ∧
      c.machine.thread.liveEnd ≤ c.machine.thread.registers.size ∧
      (∃ objects : List Object,
        Layout.Partitions P.fieldCount c.machine.image.heap.top objects ∧
        ∀ v, c.machine.Keeps v → P.fieldCount v.tag = 0 ∨ v.Names P.fieldCount objects) ∧
      (c.InFrame P natives → ∀ cls offset m,
        c.advance P natives ≠ .error (.invalidReference cls offset) m)) ∧
    ((∀ past c, Course P natives m₀ past c → c.halted = false → c.InFrame P natives) →
      ∀ rounds cls offset m,
        Machine.run P natives rounds m₀ ≠ .error (.invalidReference cls offset) m) := by
  have hplain := hP.plain hscalars
  have hcore : ∀ (index : Nat) x, natives.entries[index]? = some x → x ∈ coreNatives :=
    fun _ _ => hstart.mem_coreNatives
  have hround : ∀ {past c}, Trail P natives m₀ past c → (∀ c' ∈ past, c'.InFrame P natives) →
      c.InFrame P natives → ∀ cls offset m,
      c.advance P natives ≠ .error (.invalidReference cls offset) m := by
    intro past c ht hpast hc cls offset m hadvance
    cases (ht.inStep hplain hwords hstart hpast).dangling_eq_false hplain hcore hc hadvance
  constructor
  · intro past c ht hpast
    obtain ⟨-, w, k, hsame, hk, h⟩ := ht.inStep hplain hwords hstart hpast
    have hframeEnd : c.machine.thread.frameEnd = k.frameEnd := congrArg Control.frameEnd h.control₁
    have hheap := h.image₁.heap.sound
    refine ⟨hframeEnd ▸ hk.frameEnd, h.liveEnd₁ ▸ h.size₁,
      ⟨Layout.objects P.fieldCount w.classes₁, ?_, fun v hv => ?_⟩, hround ht hpast⟩
    · rw [hheap.top]
      exact Layout.partitions_objects hheap.pos
    · rcases Nat.eq_zero_or_pos (P.fieldCount v.tag) with hzero | hpos
      · exact .inl hzero
      · exact .inr ((h.sound_of_keeps hv).names_object hpos)
  · intro hall rounds cls offset m hrun
    obtain ⟨past, c, hcourse, hc, hadvance⟩ := Machine.run_error_course .start hrun
    refine hround hcourse.trail (fun c' hc' => ?_) (hall past c hcourse hc) cls offset m hadvance
    obtain ⟨past', hcourse'⟩ := hcourse.of_mem hc'
    exact hall past' c' hcourse' (hcourse.going c' hc')

/-- A handler that answers an effect through a continuation, in a heap that has
to be collected on the way. -/
theorem references_safe_reply :
    (∃ m, Machine.run replyProgram replyNatives 60 (replyStart ⟨12, 24⟩) =
        .ok (some (replyProgram.int 40)) m ∧
      m.image.heap.stats.collections = 1 ∧
      ∃ objects : List Object,
        Layout.Partitions replyProgram.fieldCount m.image.heap.top objects ∧
        ∀ v, m.Keeps v → replyProgram.fieldCount v.tag = 0 ∨
          v.Names replyProgram.fieldCount objects) ∧
    ∀ rounds cls offset m, Machine.run replyProgram replyNatives rounds (replyStart ⟨12, 24⟩) ≠
      .error (.invalidReference cls offset) m := by
  have hcheck : Config.checkRun replyProgram replyNatives
      (fun _ c => c.InFrame replyProgram replyNatives) 60 []
      ⟨none, replyStart ⟨12, 24⟩⟩ = true := by decide +kernel
  have hall : ∀ past c, Trail replyProgram replyNatives (replyStart ⟨12, 24⟩) past c →
      c.InFrame replyProgram replyNatives :=
    fun past c ht => of_decide_eq_true (ht.of_checkRun hcheck)
  have hend : Machine.gives (Machine.run replyProgram replyNatives 60 (replyStart ⟨12, 24⟩))
      (some (replyProgram.int 40)) (·.image.heap.stats.collections = 1) = true := by
    decide +kernel
  obtain ⟨hstates, hruns⟩ := references_safe linked_reply inlineScalars_reply (by decide)
    (starts_reply ⟨12, 24⟩ (by decide))
  refine ⟨?_, hruns fun past c hcourse _ => hall past c hcourse.trail⟩
  obtain ⟨m, hrun, hcollections⟩ := Machine.exists_of_gives hend
  obtain ⟨past, hcourse, -⟩ := Machine.run_course .start hrun
  obtain ⟨-, -, hobjects, -⟩ := hstates past _ hcourse.trail fun c' hc' => by
    obtain ⟨past', hcourse'⟩ := hcourse.of_mem hc'
    exact hall past' c' hcourse'.trail
  exact ⟨m, hrun, of_decide_eq_true hcollections, hobjects⟩

end EffectMachine
