/-
The sizes of a machine.

A run keeps as many registers and as many globals as it has started with, and no frame has less
than its return record in use. Natives are not bound to this by their type, so it is asked of
them; the core natives comply.

* `Machine.Fits`: the registers and the globals are as many as they should be;
* `Machine.Fits.execute`, `Machine.Fits.core`: **every instruction and every core native keeps it
  so**;
* `Native.KeepsSizes`, `Registry.KeepsSizes`: other natives that do;
* `Trail.fits`: **so all configurations of a run fit**.
-/
import EffectMachine.Proofs.HeldValues

namespace EffectMachine

namespace Machine

/-- The machine has the given number of registers and all globals of the program, and the return
record of the frame is in use. -/
structure Fits (P : Program) (size : Nat) (m : Machine) : Prop where
  registers : m.thread.registers.size = size
  globals : m.image.globals.size = P.globalCount.toNat
  frameEnd : recordSize ≤ m.thread.frameEnd

variable {P : Program} {m m' : Machine} {size : Nat} {u : Unit}

/-! ### Operations -/

namespace Fits

/-- A machine fits as far as another one of the same sizes does. -/
lemma of_sizes (h : m.Fits P size)
    (hregisters : m'.thread.registers.size = m.thread.registers.size)
    (hglobals : m'.image.globals.size = m.image.globals.size)
    (hframeEnd : recordSize ≤ m'.thread.frameEnd) : m'.Fits P size :=
  ⟨hregisters.trans h.registers, hglobals.trans h.globals, hframeEnd⟩

lemma returnValue (h : m.Fits P size) (hr : Machine.returnValue P m = .ok u m') :
    m'.Fits P size := by
  obtain ⟨depth, ctx, -, -, -, -, -, rfl⟩ := returnValue_iff.mp hr
  exact h.of_sizes rfl rfl (Nat.le_max_right _ _)

lemma ret (h : m.Fits P size) {v : Value} (hr : Machine.ret P v m = .ok u m') :
    m'.Fits P size := by
  obtain ⟨-, depth, ctx, -, -, -, -, -, rfl⟩ := ret_iff.mp hr
  exact h.of_sizes rfl rfl (Nat.le_max_right _ _)

/-- An allocation gives the globals and the registers back, each where it was. -/
lemma alloc (h : m.Fits P size) {cls : ClassId} {fields : List Value} {v : Value}
    (ha : Machine.alloc P cls fields m = .ok v m') : m'.Fits P size := by
  have hthread := (thread_of_alloc ha).2
  have hregisters := ((alloc_keeps ha).registers 0).size
  obtain ⟨-, ws, ha, -⟩ := alloc_eq_ok ha
  refine h.of_sizes hregisters ?_ ?_
  · rcases Heap.alloc_alike ha with heq | ⟨vs, hvs, heq⟩
    · rw [(Prod.mk.inj heq).1]
    · have hlen := hvs.length_eq
      rw [(Prod.mk.inj heq).1]
      simp only [Roots.pair, Roots.array, List.length_append, Array.length_toList] at hlen ⊢
      rw [List.size_toArray, List.length_take]
      omega
  · rw [hthread]
    exact h.frameEnd

/-- **Every instruction keeps sizes.** -/
theorem execute (h : m.Fits P size) {call : Option MethodId}
    (he : Machine.execute P m = .ok call m') : m'.Fits P size := by
  obtain ⟨i, -, he⟩ := execute_iff.mp he
  have h₁ : (m.passed i).Fits P size := h.of_sizes rfl rfl h.frameEnd
  cases he with
  | load | natural | globalLoad | field => exact h₁.of_sizes rfl rfl h₁.frameEnd
  | store =>
      exact h₁.of_sizes (same_stored _ (Nat.zero_le _) (Nat.zero_le _)).size rfl
        (h₁.frameEnd.trans (Nat.le_max_left _ _))
  | globalStore => exact h₁.of_sizes rfl (Array.size_setIfInBounds ..) h₁.frameEnd
  | create _ made =>
      have h₂ := h₁.alloc made
      exact h₂.of_sizes rfl rfl h₂.frameEnd
  | ret returns => exact h₁.returnValue returns
  | callHere => exact h₁
  | call =>
      exact h₁.of_sizes (same_opened P _ (Nat.zero_le _) (Nat.zero_le _)).size rfl
        (Nat.le_max_right _ _)

/-- **Every core native keeps sizes.** -/
theorem core (h : m.Fits P size) {name : String} {native : Native}
    (hcore : (name, native) ∈ coreNatives) {receiver : Value}
    (hn : native P receiver m = .ok u m') : m'.Fits P size := by
  cases runsCore_of_mem hcore hn with
  | enterContext enters =>
      obtain ⟨-, depth, -, -, rfl⟩ := enterContext_eq_ok enters
      exact h.of_sizes (same_entered P m depth _ _).size rfl (Nat.le_refl _)
  | trigger _ _ triggers =>
      obtain ⟨depth, handling, -, -, -, rfl⟩ := trigger_eq_ok triggers
      exact h.of_sizes (same_triggered P m _ depth handling _).size rfl (Nat.le_succ _)
  | abort aborts =>
      obtain ⟨s, b, hshield⟩ := exists_shield_of_abort aborts
      rw [abort_eq hshield] at aborts
      exact ret (m := m.refocused _) (h.of_sizes rfl rfl h.frameEnd) aborts
  | fastResume resumes =>
      obtain ⟨s, hs⟩ := exists_synthetic_of_fastResume resumes
      rw [fastResume_eq hs] at resumes
      exact ret (m := m.refocused _) (h.of_sizes rfl rfl h.frameEnd) resumes
  | reify reifies =>
      obtain ⟨m₁, m₂, s, b, vs, array, k, hreified⟩ := reify_eq_ok reifies
      have hcapturing : (m.capturing (m.argument 0)).Fits P size := h.of_sizes rfl rfl h.frameEnd
      have h₂ : m₂.Fits P size := (hcapturing.alloc hreified.stored).alloc hreified.made
      refine h₂.of_sizes ?_ (by rw [hreified.image.2]) ?_
      · rw [hreified.size, h.registers, h₂.registers]
      · rw [hreified.frameEnd]
        exact Nat.le_succ _
  | resume resumes =>
      obtain ⟨-, words, depth, -, -, -, -, hr⟩ := resume_iff.mp resumes
      exact ret (m := grafted P words depth _)
        (h.of_sizes (keeps_grafted P _ words depth).size rfl (Nat.le_refl _)) hr
  | integer _ returns => exact h.ret returns
  | truth _ _ returns => exact h.ret returns
  | conditional => exact h.of_sizes rfl rfl (Nat.le_max_right _ _)
  | arrayGet _ returns => exact h.ret returns
  | arraySet _ _ returns =>
      exact ret (m := m.written _ _) (h.of_sizes rfl rfl h.frameEnd) returns

end Fits

end Machine

/-! ### Natives -/

/-- The native keeps the sizes of the machine. -/
def Native.KeepsSizes (P : Program) (native : Native) : Prop :=
  ∀ ⦃size receiver m u m'⦄, native P receiver m = .ok u m' → m.Fits P size → m'.Fits P size

/-- All natives of the registry do. -/
def Registry.KeepsSizes (P : Program) (registry : Registry) : Prop :=
  ∀ x ∈ registry.entries, Native.KeepsSizes P x.2

theorem Registry.keepsSizes_core (P : Program) : Registry.core.KeepsSizes P :=
  fun _ hx _ _ _ _ _ hn h => h.core (Registry.mem_core hx) hn

/-! ### Runs -/

lemma Config.fits_advance {P : Program} {natives : Natives} {c : Config} {size : Nat}
    (hnatives : ∀ (index : Nat) x, natives.entries[index]? = some x → Native.KeepsSizes P x.2)
    (h : c.machine.Fits P size) {call : Option MethodId} {m' : Machine}
    (hadvance : c.advance P natives = .ok call m') : m'.Fits P size := by
  obtain ⟨_ | method, m⟩ := c
  · exact h.execute hadvance
  · rcases dispatch_eq_ok hadvance with
      ⟨-, entry, rfl⟩ | ⟨name, native, u, s, hnative, hs, rfl, -⟩
    · exact h.of_sizes rfl rfl h.frameEnd
    · obtain ⟨index, hentry⟩ := exists_entry hnative
      have hreadied : (m.readied (.native name m.thread.value)).Fits P size :=
        h.of_sizes rfl rfl h.frameEnd
      have hfits := hnatives index _ hentry hs hreadied
      exact hfits.of_sizes rfl rfl hfits.frameEnd

/-- **All configurations of a run have the sizes with which it starts.** -/
theorem Trail.fits {P : Program} {natives : Natives} {m₀ : Machine} {size : Nat}
    (hnatives : ∀ (index : Nat) x, natives.entries[index]? = some x → Native.KeepsSizes P x.2)
    (hstart : m₀.Fits P size) {past : List Config} {c : Config}
    (ht : Trail P natives m₀ past c) : c.machine.Fits P size := by
  induction ht with
  | start => exact hstart
  | round _ hadvance ih => exact Config.fits_advance hnatives ih hadvance

end EffectMachine
