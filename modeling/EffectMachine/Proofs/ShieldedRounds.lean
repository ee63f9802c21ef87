/-
Rounds keep shields nested.

* `Machine.Shielded.core`: **every core native hands control on with shields
  nested**, if what it resumes has been captured;
* `Machine.Shielded.execute`: **every instruction keeps shields nested**, whatever
  it stores in the frame's own return record;
* `Config.ReturnsAbove`, `Config.ResumesCaptured`: a round returns to no frame below
  the first one, and resumes what has been captured;
* `Machine.Shielded.advance`: **a round keeps shields nested**.
-/
import EffectMachine.Proofs.RoundCases
import EffectMachine.Proofs.ShieldedMachine

namespace EffectMachine

namespace Machine

variable {P : Program} {m m' : Machine} {es : List Record}

namespace Shielded

/-- **Every core native hands control on with shields nested.** -/
theorem core (hint : P.fieldCount P.intClass = 0) (hempty : P.fieldCount .empty = 0)
    (h : m.Shielded P es) {name : String} {native : Native} (hcore : (name, native) ∈ coreNatives)
    (hresumes : name = "core:resume_handler" → ∀ words, m.captured? P = some words →
      ∃ d ds s c, d.Shielded P ds ∧ Captures P d ds words s c)
    {r : Value} {u : Unit} (hn : native P r m = .ok u m') : m'.Settles P := by
  cases runsCore_of_mem hcore hn with
  | enterContext enters => exact fun _ => h.enterContext hint hempty enters
  | trigger _ _ triggers => exact fun _ => h.trigger hint hempty triggers
  | abort aborts => exact h.abort aborts
  | fastResume resumes => exact h.fastResume resumes
  | reify reifies => exact fun _ => h.reify hint hempty reifies
  | resume resumes =>
      obtain ⟨htag, words, -, hwords, -⟩ := resume_iff.mp resumes
      obtain ⟨d, ds, s, c, hd, hcaptures⟩ := hresumes rfl words (by
        rw [captured?, if_pos htag, hwords]
        rfl)
      exact h.resume hint hempty hd hcaptures hwords resumes
  | integer _ returns => exact h.ret returns
  | truth _ _ returns => exact h.ret returns
  | conditional => exact fun _ => ⟨es, h.of_thread rfl rfl rfl⟩
  | arrayGet _ returns => exact h.ret returns
  | arraySet _ _ returns => exact ret (m := m.written _ _) (h.of_thread rfl rfl rfl) returns

/-- **Every instruction keeps shields nested**, if it does not return below the
first frame. -/
theorem execute (hint : P.fieldCount P.intClass = 0) (hempty : P.fieldCount .empty = 0)
    (h : m.Shielded P es) {call : Option MethodId} (he : Machine.execute P m = .ok call m')
    (hret : Instruction.decode P.code m.thread.pos.toNat = .ok .ret → call = none →
      recordSize ≤ m'.thread.frame) : ∃ es', m'.Shielded P es' := by
  obtain ⟨i, hi, he⟩ := execute_iff.mp he
  have h₁ : (m.passed i).Shielded P es := h.of_thread rfl rfl rfl
  cases he with
  | load | natural | globalLoad | globalStore | field => exact ⟨es, h₁.of_thread rfl rfl rfl⟩
  | store => exact ⟨es, h₁.calm hint hempty rfl (Nat.le_refl _)
      ((same_stored _ (Nat.le_add_right _ _) (Nat.le_add_right _ _)).keeps P)⟩
  | create _ made =>
      have hkeeps := alloc_keeps made
      exact ⟨es, h₁.calm hint hempty hkeeps.context (Nat.le_of_eq hkeeps.frame.symm)
        (hkeeps.registers _)⟩
  | ret returns => exact (h₁.returnValue returns).2 (hret hi rfl)
  | callHere => exact ⟨es, h₁⟩
  | call => exact ⟨es, h₁.calm hint hempty rfl (Nat.le_add_right _ _)
      ((same_opened P _ (Nat.le_add_right _ _) (Nat.le_add_right _ _)).keeps P)⟩

end Shielded

end Machine

/-! ### Rounds -/

namespace Config

/-- If the next round returns, then to no frame below the first one. -/
def ReturnsAbove (P : Program) (natives : Natives) (c : Config) : Prop :=
  ∀ m, c.advance P natives = .ok none m →
    c.instruction? P = some .ret ∨ (c.native? P natives).isSome → recordSize ≤ m.thread.frame

/-- If the next round resumes a continuation, the registers of that have been
captured. -/
def ResumesCaptured (P : Program) (natives : Natives) (c : Config) : Prop :=
  ∀ native, c.native? P natives = some ("core:resume_handler", native) →
    ∀ words, c.machine.captured? P = some words →
      ∃ d ds s b, Machine.Shielded P d ds ∧ d.Captures P ds words s b

end Config

/-- **A round keeps shields nested.** -/
theorem Machine.Shielded.advance {P : Program} {natives : Natives} {c : Config}
    {es : List Record} (hint : P.fieldCount P.intClass = 0) (hempty : P.fieldCount .empty = 0)
    (hcore : ∀ (index : Nat) x, natives.entries[index]? = some x → x ∈ coreNatives)
    (h : c.machine.Shielded P es) (habove : c.ReturnsAbove P natives)
    (hresumes : c.ResumesCaptured P natives) {call : Option MethodId} {m : Machine}
    (hadvance : c.advance P natives = .ok call m) : ∃ es', m.Shielded P es' := by
  obtain ⟨_ | method, m₀⟩ := c
  · refine h.execute hint hempty hadvance fun hdecode hcall => ?_
    rw [hcall] at hadvance
    refine habove m hadvance (.inl ?_)
    rw [Config.instruction?, hdecode]
    rfl
  · rcases Config.dispatch_eq_ok hadvance with
      ⟨-, entry, rfl⟩ | ⟨name, native, u, s, hnative, hs, rfl, hreturned⟩
    · exact ⟨es, h.of_thread rfl rfl rfl⟩
    · obtain ⟨index, hentry⟩ := Config.exists_entry hnative
      have hreadied : (m₀.readied (.native name m₀.thread.value)).Shielded P es :=
        h.of_thread rfl rfl rfl
      have hsettles := hreadied.core hint hempty (hcore index _ hentry)
        (fun hname => hresumes native (hname ▸ hnative)) hs
      obtain ⟨es', h'⟩ := hsettles fun htransfer => by
        rw [hreturned htransfer] at hadvance
        have hframe := habove _ hadvance (.inr (by rw [hnative]; rfl))
        exact hframe
      exact ⟨es', h'.of_thread rfl rfl rfl⟩

end EffectMachine
