/-
Which handler an effect reaches.

While a handler runs, effects pass over the record that it serves and over everything that was
installed above that record when the effect was triggered.

* `Machine.handler_of_trigger`: an effect that is triggered calls the handler looked up;
* `effects_reach_innermost_visible`: **an effect is handled by the innermost visible record**, and
  unhandled if there is none.
-/
import EffectMachine.Proofs.RunChecks
import EffectMachine.Proofs.ShieldedMachine

namespace EffectMachine

/-- Triggering an effect calls the handler that has been looked up. -/
lemma Machine.handler_of_trigger {P : Program} {m m' : Machine} {method : MethodId} {arg : Value}
    {u : Unit} (h : Machine.trigger P method arg m = .ok u m') :
    ∃ r, Context.handler P m.thread.registers method m.thread.context = .ok r ∧
      m'.thread.value = m.thread.registers.cell (r + 1) ∧ m'.transfer = some (.call method) := by
  obtain ⟨depth, r, hr, -, -, rfl⟩ := trigger_eq_ok h
  exact ⟨r, hr, rfl, rfl⟩

open Context in
/-- **An effect is handled by the innermost visible record.** In a thread whose records are well
formed, the lookup gives the greatest record that handles the effect and lies under no shield, and
finds the effect unhandled exactly if there is no such record. So an effect that is triggered
while a handler runs calls neither the handler of the record served nor one that stands between
that record and the trigger served, however many handlers run inside each other. -/
theorem effects_reach_innermost_visible {P : Program} {m : Machine} {chain : List Nat}
    (h : WellFormed P m.thread.registers m.thread.context chain) (method : MethodId) :
    (∀ r, Context.handler P m.thread.registers method m.thread.context = .ok r ↔
      IsGreatest {x | Visible P m.thread.registers chain method x} r) ∧
    (Context.handler P m.thread.registers method m.thread.context =
        .error (.unhandledEffect method) ↔
      ∀ x, ¬ Visible P m.thread.registers chain method x) ∧
    ∀ arg u m', Machine.trigger P method arg m = .ok u m' →
      ∃ r ∈ chain, m'.thread.value = m.thread.registers.cell (r + 1) ∧
        m'.transfer = some (.call method) ∧
        ∀ s ∈ chain, Synthetic m.thread.registers s → r < served m.thread.registers s ∨ s < r := by
  have hfinds := h.finds method
  refine ⟨fun r => ⟨fun hr => ?_, fun hr => ?_⟩, ⟨fun he => ?_, fun hnone => ?_⟩,
    fun arg u m' ht => ?_⟩
  · rcases hfinds with ⟨r', hr', hgreatest⟩ | ⟨he, -⟩
    · cases hr.symm.trans hr'
      exact hgreatest
    · cases hr.symm.trans he
  · rcases hfinds with ⟨r', hr', hgreatest⟩ | ⟨-, hnone⟩
    · rw [hr', hgreatest.unique hr]
    · exact absurd hr.1 (hnone r)
  · rcases hfinds with ⟨r', hr', -⟩ | ⟨-, hnone⟩
    · cases he.symm.trans hr'
    · exact hnone
  · rcases hfinds with ⟨r', -, hgreatest⟩ | ⟨he, -⟩
    · exact absurd hgreatest.1 (hnone r')
    · exact he
  · obtain ⟨r, hr, hvalue, htransfer⟩ := Machine.handler_of_trigger ht
    rcases hfinds with ⟨r', hr', hgreatest⟩ | ⟨he, -⟩
    · cases hr.symm.trans hr'
      refine ⟨r, hgreatest.1.mem, hvalue, htransfer, fun s hs hsyn => ?_⟩
      have hbetween := hgreatest.1.unshielded s hs hsyn
      omega
    · cases hr.symm.trans he

/-- Registers with handlers for `ask` at 2, 4 and 6. The one at 6 is served at 8, in a body
installed at 10 that is itself run by the handler at 4, served at 12. -/
def nestedHandlers : Registers :=
  (Cells.fresh 24).overwrite 2
    [replyProgram.int 2, ⟨⟨6⟩, 0⟩, replyProgram.int 2, ⟨⟨6⟩, 0⟩, replyProgram.int 2, ⟨⟨6⟩, 0⟩,
      replyProgram.int 2, ⟨.empty, 2⟩, replyProgram.int 2, ⟨⟨7⟩, 0⟩, replyProgram.int 2,
      ⟨.empty, 8⟩, replyProgram.int 2, ⟨⟨7⟩, 0⟩]

lemma wellFormed_nestedHandlers :
    Context.WellFormed replyProgram nestedHandlers 14 [14, 12, 10, 8, 6, 4, 2] := by
  have hchain : Context.Chain replyProgram nestedHandlers 14
      [⟨14, none⟩, ⟨12, some 4⟩, ⟨10, none⟩, ⟨8, some 6⟩, ⟨6, none⟩, ⟨4, none⟩, ⟨2, none⟩] :=
    .cons (e := ⟨14, none⟩) (by decide +kernel) (.of_plain (by decide) (by decide)) <|
    .cons (e := ⟨12, some 4⟩) (by decide +kernel)
      (.of_serving (by decide) (by decide) (by decide +kernel)) <|
    .cons (e := ⟨10, none⟩) (by decide +kernel) (.of_plain (by decide) (by decide)) <|
    .cons (e := ⟨8, some 6⟩) (by decide +kernel)
      (.of_serving (by decide) (by decide) (by decide +kernel)) <|
    .cons (e := ⟨6, none⟩) (by decide +kernel) (.of_plain (by decide) (by decide)) <|
    .cons (e := ⟨4, none⟩) (by decide +kernel) (.of_plain (by decide) (by decide)) <|
    .cons (e := ⟨2, none⟩) (by decide +kernel) (.of_plain (by decide) (by decide)) .nil
  have hnested : Nested
      [⟨14, none⟩, ⟨12, some 4⟩, ⟨10, none⟩, ⟨8, some 6⟩, ⟨6, none⟩, ⟨4, none⟩, ⟨2, none⟩] := by
    refine .cons (.of_plain (by decide) (by decide)) <|
      .cons (.of_serving (by decide) (by decide) (by decide) ?_) <|
      .cons (.of_plain (by decide) (by decide)) <|
      .cons (.of_serving (by decide) (by decide) (by decide) ?_) <|
      .cons (.of_plain (by decide) (by decide)) <|
      .cons (.of_plain (by decide) (by decide)) <|
      .cons (.of_plain (by decide) (by decide)) .nil
    · simp
    · simp
  exact hchain.wellFormed hnested

/-- The body of a handler triggers an effect again: of three handlers that implement it, the outer
one is reached, past the one being served and past the one whose own handler ran before. -/
theorem effects_reach_innermost_visible_nested :
    Context.WellFormed replyProgram nestedHandlers 14 [14, 12, 10, 8, 6, 4, 2] ∧
    Context.handler replyProgram nestedHandlers ⟨1⟩ 14 = .ok 2 ∧
    IsGreatest
      {x | Context.Visible replyProgram nestedHandlers [14, 12, 10, 8, 6, 4, 2] ⟨1⟩ x} 2 ∧
    (∀ x, ¬ Context.Visible replyProgram nestedHandlers [14, 12, 10, 8, 6, 4, 2] ⟨5⟩ x) := by
  have h := effects_reach_innermost_visible
    (m := ⟨(replyStart ⟨24, 24⟩).image, ⟨0, 18, 2, 14, .nil, nestedHandlers⟩, none⟩)
    wellFormed_nestedHandlers
  have hfound : Context.handler replyProgram nestedHandlers ⟨1⟩ 14 = .ok 2 := by decide +kernel
  exact ⟨wellFormed_nestedHandlers, hfound, ((h ⟨1⟩).1 2).mp hfound,
    (h ⟨5⟩).2.1.mp (by decide +kernel)⟩

end EffectMachine
