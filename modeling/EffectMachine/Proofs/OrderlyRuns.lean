/-
Runs that keep a stack.

A program that stores nothing over the return records of its calls, and resumes
continuations as they were made, keeps a stack, as long as no return record has been
moved from where a native looks for it. Looking back from a context record, the stack
still shows the call that laid it.

* `Config.Orderly`: what a round does that keeps the stack, in terms of registers and
  of the configurations before;
* `Activation.Covers`: a call of which more records are in place than it had laid once;
* `Config.Tracks`: the calls in progress, with those that laid the records in place;
* `Course.exists_tracks`: **the stack of an orderly run shows the call that laid a
  record**.
-/
import EffectMachine.Proofs.StackRounds

namespace EffectMachine

open Activation (allRecords allRecords_cons allRecords_append mem_allRecords)

/-! ### Orderly rounds -/

/-- The next round does not store over the return record of its frame. If it gives up a
computation, returns to a trigger or makes a continuation, no context record stands
where it looks for a return record. If it resumes a continuation, an earlier round has
made that: its words are the registers captured then, except for where objects lie, and
no context record stood over the return record of the trigger. -/
structure Config.Orderly (P : Program) (natives : Natives) (past : List Config) (c : Config) :
    Prop where
  store : ∀ r, c.instruction? P = some (.store r) → 2 ≤ r.toNat
  abort : ∀ native, c.native? P natives = some ("core:fast_abort_handler", native) →
    ∀ s b, c.machine.shield P = .ok (s, b) → b + 2 ∉ c.machine.records P
  fastResume : ∀ native, c.native? P natives = some ("core:fast_resume_handler", native) →
    ∀ s, Context.synthetic P c.machine.thread.registers c.machine.thread.context = .ok s →
      s + 2 ∉ c.machine.records P
  reify : ∀ native, c.native? P natives = some ("core:reify_handler_context", native) →
    ∀ s b, c.machine.shield P = .ok (s, b) → b + 2 ∈ c.machine.records P → s = b + 2
  resume : ∀ native, c.native? P natives = some ("core:resume_handler", native) →
    ∀ words, c.machine.captured? P = some words →
      ∃ d ∈ past, (∃ native', d.native? P natives =
          some ("core:reify_handler_context", native')) ∧
        ∃ s b vs, d.machine.shield P = .ok (s, b) ∧
          d.machine.thread.registers.slice b (s + 4 - b) = .ok vs ∧
          List.Forall₂ (Value.Alike P) vs words ∧ s + 2 ∉ d.machine.records P

/-- The native of a name is the core native of that name. -/
lemma eq_reify_of_mem {native : Native}
    (h : ("core:reify_handler_context", native) ∈ coreNatives) : native = CoreNatives.reify := by
  simpa [coreNatives] using h

/-- A machine has taken a round in each configuration that it has come through. -/
lemma Trail.exists_advance {P : Program} {natives : Natives} {m₀ : Machine} {past : List Config}
    {c d : Config} (ht : Trail P natives m₀ past c) (hd : d ∈ past) :
    ∃ call m, d.advance P natives = .ok call m := by
  induction ht with
  | start => cases hd
  | round _ hadvance ih =>
      rcases List.mem_cons.mp hd with rfl | hd
      · exact ⟨_, _, hadvance⟩
      · exact ih hd

namespace Config

variable {P : Program} {natives : Natives} {c d : Config} {a : Activation} {as : List Activation}
  {es : List Record}

/-- A round that has made a continuation has found the return record of the handled
call. -/
lemma Orderly.body_clear {past : List Config} (hint : P.fieldCount P.intClass = 0)
    (hcore : ∀ (index : Nat) x, natives.entries[index]? = some x → x ∈ coreNatives)
    (ho : d.Orderly P natives past) (h : d.machine.Stacked P a as)
    (hes : d.machine.Shielded P es) {native : Native}
    (hnative : d.native? P natives = some ("core:reify_handler_context", native)) {s b : Nat}
    (hshield : d.machine.shield P = .ok (s, b)) {call : Option MethodId} {m : Machine}
    (hadvance : d.advance P natives = .ok call m) :
    b + bodyRecordOffset (s - b) ∉ d.machine.records P := by
  obtain ⟨index, hentry⟩ := exists_entry hnative
  cases eq_reify_of_mem (hcore index _ hentry)
  obtain ⟨u, m', hm', -⟩ := native_eq_ok hnative hadvance
  simp only [CoreNatives.reify, Machine.bind_eq_ok, Machine.arg_eq_ok] at hm'
  obtain ⟨v, _, ⟨-, -, rfl⟩, hreify⟩ := hm'
  have hreadied : (d.machine.readied (.native "core:reify_handler_context"
      d.machine.thread.value)).Stacked P a as := h.of_thread rfl rfl rfl rfl
  exact hreadied.body_clear hint (hes.of_thread rfl rfl rfl) hshield
    (ho.reify _ hnative s b hshield) hreify

/-- An orderly round is tidy, if the configurations before it had stacks. -/
lemma Orderly.tidy {past : List Config} (hint : P.fieldCount P.intClass = 0)
    (hcore : ∀ (index : Nat) x, natives.entries[index]? = some x → x ∈ coreNatives)
    (ho : c.Orderly P natives past)
    (hpast : ∀ d ∈ past, (∃ past', d.Orderly P natives past') ∧
      (∃ call m, d.advance P natives = .ok call m) ∧
      (∃ a as, d.machine.Stacked P a as) ∧ ∃ es, d.machine.Shielded P es) :
    c.Tidy P natives := by
  refine ⟨ho.store, fun name native hnative => ⟨?_, ?_, ?_, ?_⟩⟩
  · rintro rfl
    exact ho.abort native hnative
  · rintro rfl
    exact ho.fastResume native hnative
  · rintro rfl
    exact ho.reify native hnative
  · rintro rfl words hwords
    obtain ⟨d, hd, ⟨native', hnative'⟩, s, b, vs, hshield, hslice, halike, htrigger⟩ :=
      ho.resume native hnative words hwords
    obtain ⟨⟨past', hd'⟩, ⟨call, m, hadvance⟩, ⟨a, as, hstacked⟩, es, hes⟩ := hpast d hd
    refine ⟨d.machine, a, as, es, s, b, hstacked, hes, hshield, ⟨vs, hslice, halike⟩, ?_, htrigger⟩
    exact hd'.body_clear hint hcore hstacked hes hnative' hshield hadvance

end Config

/-! ### The call that laid a record -/

namespace Activation

/-- The call is among those in progress, and has more records in place than here. -/
def Covers (bs : List Activation) (a : Activation) (as : List Activation) : Prop :=
  ∃ above n, bs = above ++ { a with lifts := n } :: as ∧ a.lifts < n

/-- A call whose frame has become a record has laid it. -/
lemma lt_of_frame_mem {a : Activation} {n : Nat}
    (h : a.frame ∈ ({ a with lifts := n } : Activation).records) : a.lifts < n := by
  obtain ⟨i, hi, heq⟩ := mem_records.mp h
  rw [frame, recordSize] at heq
  dsimp only at hi heq
  omega

lemma allRecords_mono {as bs : List Activation} (h : as ⊆ bs) : allRecords as ⊆ allRecords bs := by
  intro r hr
  obtain ⟨a, ha, hr⟩ := mem_allRecords.mp hr
  exact mem_allRecords.mpr ⟨a, h ha, hr⟩

/-- A call that has fewer records in place has none that it has not laid. -/
lemma allRecords_cut {a : Activation} {n : Nat} (hn : n ≤ a.lifts) (as : List Activation) :
    allRecords ({ a with lifts := n } :: as) ⊆ allRecords (a :: as) := by
  intro r hr
  rw [allRecords_cons, List.mem_append] at hr ⊢
  refine hr.imp_left fun hr => ?_
  obtain ⟨i, hi, rfl⟩ := mem_records.mp hr
  exact mem_records.mpr ⟨i, Nat.lt_of_lt_of_le hi hn, rfl⟩

end Activation

namespace Stack

open Activation (Covers Evolves)

variable {P : Program} {rs rs' : Registers} {a b : Activation} {as bs cs above : List Activation}
  {r : Nat}

/-- A record from where a call was called up to its frame has been laid by it. -/
lemma mem_records_of_between (h : Stack P rs (above ++ b :: bs))
    (hr : r ∈ allRecords (above ++ b :: bs)) (hlow : b.base ≤ r) (hhigh : r ≤ b.frame) :
    r ∈ b.records := by
  rw [allRecords_append, allRecords_cons, List.mem_append, List.mem_append] at hr
  rcases hr with hr | hr | hr
  · obtain ⟨e, he, hr⟩ := mem_allRecords.mp hr
    obtain ⟨i, -, rfl⟩ := Activation.mem_records.mp hr
    have hapart := h.apart he
    rw [recordSize] at *
    omega
  · exact hr
  · have hapart := h.of_append.records_apart hr
    rw [recordSize] at hapart
    omega

/-- A call whose frame has become a record covers itself. -/
lemma covers_self {n : Nat} (h : Stack P rs (above ++ { a with lifts := n } :: as))
    (hr : a.frame ∈ allRecords (above ++ { a with lifts := n } :: as)) (hn : a.lifts ≤ n) :
    Covers (above ++ { a with lifts := n } :: as) a as := by
  have hframe : a.base ≤ a.frame := Nat.le_add_right _ _
  have hmem := h.mem_records_of_between hr hframe (by
    rw [Activation.frame, Activation.frame]
    exact Nat.add_le_add_left (Nat.mul_le_mul_left _ hn) _)
  exact ⟨above, n, rfl, Activation.lt_of_frame_mem hmem⟩

/-- A record at the frame of the innermost call has been laid by that call. -/
lemma covers_of_evolves (h : Stack P rs (a :: as)) (hbs : Stack P rs' bs)
    (hevolves : Evolves (a :: as) bs) (hr : a.frame ∈ allRecords bs) : Covers bs a as := by
  -- the frame lies above all records that were in place
  have hnew : a.frame ∉ allRecords (a :: as) := fun hmem => by
    have hbelow := (h.records_below hmem).2
    rw [recordSize] at hbelow
    omega
  generalize hcalls : a :: as = calls at hevolves hnew
  cases hevolves with
  | grow above hn =>
      cases hcalls
      exact hbs.covers_self hr hn
  | leave above =>
      exact absurd (Activation.allRecords_mono (List.subset_append_right above _) hr) hnew
  | cut above hn =>
      refine absurd (Activation.allRecords_mono (List.subset_append_right above _) ?_) hnew
      exact Activation.allRecords_cut hn _ hr

/-- A call that covers another one does so as long as its record is in place. -/
lemma covers_evolves (h : Stack P rs bs) (hcs : Stack P rs' cs) (hcovers : Covers bs a as)
    (hevolves : Evolves bs cs) (hr : a.frame ∈ allRecords cs) : Covers cs a as := by
  obtain ⟨above, n, rfl, hn⟩ := hcovers
  -- the record is none of those that lie below the call
  have hrest : a.frame ∉ allRecords as := fun hmem => by
    have hapart := h.of_append.records_apart hmem
    have hframe : a.base ≤ a.frame := Nat.le_add_right _ _
    dsimp only at hapart
    rw [recordSize] at hapart
    omega
  have hself : ∀ {k : Nat}, a.frame ∈ allRecords ({ a with lifts := k } :: as) →
      Covers ({ a with lifts := k } :: as) a as := fun {k} hmem => by
    rw [allRecords_cons, List.mem_append] at hmem
    exact ⟨[], k, rfl, Activation.lt_of_frame_mem (hmem.resolve_right hrest)⟩
  generalize hcalls : above ++ { a with lifts := n } :: as = calls at hevolves
  cases hevolves with
  | @grow b bs k above' hk =>
      cases above with
      | nil =>
          cases hcalls
          exact ⟨above', k, rfl, Nat.lt_of_lt_of_le hn hk⟩
      | cons e above =>
          cases hcalls
          refine ⟨above' ++ { b with lifts := k } :: above, n, ?_, hn⟩
          rw [List.append_assoc, List.cons_append]
          rfl
  | leave above' =>
      rcases List.append_eq_append_iff.mp hcalls with ⟨t, rfl, ht⟩ | ⟨t, rfl, ht⟩
      · cases t with
        | nil => exact ⟨[], n, ht.symm, hn⟩
        | cons e t =>
            rw [List.cons_append, List.cons.injEq] at ht
            refine absurd (Activation.allRecords_mono ?_ hr) hrest
            rw [ht.2]
            exact List.subset_append_right t _
      · exact ⟨t, n, ht, hn⟩
  | @cut b bs k above' hk =>
      rcases List.append_eq_append_iff.mp hcalls with ⟨t, rfl, ht⟩ | ⟨t, rfl, ht⟩
      · cases t with
        | nil =>
            cases ht
            exact hself hr
        | cons e t =>
            rw [List.cons_append, List.cons.injEq] at ht
            refine absurd (Activation.allRecords_mono ?_ (Activation.allRecords_cut hk bs hr)) hrest
            rw [ht.2]
            exact List.subset_append_right t _
      · cases t with
        | nil =>
            cases ht
            exact hself hr
        | cons e t =>
            cases ht
            exact ⟨{ b with lifts := k } :: t, n, rfl, hn⟩

end Stack

/-! ### Runs -/

/-- The calls in progress, and with them those that have laid the records in place: a
record that stands where the frame of an earlier configuration was, and has stood there
ever since, has been laid by the call that was the innermost one then. -/
structure Config.Tracks (P : Program) (past : List Config) (c : Config) (as : List Activation) :
    Prop where
  stands : c.Stands P as
  laid : ∀ since q older, past = since ++ q :: older →
    (∀ c' ∈ c :: since, q.machine.thread.frame ∈ c'.machine.records P) →
      ∃ b bs, q.machine.Stacked P b bs ∧ Activation.Covers as b bs

lemma Starts.stacked {P : Program} {options : Options} {natives : Natives} {m : Machine}
    (h : Starts P options natives m) (hregisters : options.registers ≤ 2 ^ 31) :
    m.Stacked P ⟨recordSize, 0, recordSize, Thread.halt⟩ [] := by
  obtain ⟨hsize, journal, -, -, hthread⟩ := h.eq
  rw [recordSize] at hsize
  have hcell : ∀ i < 4, m.thread.registers.cell i =
      ([P.int 0, .nil, P.int 0, ⟨P.intClass, Thread.halt⟩][i]?).getD .nil := by
    intro i hi
    rw [hthread]
    dsimp only
    rw [Cells.cell_overwrite, if_pos, Nat.sub_zero]
    rw [Cells.size_fresh]
    exact ⟨Nat.zero_le _, by simpa using hi, by omega⟩
  have hroom : m.thread.registers.size = options.registers := by
    rw [hthread]
    dsimp only
    rw [Cells.size_overwrite, Cells.size_fresh]
  refine ⟨.root rfl rfl rfl ⟨?_, hcell 2 (by decide), hcell 3 (by decide)⟩, ?_, ?_, ?_, ?_⟩
  · rw [hroom]
    exact hsize
  · rw [hthread]
    rfl
  · rw [hthread]
  · rw [hthread]
    exact .nil
  · rw [hroom]
    exact hregisters

namespace Config

variable {P : Program} {c : Config} {as : List Activation}

/-- A run that goes on has a call in progress. -/
lemma Stands.exists_stacked (h : c.Stands P as) (hc : c.halted = false) :
    ∃ a bs, as = a :: bs ∧ c.machine.Stacked P a bs := by
  obtain ⟨hstands, hnil⟩ := h
  cases as with
  | nil =>
      rw [halted, hnil rfl, Thread.halted, hstands.1] at hc
      simp at hc
  | cons a bs => exact ⟨a, bs, rfl, hstands⟩

/-- No call in progress stands below the first frame. -/
lemma Stands.low (h : c.Stands P as) : recordSize ≤ c.machine.thread.frame := by
  cases as with
  | nil => exact Nat.le_of_eq h.1.2.1.symm
  | cons a bs =>
      have hstacked : c.machine.Stacked P a bs := h.1
      rw [hstacked.frame]
      exact Nat.le_trans hstacked.stack.low (Nat.le_add_right _ _)

/-- A record of the thread has been laid by one of the calls. -/
lemma Stands.exists_stack (h : c.Stands P as) {r : Nat} (hr : r ∈ c.machine.records P) :
    Stack P c.machine.thread.registers as ∧ r ∈ allRecords as := by
  cases as with
  | nil =>
      rw [Machine.records, h.1.2.2] at hr
      cases hr
  | cons a bs =>
      have hstacked : c.machine.Stacked P a bs := h.1
      exact ⟨hstacked.stack, hstacked.records_eq ▸ hr⟩

/-- The calls are tracked through a round. -/
lemma Tracks.round {past : List Config} {c' : Config} {a : Activation} {bs : List Activation}
    (h : c.Tracks P past (a :: as)) (hstands : c'.Stands P bs)
    (hevolves : Activation.Evolves (a :: as) bs) : c'.Tracks P (c :: past) bs := by
  have hstacked : c.machine.Stacked P a as := h.stands.1
  refine ⟨hstands, fun since q older hsplit hsince => ?_⟩
  obtain ⟨hstack, hr⟩ := hstands.exists_stack (hsince c' List.mem_cons_self)
  cases since with
  | nil =>
      cases hsplit
      rw [hstacked.frame] at hr
      exact ⟨a, as, hstacked, hstacked.stack.covers_of_evolves hstack hevolves hr⟩
  | cons d since =>
      rw [List.cons_append, List.cons.injEq] at hsplit
      obtain ⟨rfl, hsplit⟩ := hsplit
      obtain ⟨b, rest, hq, hcovers⟩ := h.laid since q older hsplit fun d hd =>
        hsince d (List.mem_cons_of_mem _ hd)
      rw [hq.frame] at hr
      exact ⟨b, rest, hq, hstacked.stack.covers_evolves hstack hcovers hevolves hr⟩

/-- A round that is tidy resumes what has been captured. -/
lemma Tidy.resumesCaptured {natives : Natives} (h : c.Tidy P natives) :
    c.ResumesCaptured P natives := by
  intro native hnative words hwords
  obtain ⟨d, b, bs, ds, s, r, hd, hds, hmakes⟩ :=
    (h.native _ native hnative).resume rfl words hwords
  exact ⟨d, ds, s, r, hds, hmakes.captures hd hds⟩

end Config

namespace Course

variable {P : Program} {natives : Natives} {m₀ : Machine} {past : List Config} {c : Config}

/-- **The stack of an orderly run shows the call that laid a record.** -/
theorem exists_tracks (hint : P.fieldCount P.intClass = 0) (hempty : P.fieldCount .empty = 0)
    {options : Options} (hregisters : options.registers ≤ 2 ^ 31)
    (hstart : Starts P options natives m₀) (hcourse : Course P natives m₀ past c)
    (hpast : ∀ c' past', c' :: past' <:+ past → c'.Orderly P natives past') :
    (∃ as, c.Tracks P past as) ∧ ∀ c' ∈ c :: past,
      (∃ as, c'.Stands P as) ∧ ∃ es, c'.machine.Shielded P es := by
  obtain ⟨ht, hgoing⟩ := hcourse
  induction ht with
  | start =>
      have hstands : Config.Stands P ⟨none, m₀⟩ [⟨recordSize, 0, recordSize, Thread.halt⟩] :=
        ⟨hstart.stacked hregisters, fun hnil => by cases hnil⟩
      refine ⟨⟨_, hstands, fun since q older hsplit => ?_⟩, fun c' hc' => ?_⟩
      · cases since <;> cases hsplit
      · cases List.mem_singleton.mp hc'
        exact ⟨⟨_, hstands⟩, [], hstart.shielded hregisters⟩
  | @round past c call m ht hadvance ih =>
      obtain ⟨⟨as, htracks⟩, hall⟩ := ih
        (fun c' past' hsuffix => hpast c' past' (hsuffix.trans (List.suffix_cons c past)))
        (fun c' hc' => hgoing c' (List.mem_cons_of_mem _ hc'))
      obtain ⟨a, as, rfl, hstacked⟩ :=
        htracks.stands.exists_stacked (hgoing c List.mem_cons_self)
      obtain ⟨-, es, hes⟩ := hall c List.mem_cons_self
      have hcore : ∀ (index : Nat) x, natives.entries[index]? = some x → x ∈ coreNatives :=
        fun _ _ => hstart.mem_coreNatives
      have htidy : c.Tidy P natives := by
        refine (hpast c past List.suffix_rfl).tidy hint hcore fun d hd => ?_
        obtain ⟨⟨ds, hd'⟩, hds⟩ := hall d (List.mem_cons_of_mem _ hd)
        obtain ⟨newer, older, rfl⟩ := List.append_of_mem hd
        obtain ⟨b, bs, -, hb⟩ := hd'.exists_stacked (hgoing d (List.mem_cons_of_mem _ hd))
        refine ⟨⟨older, hpast d older ?_⟩, ht.exists_advance hd, ⟨b, bs, hb⟩, hds⟩
        exact (List.suffix_append newer _).trans (List.suffix_cons c _)
      obtain ⟨bs, hevolves, hstands⟩ := hstacked.advance hint hcore hes htidy hadvance
      have hshielded : ∃ es', m.Shielded P es' := by
        refine hes.advance hint hempty hcore (fun m' hm' _ => ?_) htidy.resumesCaptured hadvance
        cases hm'.symm.trans hadvance
        exact hstands.low
      refine ⟨⟨bs, htracks.round hstands hevolves⟩, fun c' hc' => ?_⟩
      rcases List.mem_cons.mp hc' with rfl | hc'
      · exact ⟨⟨bs, hstands⟩, hshielded⟩
      · exact hall c' hc'

end Course

end EffectMachine
