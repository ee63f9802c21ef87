/-
Operations of the machine on context records.

While a program runs, the records of its thread stay nested. Instructions write
registers of their own frame, which lies above all records; a collection keeps
classes and inline values; entering a context and triggering an effect lay one
record on top; returning drops records; and resuming lays the records of a
continuation on top.

* `Machine.Captures`: what a continuation has captured;
* `Machine.Shielded`: the records of the thread are nested, and lie below its
  frame;
* `Machine.Settles`: so are they when a native has handed control on;
* `Machine.Shielded.returnValue`, `Machine.Shielded.enterContext`,
  `Machine.Shielded.trigger`, `Machine.Shielded.reify`, `Machine.Shielded.resume`
  and so on: **every operation keeps shields nested**.
-/
import EffectMachine.Proofs.EffectOperations
import EffectMachine.Proofs.HandlerWalk

namespace EffectMachine

namespace Machine

variable {P : Program} {m m' : Machine}

/-! ### What is captured -/

/-- The words are the registers that a handler captures in the machine, from the
record served to the end of the handler's return record, up to where objects lie.
None of the records stands where the return record of the handled computation is
replaced. -/
structure Captures (P : Program) (d : Machine) (ds : List Record) (words : List Value)
    (s c : Nat) : Prop where
  shield : d.shield P = .ok (s, c)
  registers : ∃ vs, d.thread.registers.slice c (s + 2 * recordSize - c) = .ok vs ∧
    List.Forall₂ (Value.Alike P) vs words
  clear : ∀ e ∈ ds, (e.pos = c + recordSize → e.pos = s) ∧ e.pos ≠ c + recordSize + 1

section Captures

variable {d : Machine} {ds : List Record} {words : List Value} {s c : Nat}

lemma Captures.length (h : Captures P d ds words s c) : words.length = s + 2 * recordSize - c := by
  obtain ⟨vs, hslice, halike⟩ := h.registers
  exact (Registers.alike_of_slice hslice halike).1

/-- The record served ends below the synthetic one. -/
lemma Captures.apart (h : Captures P d ds words s c) : c + recordSize ≤ s :=
  (Context.handling_spec (shield_eq_ok.mp h.shield).2).2

/-- The registers of a continuation are alike to those captured. -/
lemma alike_overlay (hcaptures : Captures P d ds words s c) {t : Thread}
    (hroom : t.frame + words.length ≤ t.registers.size) (depth target : Value) {i : Nat}
    (hlo : c < i) (hhi : i < s + 2 * recordSize)
    (hne : i ≠ c + bodyRecordOffset (s - c)) (hne' : i ≠ c + bodyRecordOffset (s - c) + 1) :
    (d.thread.registers.cell i).Alike P
      (Cells.cell (overlay P t words depth target) (i - c + t.frame)) := by
  obtain ⟨vs, hslice, halike⟩ := hcaptures.registers
  obtain ⟨hlen, hcaptured⟩ := Registers.alike_of_slice hslice halike
  have hcs := hcaptures.apart
  have hoffset : words.length - 2 * recordSize = s - c := by omega
  have hcell := hcaptured (i - c) (by omega)
  rw [Nat.add_sub_of_le (Nat.le_of_lt hlo)] at hcell
  rw [Nat.add_comm, cell_overlay hroom depth target (by omega) (by omega)
    (by rw [hoffset]; omega) (by rw [hoffset]; omega)]
  exact hcell

end Captures

/-! ### Records below the frame -/

/-- The records of the thread are nested, and lie below its frame, which lies
above the outermost record. -/
structure Shielded (P : Program) (m : Machine) (es : List Record) : Prop where
  chain : Context.Chain P m.thread.registers m.thread.context es
  nested : Nested es
  context : m.thread.context = 0 ∨ m.thread.context + recordSize ≤ m.thread.frame
  frame : recordSize ≤ m.thread.frame
  size : m.thread.registers.size ≤ 2 ^ 31

/-- When control has been handed on, and if to a caller, then not below the first
frame, the records are nested. -/
def Settles (P : Program) (m : Machine) : Prop :=
  (m.transfer = some .returned → recordSize ≤ m.thread.frame) → ∃ es, m.Shielded P es

end Machine

namespace Machine.Shielded

variable {P : Program} {m m' : Machine} {es : List Record}

lemma below (h : m.Shielded P es) {d : Record} (hd : d ∈ es) :
    d.pos + recordSize ≤ m.thread.frame := by
  obtain ⟨hchain, hnested, hcontext, -, -⟩ := h
  cases es with
  | nil => cases hd
  | cons e es =>
      have hlow := hnested.low List.mem_cons_self
      rw [hchain.uncons.1] at hcontext
      rw [recordSize] at *
      rcases List.mem_cons.mp hd with rfl | hd
      · omega
      · cases hnested with
        | cons hfits _ =>
            have habove := hfits.above d hd
            rw [recordSize] at habove
            omega

/-- The records stay as they are if the frame does not go down and the registers
below it stay alike. -/
lemma calm (hint : P.fieldCount P.intClass = 0) (hempty : P.fieldCount .empty = 0)
    (h : m.Shielded P es) (hcontext : m'.thread.context = m.thread.context)
    (hframe : m.thread.frame ≤ m'.thread.frame)
    (hkeeps : m.thread.registers.Keeps P m.thread.frame m'.thread.registers) :
    m'.Shielded P es where
  chain := by
    rw [hcontext]
    exact h.chain.keeps hint hempty hkeeps h.context
  nested := h.nested
  context := by
    rw [hcontext]
    exact h.context.imp_right fun hle => Nat.le_trans hle hframe
  frame := Nat.le_trans h.frame hframe
  size := hkeeps.size ▸ h.size

/-- The records depend on the thread only, and not on its value register. -/
lemma of_thread (h : m.Shielded P es) (hregisters : m'.thread.registers = m.thread.registers)
    (hcontext : m'.thread.context = m.thread.context)
    (hframe : m'.thread.frame = m.thread.frame) : m'.Shielded P es where
  chain := by
    rw [hregisters, hcontext]
    exact h.chain
  nested := h.nested
  context := by
    rw [hcontext, hframe]
    exact h.context
  frame := hframe ▸ h.frame
  size := hregisters ▸ h.size

/-- The thread may go back to any record, with the frame just above it. -/
lemma refocus {front back : List Record} {e : Record} (h : m.Shielded P (front ++ e :: back)) :
    (m.refocused e.pos).Shielded P (e :: back) where
  chain := h.chain.of_append
  nested := h.nested.of_append
  context := .inr (Nat.le_refl _)
  frame := Nat.le_add_left _ _
  size := h.size

/-- The thread may go back to the records that enclose one of the chain, with
the frame in the place of that one. -/
lemma enclosing (hint : P.fieldCount P.intClass = 0) (hempty : P.fieldCount .empty = 0)
    {front back : List Record} {e : Record} (h : m.Shielded P (front ++ e :: back)) {p : Nat}
    (hp : Context.parent P m.thread.registers e.pos = .ok p)
    (hkeeps : m.thread.registers.Keeps P e.pos m'.thread.registers)
    (hcontext : m'.thread.context = p) (hframe : m'.thread.frame = e.pos) :
    m'.Shielded P back := by
  obtain ⟨q, hq, hback⟩ := h.chain.exists_parent
  cases hq.symm.trans hp
  have hend : p = 0 ∨ p + recordSize ≤ e.pos := by
    cases back with
    | nil => exact .inl (hback.eq_zero_iff.mpr rfl)
    | cons d back =>
        rw [hback.uncons.1]
        exact .inr (h.nested.fits.above d List.mem_cons_self)
  refine ⟨?_, ?_, ?_, ?_, hkeeps.size ▸ h.size⟩
  · rw [hcontext]
    exact hback.keeps hint hempty hkeeps hend
  · cases h.nested.of_append with
    | cons _ hnested => exact hnested
  · rw [hcontext, hframe]
    exact hend
  · rw [hframe]
    exact h.nested.fits.low

/-! ### Returning -/

/-- Leaving a frame drops the records that do not lie below the caller's. -/
lemma returnValue (h : m.Shielded P es) {u : Unit} (hr : Machine.returnValue P m = .ok u m') :
    m'.transfer = m.transfer ∧
      (recordSize ≤ m'.thread.frame → ∃ back, m'.Shielded P back) := by
  obtain ⟨depth, c, -, -, -, -, hunwind, rfl⟩ := returnValue_iff.mp hr
  refine ⟨rfl, fun hframe => ?_⟩
  obtain ⟨c', front, back, rfl, hc', hback, hend⟩ := h.chain.exists_unwind _
  cases hunwind.symm.trans hc'
  exact ⟨back, hback, h.nested.of_append, hend, hframe, h.size⟩

lemma ret (h : m.Shielded P es) {v : Value} {u : Unit} (hr : Machine.ret P v m = .ok u m') :
    m'.Settles P := by
  obtain ⟨-, hr⟩ := ret_eq_ok hr
  have h' : Shielded P ⟨m.image, { m.thread with value := v }, some .returned⟩ es :=
    h.of_thread rfl rfl rfl
  obtain ⟨htransfer, hback⟩ := h'.returnValue hr
  intro hframe
  exact hback (hframe htransfer)

/-! ### Laying records -/

/-- A record that has been laid at the frame, with the distance to the innermost
record, becomes the innermost one. -/
lemma push (hint : P.fieldCount P.intClass = 0) (hempty : P.fieldCount .empty = 0)
    (h : m.Shielded P es) {e : Record} (hpos : e.pos = m.thread.frame) (hfits : e.Fits es)
    (hkeeps : m.thread.registers.Keeps P m.thread.frame m'.thread.registers)
    (hlink : m'.thread.registers.cell m.thread.frame =
      P.nat (m.thread.frame - m.thread.context))
    (hheld : e.Held m'.thread.registers) (hcontext : m'.thread.context = m.thread.frame)
    (hframe : m'.thread.frame = m.thread.frame + recordSize) : m'.Shielded P (e :: es) := by
  have hsize := hkeeps.size ▸ h.size
  have hroom := hheld.room
  have hlow := h.frame
  have hbelow := h.context
  rw [recordSize] at hlow hbelow
  have hparent : Context.parent P m'.thread.registers e.pos = .ok m.thread.context := by
    rw [Context.parent_eq_ok, hpos, hlink, Program.signed_nat (by omega)]
    exact ⟨by omega, rfl, by omega, by omega, by omega⟩
  refine ⟨?_, .cons hfits h.nested, .inr ?_, ?_, hsize⟩
  · rw [hcontext, ← hpos]
    exact .cons hparent hheld (h.chain.keeps hint hempty hkeeps h.context)
  · rw [hcontext, hframe]
  · rw [hframe]
    omega

/-- **Entering a context** lays a record that is not synthetic. -/
lemma enterContext (hint : P.fieldCount P.intClass = 0) (hempty : P.fieldCount .empty = 0)
    (h : m.Shielded P es) {handler body : Value} {u : Unit}
    (he : Machine.enterContext P handler body m = .ok u m') :
    ∃ es', m'.Shielded P es' := by
  obtain ⟨hhandler, depth, -, hroom, rfl⟩ := enterContext_eq_ok he
  obtain ⟨hlink, hmark, -, -⟩ := cells_laid (P := P) hroom depth handler
  refine ⟨⟨m.thread.frame, none⟩ :: es, h.push hint hempty rfl (.of_plain h.frame fun _ => h.below)
    ((same_entered P m depth handler body).keeps P) hlink (.of_plain ?_ ?_) rfl rfl⟩
  · dsimp only [entered]
    rw [size_laid]
    omega
  · dsimp only [entered]
    rw [hmark]
    exact hhandler

/-- **Triggering an effect** lays a synthetic record, whose shield crosses no
other. -/
lemma trigger (hint : P.fieldCount P.intClass = 0) (hempty : P.fieldCount .empty = 0)
    (h : m.Shielded P es) {method : MethodId} {arg : Value} {u : Unit}
    (ht : Machine.trigger P method arg m = .ok u m') : ∃ es', m'.Shielded P es' := by
  obtain ⟨depth, c, hc, -, hroom, rfl⟩ := trigger_eq_ok ht
  rcases h.chain.exists_handler h.nested method with herror | ⟨c', hc', hmem, hapart⟩
  · cases herror.symm.trans hc
  cases hc'.symm.trans hc
  obtain ⟨hlink, hmark, -, -⟩ := cells_laid (P := P) hroom depth
    ⟨.empty, UInt32.ofNat (m.thread.frame - c)⟩
  have hkeeps := (same_triggered P m method depth c arg).keeps P
  have hbelow : c + recordSize ≤ m.thread.frame := h.below hmem
  have hlow : recordSize ≤ c := h.nested.low hmem
  have hsize := h.size
  rw [recordSize] at hbelow hlow hroom
  -- the argument lies above the record
  have hcell : ∀ i ≤ m.thread.frame + 1,
      (m.triggered P method depth c arg).thread.registers.cell i =
        Cells.cell (laid P m.thread depth ⟨.empty, UInt32.ofNat (m.thread.frame - c)⟩) i := by
    intro i hi
    dsimp only [triggered]
    rw [Cells.cell_setIfInBounds, if_neg (by rw [recordSize]; omega)]
  have hfits : Record.Fits ⟨m.thread.frame, some c⟩ es :=
    .of_serving h.frame (fun _ => h.below) hmem hapart
  have hheld : Record.Held (m.triggered P method depth c arg).thread.registers
      ⟨m.thread.frame, some c⟩ := by
    have hroom' : m.thread.frame + 1 < (m.triggered P method depth c arg).thread.registers.size := by
      rw [hkeeps.size]
      omega
    refine .of_serving hroom' ?_ ?_
    · rw [hcell _ (Nat.le_refl _), hmark]
    · rw [Context.handling_eq_ok, hcell _ (Nat.le_refl _), hmark]
      dsimp only
      rw [UInt32.toNat_ofNat_of_lt' (by rw [UInt32.size]; omega), recordSize]
      exact ⟨hroom', by omega, by omega, by omega⟩
  exact ⟨_, h.push hint hempty rfl hfits hkeeps ((hcell _ (Nat.le_succ _)).trans hlink) hheld rfl
    rfl⟩

/-! ### Leaving handlers -/

/-- A synthetic record that is found, with the record it serves, splits the
records: those in front, the shielded ones, and those that enclose the record
served. -/
lemma exists_shield (h : m.Shielded P es) {s c : Nat} (hshield : m.shield P = .ok (s, c)) :
    ∃ front mid back, es = front ++ ⟨s, some c⟩ :: (mid ++ ⟨c, none⟩ :: back) := by
  obtain ⟨hs, hc⟩ := shield_eq_ok.mp hshield
  rcases h.chain.exists_synthetic with herror | ⟨front, s', c', rest, rfl, hs'⟩
  · cases herror.symm.trans hs
  · cases hs'.symm.trans hs
    have hheld := h.chain.held (List.mem_append_right front List.mem_cons_self)
    cases (hheld.synthetic c' rfl).2.symm.trans hc
    obtain ⟨mid, back, rfl⟩ := List.append_of_mem (h.nested.fits.served c rfl)
    exact ⟨front, mid, back, rfl⟩

/-- **Returning to a trigger** goes back to the synthetic record. -/
lemma fastResume (h : m.Shielded P es) {v : Value} {u : Unit}
    (hr : Machine.fastResume P v m = .ok u m') : m'.Settles P := by
  obtain ⟨s, hs⟩ := exists_synthetic_of_fastResume hr
  rw [fastResume_eq hs] at hr
  rcases h.chain.exists_synthetic with herror | ⟨front, s', c, back, rfl, hs'⟩
  · cases herror.symm.trans hs
  · cases hs'.symm.trans hs
    exact h.refocus.ret hr

/-- **Giving up a computation** goes back to the record that is served. -/
lemma abort (h : m.Shielded P es) {v : Value} {u : Unit}
    (hr : Machine.abort P v m = .ok u m') : m'.Settles P := by
  obtain ⟨s, c, hshield⟩ := exists_shield_of_abort hr
  rw [abort_eq hshield] at hr
  obtain ⟨front, mid, back, rfl⟩ := h.exists_shield hshield
  rw [← List.cons_append, ← List.append_assoc] at h
  exact h.refocus.ret hr

/-- **Making a continuation** leaves the context of the handler. -/
lemma reify (hint : P.fieldCount P.intClass = 0) (hempty : P.fieldCount .empty = 0)
    (h : m.Shielded P es) {body : Value} {u : Unit}
    (hr : Machine.reify P body m = .ok u m') : ∃ es', m'.Shielded P es' := by
  obtain ⟨m₁, m₂, s, c, vs, array, k, hreified⟩ := reify_eq_ok hr
  obtain ⟨front, mid, back, rfl⟩ := h.exists_shield hreified.shield
  have hkeeps := (alloc_keeps hreified.stored).trans (alloc_keeps hreified.made)
  have h₂ := h.calm hint hempty hkeeps.context (Nat.le_of_eq hkeeps.frame.symm)
    (hkeeps.registers _)
  obtain ⟨p, hparent, hcontext⟩ := hreified.enclosing
  obtain ⟨depth, -, -, hregisters⟩ := hreified.record
  rw [← List.cons_append, ← List.append_assoc] at h₂
  refine ⟨back, h₂.enclosing hint hempty hparent ?_ hcontext hreified.frame⟩
  rw [hregisters]
  exact (((Registers.Keeps.refl P c _).set (Nat.le_refl c) _).set (Nat.le_add_right c _) _).set
    (Nat.le_add_right c _) _

/-! ### Resuming -/

section Overlay

variable {d : Machine} {ds : List Record} {words : List Value} {s c : Nat}

/-- The record of the handler comes to stand at the frame. -/
lemma overlay_handler (hint : P.fieldCount P.intClass = 0) (hempty : P.fieldCount .empty = 0)
    (h : m.Shielded P es) (hd : d.Shielded P ds) (hcaptures : Captures P d ds words s c)
    (hroom : m.thread.frame + words.length ≤ m.thread.registers.size) (depth target : Value) :
    Shielded P ⟨m.image, { m.thread with
      context := m.thread.frame, frame := m.thread.frame + recordSize,
      registers := overlay P m.thread words depth target }, m.transfer⟩
      (⟨m.thread.frame, none⟩ :: es) := by
  obtain ⟨front, mid, back, rfl⟩ := hd.exists_shield hcaptures.shield
  have hhandler := hd.chain.held (List.mem_append_right front
    (List.mem_cons_of_mem _ (List.mem_append_right mid List.mem_cons_self)))
  have hcs := hcaptures.apart
  have hkeeps := (same_overlay P m.thread words depth target).keeps P
  have hlen := hcaptures.length
  have hshift : 1 < bodyRecordOffset (s - c) := by
    rw [bodyRecordOffset, recordSize]
    split <;> omega
  have hmark := alike_overlay hcaptures hroom depth target (i := c + 1) (by omega)
    (by rw [recordSize] at *; omega) (by omega) (by omega)
  rw [Nat.add_sub_cancel_left, Nat.add_comm 1] at hmark
  rw [recordSize] at hlen hcs
  refine h.push hint hempty rfl (.of_plain h.frame fun _ => h.below) hkeeps
    (link_overlay (by omega) depth target) (.of_plain ?_ ?_) rfl rfl
  · dsimp only
    rw [hkeeps.size]
    omega
  · rw [← hmark.1]
    exact hhandler.plain rfl

/-- The records that are captured come to stand above that. -/
lemma overlay_records (hint : P.fieldCount P.intClass = 0) (hempty : P.fieldCount .empty = 0)
    (h : m.Shielded P es) (hd : d.Shielded P ds) (hcaptures : Captures P d ds words s c)
    (hroom : m.thread.frame + words.length ≤ m.thread.registers.size) (depth target : Value) :
    ∃ es', Shielded P ⟨m.image, { m.thread with
      context := s - c + m.thread.frame, frame := s - c + m.thread.frame + recordSize,
      registers := overlay P m.thread words depth target }, m.transfer⟩ es' := by
  have hbase := overlay_handler hint hempty h hd hcaptures hroom depth target
  obtain ⟨front, mid, back, rfl⟩ := hd.exists_shield hcaptures.shield
  have hsegment : ∀ e ∈ ⟨s, some c⟩ :: mid, _ := fun e he => hd.nested.segment he
  have hlen := hcaptures.length
  have hkeeps := (same_overlay P m.thread words depth target).keeps P
  rw [recordSize] at hlen
  have hmoved : ∀ e ∈ ⟨s, some c⟩ :: mid,
      (d.thread.registers.cell e.pos).Alike P
        (Cells.cell (overlay P m.thread words depth target) (e.pos - c + m.thread.frame)) ∧
      (d.thread.registers.cell (e.pos + 1)).Alike P
        (Cells.cell (overlay P m.thread words depth target) (e.pos - c + m.thread.frame + 1)) ∧
      e.pos - c + m.thread.frame + 1 < (overlay P m.thread words depth target).size := by
    intro e he
    obtain ⟨hlow, hhigh, -⟩ := hsegment e he
    obtain ⟨hfirst, hsecond⟩ := hcaptures.clear e (by
      rw [← List.cons_append]
      exact List.mem_append_right front (List.mem_append_left _ he))
    have hshift : s = c + 2 ∧ bodyRecordOffset (s - c) = 4 ∨
        s ≠ c + 2 ∧ bodyRecordOffset (s - c) = 2 := by
      rw [bodyRecordOffset, recordSize] at *
      split <;> omega
    rw [recordSize] at hlow hfirst hsecond
    have hlink := alike_overlay hcaptures hroom depth target
      (i := e.pos) (by omega) (by rw [recordSize]; omega) (by omega) (by omega)
    have hmark := alike_overlay hcaptures hroom depth target
      (i := e.pos + 1) (by omega) (by rw [recordSize]; omega) (by omega) (by omega)
    rw [show e.pos + 1 - c + m.thread.frame = e.pos - c + m.thread.frame + 1 by omega] at hmark
    rw [hkeeps.size]
    exact ⟨hlink, hmark, by omega⟩
  refine ⟨(⟨s, some c⟩ :: mid).map (Record.move c m.thread.frame) ++
    ⟨m.thread.frame, none⟩ :: es, ?_, ?_, .inr (Nat.le_refl _), Nat.le_add_left _ _, hbase.size⟩
  · exact hd.chain.of_append.move hint hempty hd.nested.of_append
      (fun e he => (hsegment e he).2.2) (Nat.lt_of_lt_of_le (by decide) h.frame) hmoved hbase.chain
  · exact Nested.move hd.nested.of_append (fun e he => (hsegment e he).2.2) hbase.nested

end Overlay

/-- **Resuming** a continuation lays its records on top. -/
lemma resume (hint : P.fieldCount P.intClass = 0) (hempty : P.fieldCount .empty = 0)
    (h : m.Shielded P es) {d : Machine} {ds : List Record} (hd : d.Shielded P ds)
    {words : List Value} {s c : Nat} (hcaptures : Captures P d ds words s c) {k v : Value}
    (hwords : m.captured P k = .ok words) {u : Unit}
    (hr : Machine.resume P k v m = .ok u m') : m'.Settles P := by
  obtain ⟨-, words', depth, hwords', -, -, hroom, hret⟩ := resume_iff.mp hr
  cases hwords'.symm.trans hwords
  obtain ⟨es', h'⟩ := overlay_records hint hempty h hd hcaptures hroom _ _
  have hlen := hcaptures.length
  have hcs := hcaptures.apart
  have hoffset : m.thread.frame + (words.length - 2 * recordSize) = s - c + m.thread.frame := by
    omega
  exact ret (m := m.grafted P words depth)
    (h'.of_thread rfl hoffset (congrArg (· + recordSize) hoffset)) hret

end Machine.Shielded

end EffectMachine
