/-
The slow path of a handler agrees with the fast one.

A handler may return to its trigger at once. Or it may make a continuation, and resume that in
the frame that making it leaves. The registers captured come back to where they were, and the
replaced ones hold what they held before, so the trigger returns alike.

* `Machine.Reified.grafted_cell`: the registers that a continuation is laid down in are those
  captured, where the collections have put them;
* `resume_agrees_fastResume`: **resuming a continuation right away is returning to the
  trigger**, if all values held name objects;
* `resume_loses_position`: a position that is overwritten by an object moves with it.
-/
import EffectMachine.Proofs.SoundMachines

namespace EffectMachine

/-- Two threads whose registers are alike up to the return record of their frame return alike,
with registers as they are. -/
lemma Machine.ret_congr {P : Program} (hint : P.fieldCount P.intClass = 0) {a a' b : Machine}
    {u : Unit} {v : Value} (h : ret P v a = .ok u a') (hb : b.transfer = none)
    (hframe : b.thread.frame = a.thread.frame) (hcontext : b.thread.context = a.thread.context)
    (hbelow : a.thread.context < a.thread.frame + recordSize)
    (halike : a.thread.registers.Alike P (a.thread.frame + recordSize) b.thread.registers)
    (hpos : b.thread.registers.cell (a.thread.frame + 1) =
      a.thread.registers.cell (a.thread.frame + 1)) :
    ∃ b', ret P v b = .ok u b' ∧ b'.thread.pos = a'.thread.pos ∧
      b'.thread.frame = a'.thread.frame ∧ b'.thread.frameEnd = a'.thread.frameEnd ∧
      b'.thread.context = a'.thread.context ∧ b'.thread.value = a'.thread.value ∧
      b'.thread.registers = b.thread.registers ∧ a'.thread.registers = a.thread.registers ∧
      a'.thread.liveEnd ≤ a.thread.frame + recordSize := by
  obtain ⟨-, depth, ctx, hdepth, hroom, hlo, hhi, hctx, rfl⟩ := ret_iff.mp h
  have hroom' := halike.size'
  refine ⟨_, ret_iff.mpr ⟨hb, depth, ctx, ?_, ?_, hlo, ?_, ?_, rfl⟩, ?_, ?_, rfl, rfl, rfl, rfl, rfl,
    ?_⟩
  · rw [hframe, ← Context.readInt_congr hint halike (Nat.lt_add_of_pos_right Nat.two_pos)]
    exact hdepth
  · rw [recordSize] at hroom'
    omega
  · omega
  · rw [hframe, hcontext, ← Context.unwind_congr hint halike _ hbelow]
    exact hctx
  · dsimp only
    rw [hframe, hpos]
  · dsimp only
    rw [hframe]
  · rw [Thread.liveEnd]
    dsimp only
    rw [recordSize]
    omega

namespace Machine.Reified

variable {P : Program} {body : Value} {m m₁ m₂ m' : Machine} {s c : Nat} {vs : List Value}
  {array k : Value}

lemma alike (h : Reified P body m m₁ m₂ m' s c vs array k) (i : Nat) :
    (m.thread.registers.cell i).Alike P (m₂.thread.registers.cell i) :=
  (((alloc_keeps h.stored).trans (alloc_keeps h.made)).registers (i + 1)).cell i (Nat.lt_succ_self i)

/-- A register that holds an integer afterwards has held it before. -/
lemma cell_eq_int (h : Reified P body m m₁ m₂ m' s c vs array k)
    (hint : P.fieldCount P.intClass = 0) {i : Nat}
    (hi : (m₂.thread.registers.cell i).tag = P.intClass) :
    m₂.thread.registers.cell i = m.thread.registers.cell i := by
  obtain ⟨htag, heq⟩ := h.alike i
  exact (heq (by rw [htag, hi, hint])).symm

/-- The return record in the frame that making a continuation leaves is the one of the handled
computation, less deep. -/
lemma frame_record (h : Reified P body m m₁ m₂ m' s c vs array k)
    (hint : P.fieldCount P.intClass = 0) :
    ∃ depth, Context.readInt P m'.thread.registers c = .ok depth ∧
      m.thread.registers.cell (c + bodyRecordOffset (s - c)) =
        P.int (depth + Int32.ofNat (bodyRecordOffset (s - c))) ∧
      m'.thread.registers.cell (c + 1) =
        ⟨P.intClass, (m₂.thread.registers.cell (c + bodyRecordOffset (s - c) + 1)).data⟩ := by
  obtain ⟨depth, hdepth, -, hregisters⟩ := h.record
  obtain ⟨-, hcell⟩ := readInt_eq_ok.mp hdepth
  have hsize := h.size₂
  have hroom := h.room
  rw [recordSize] at hroom hregisters
  refine ⟨depth - Int32.ofNat (bodyRecordOffset (s - c)), ?_, ?_, ?_⟩
  · rw [readInt_eq_ok, hregisters, Cells.cell_setIfInBounds, if_neg (by omega),
      Cells.cell_setIfInBounds, if_neg (by omega), Cells.cell_setIfInBounds,
      if_pos ⟨rfl, by omega⟩]
    simp only [Array.size_setIfInBounds, and_true]
    omega
  · rw [← h.cell_eq_int hint (by rw [hcell]; rfl), hcell, Int32.sub_add_cancel]
  · rw [hregisters, Cells.cell_setIfInBounds, if_neg (by omega), Cells.cell_setIfInBounds,
      if_pos ⟨rfl, by rw [Array.size_setIfInBounds]; omega⟩]

/-- The registers below the frame are as the allocations have left them. -/
lemma cell_of_lt (h : Reified P body m m₁ m₂ m' s c vs array k) {i : Nat} (hi : i < c) :
    m'.thread.registers.cell i = m₂.thread.registers.cell i := by
  obtain ⟨depth, -, -, hregisters⟩ := h.record
  rw [hregisters, Cells.cell_setIfInBounds, if_neg (by omega), Cells.cell_setIfInBounds,
    if_neg (by omega), Cells.cell_setIfInBounds, if_neg (by omega)]

/-- The link of the record served leads to the context that making a continuation leaves. -/
lemma cell_link (h : Reified P body m m₁ m₂ m' s c vs array k)
    (hint : P.fieldCount P.intClass = 0) :
    m.thread.registers.cell c = P.nat (c - m'.thread.context) := by
  obtain ⟨p, hparent, hcontext⟩ := h.enclosing
  obtain ⟨-, htag, hpos, hle, hp⟩ := Context.parent_eq_ok.mp hparent
  have hlt := Int32.toInt_lt (m₂.thread.registers.cell c).signed
  have hsigned : Int32.ofNat (c - p) = (m₂.thread.registers.cell c).signed := by
    rw [← Int32.toInt_inj, Int32.toInt_ofNat_of_lt (by omega)]
    omega
  rw [← h.cell_eq_int hint htag, hcontext, Program.nat, hsigned, Program.int, Value.signed,
    UInt32.toUInt32_toInt32, ← htag]

/-- **The registers that a continuation is laid down in are those captured**, where the
collections have put them. -/
lemma grafted_cell (h : Reified P body m m₁ m₂ m' s c vs array k)
    (hint : P.fieldCount P.intClass = 0)
    (hroom : m.image.heap.top ≤ m.image.heap.front.size)
    (htarget : (m.thread.registers.cell (c + bodyRecordOffset (s - c) + 1)).tag = P.intClass)
    {words : List Value}
    (hwords : List.Forall₂ (fun v w => reifyMoved? P body m m' v = some w) vs words)
    {depth : Int32} (hdepth : Context.readInt P m'.thread.registers c = .ok depth) (e : Entry)
    {i : Nat} (hi : i < s + 2 * recordSize) :
    if i < m.thread.liveEnd ∨ c ≤ i then
      reifyMoved? P body m m' (m.thread.registers.cell i) =
        some (((m'.readied e).grafted P words depth).thread.registers.cell i)
    else ((m'.readied e).grafted P words depth).thread.registers.cell i =
      m.thread.registers.cell i := by
  obtain ⟨-, hmoves⟩ := h.moves hroom
  obtain ⟨hslice, hcount, hvs⟩ := Registers.slice_eq_ok h.slice
  have hlen := hwords.length_eq
  have hframe : (m'.readied e).thread.frame = c := h.frame
  have hoffset : words.length - 2 * recordSize = s - c := by omega
  have hmin : minCapture ≤ words.length := by
    have hcs := (Context.handling_spec (shield_eq_ok.mp h.shield).2).2
    rw [minCapture]
    rw [recordSize] at *
    omega
  have hroom' : (m'.readied e).thread.frame + words.length ≤
      (m'.readied e).thread.registers.size := by
    rw [hframe]
    show _ ≤ m'.thread.registers.size
    rw [h.size]
    omega
  obtain ⟨depth', hdepth', hcell, hpos⟩ := h.frame_record hint
  cases hdepth'.symm.trans hdepth
  by_cases hlo : i < c
  · -- below the frame nothing but the allocations has changed
    rw [grafted_cell_of_lt P words depth (hframe.symm ▸ hlo)]
    show if _ then reifyMoved? P body m m' _ = some (m'.thread.registers.cell i) else
      m'.thread.registers.cell i = _
    rw [h.cell_of_lt hlo]
    split
    · exact hmoves.live i (show i < m.thread.liveEnd by omega)
        (show i < m.thread.registers.size by omega)
    · exact hmoves.rest i (show m.thread.liveEnd ≤ i by omega)
  · obtain ⟨j, rfl⟩ := Nat.exists_eq_add_of_le (Nat.le_of_not_lt hlo)
    have hj : j < words.length := by omega
    have hgrafted := cell_grafted (P := P) hmin hroom' depth hj
    rw [hframe, hoffset] at hgrafted
    rw [if_pos (.inr (by omega)), hgrafted]
    -- what is replaced holds integers, as before
    have hinline : ∀ {w : Value}, m.thread.registers.cell (c + j) = w → w.tag = P.intClass →
        reifyMoved? P body m m' (m.thread.registers.cell (c + j)) = some w := fun hw htag =>
      hw ▸ h.reifyMoved?_inline (by rw [hw, htag, hint])
    split
    · rename_i hzero
      subst hzero
      exact hinline (h.cell_link hint) rfl
    · split
      · rename_i hshift
        subst hshift
        exact hinline hcell rfl
      · split
        · rename_i hshift
          subst hshift
          rw [← Nat.add_assoc] at hinline ⊢
          refine hinline ?_ rfl
          have hsame := (h.alike (c + bodyRecordOffset (s - c) + 1)).2 (by rw [htarget, hint])
          show _ = (⟨P.intClass, (m'.thread.registers.cell (c + 1)).data⟩ : Value)
          rw [hpos, ← hsame, ← htarget]
        · have hword := (List.forall₂_iff_get.mp hwords).2 j (by omega) hj
          have hcapture := hvs j (by omega)
          rw [List.getElem?_eq_getElem (by omega), Option.some.injEq] at hcapture
          rw [List.getElem?_eq_getElem hj, Option.getD_some, ← hcapture]
          exact hword

end Machine.Reified

/-- **Resuming a continuation right away is returning to the trigger.** -/
theorem resume_agrees_fastResume {P : Program} (hP : P.Linked)
    (hint : P.fieldCount P.intClass = 0) {m : Machine}
    (hsize : m.thread.registers.size ≤ 2 ^ 31) {s c : Nat} (hshield : m.shield P = .ok (s, c))
    (htarget : (m.thread.registers.cell (c + bodyRecordOffset (s - c) + 1)).tag = P.intClass)
    (htrigger : P.fieldCount (m.thread.registers.cell (s + 3)).tag = 0)
    {body : Value} {cs : List ClassId} (hs : (m.capturing body).Sound P cs)
    (hcaptured : ∀ i, c ≤ i → i < s + 4 → (m.thread.registers.cell i).Sound P.fieldCount cs)
    {v : Value} {f m' : Machine} (hfast : Machine.fastResume P v m = .ok () f)
    (hreify : Machine.reify P body m = .ok () m') (e : Entry) :
    ∃ r, Machine.resume P (m'.thread.registers.cell (c + 2)) v (m'.readied e) = .ok () r ∧
      r.thread.pos = f.thread.pos ∧ r.thread.frame = f.thread.frame ∧
      r.thread.frameEnd = f.thread.frameEnd ∧ r.thread.context = f.thread.context ∧
      r.thread.value = f.thread.value ∧ ∀ i < f.thread.liveEnd,
        if i < m.thread.liveEnd ∨ c ≤ i then
          Machine.reifyMoved? P body m m' (f.thread.registers.cell i) =
            some (r.thread.registers.cell i)
        else r.thread.registers.cell i = f.thread.registers.cell i := by
  obtain ⟨m₁, m₂, _, _, vs, array, k, hreified⟩ := Machine.reify_eq_ok hreify
  cases hreified.shield.symm.trans hshield
  have hroom : m.image.heap.top ≤ m.image.heap.front.size := hs.heap.room
  obtain ⟨hslice, hcount, hvs⟩ := Registers.slice_eq_ok hreified.slice
  obtain ⟨hsynthetic, hhandling⟩ := Machine.shield_eq_ok.mp hshield
  have hcs := (Context.handling_spec hhandling).2
  -- what has been captured
  have hsound : ∀ v ∈ vs, v.Sound P.fieldCount cs := by
    intro v hv
    obtain ⟨i, hi⟩ := List.getElem?_of_mem hv
    have hlt : i < s + 2 * recordSize - c := hcount ▸ (List.getElem?_eq_some_iff.mp hi).1
    cases (hvs i hlt).symm.trans hi
    exact hcaptured _ (Nat.le_add_right c i) (by rw [recordSize] at hlt; omega)
  obtain ⟨words, hwords, hmoved⟩ := hreified.captured_eq hP hs hsound hsize
  obtain ⟨depth, hdepth, -⟩ := hreified.frame_record hint
  have hlen := hmoved.length_eq
  have hcells := fun i hi => hreified.grafted_cell hint hroom htarget hmoved hdepth e (i := i) hi
  -- the trigger returns alike from the registers laid down
  have halike : m.thread.registers.Alike P (s + recordSize + recordSize)
      ((m'.readied e).grafted P words depth).thread.registers := by
    have hsize' : ((m'.readied e).grafted P words depth).thread.registers.size =
        m.thread.registers.size :=
      (Machine.keeps_grafted P (m'.readied e) words depth).size.trans hreified.size
    refine ⟨by omega, by omega, fun i hi => ?_⟩
    have hcell := hcells i (by omega)
    split at hcell
    · exact Machine.alike_of_reifyMoved? hcell
    · rw [hcell]
      exact .refl _
  rw [Machine.fastResume_eq hsynthetic] at hfast
  have hframe : m'.thread.frame = c := hreified.frame
  have hoffset : m'.thread.frame + (words.length - 2 * recordSize) = s := by omega
  obtain ⟨r, hret, hpos, hframe', hend, hcontext, hvalue, hregisters, hregisters', hlive⟩ :=
    Machine.ret_congr (b := (m'.readied e).grafted P words depth) hint hfast rfl
      (congrArg (· + recordSize) hoffset) hoffset (show s < s + recordSize + recordSize by
        rw [recordSize]; omega) halike
      ((halike.cell (s + 3) (Nat.lt_succ_self _)).2 htrigger).symm
  have hk : m'.thread.registers.cell (c + 2) = k := hreified.cell_continuation
  rw [hk]
  refine ⟨r, Machine.resume_iff.mpr ⟨hreified.tag, words, depth, hwords, ?_, ?_, ?_, hret⟩, hpos,
    hframe', hend, hcontext, hvalue, fun i hi => ?_⟩
  · rw [minCapture]
    rw [recordSize] at *
    omega
  · show Context.readInt P m'.thread.registers m'.thread.frame = .ok depth
    rw [hframe]
    exact hdepth
  · show m'.thread.frame + words.length ≤ m'.thread.registers.size
    rw [hreified.size]
    omega
  · rw [hregisters, hregisters']
    exact hcells i (Nat.lt_of_lt_of_le hi hlive)

/-- The handler of the program that answers an effect could have returned to the trigger at once.
A collection moves it while the continuation is made. -/
theorem resume_agrees_fastResume_reply :
    ∃ past c f m' r, Course replyProgram replyNatives (replyStart ⟨12, 24⟩) past c ∧
      c.machine.shield replyProgram = .ok (8, 4) ∧
      Machine.fastResume replyProgram (replyProgram.int 20)
        (c.machine.readied .registeredCore) = .ok () f ∧
      Machine.reify replyProgram (c.machine.argument 0) (c.machine.readied .registeredCore) =
        .ok () m' ∧
      m'.image.heap.stats.collections = 1 ∧
      Machine.resume replyProgram (m'.thread.registers.cell 6) (replyProgram.int 20)
        (m'.readied .registeredCore) = .ok () r ∧
      r.thread.pos = 68 ∧ r.thread.frame = 6 ∧ r.thread.frameEnd = 4 ∧ r.thread.context = 4 ∧
      r.thread.value = replyProgram.int 20 ∧ f.thread.registers.cell 5 = ⟨⟨6⟩, 1⟩ ∧
      r.thread.registers.cell 5 = ⟨⟨6⟩, 2⟩ := by
  have htest : Config.comesTo replyProgram replyNatives (fun past c =>
      (past.all fun c' => decide (c'.InFrame replyProgram replyNatives)) &&
      decide (c.machine.shield replyProgram = .ok (8, 4)) &&
      decide (c.machine.thread.liveEnd = 14 ∧ 2 < c.machine.thread.frameEnd) &&
      decide (c.machine.thread.registers.size = 24) &&
      decide ((c.machine.thread.registers.cell 7).tag = ⟨3⟩) &&
      decide ((c.machine.thread.registers.cell 11).tag = ⟨3⟩) &&
      Machine.gives (Machine.fastResume replyProgram (replyProgram.int 20)
        (c.machine.readied .registeredCore)) () (fun f =>
          decide (f.thread.pos = 68 ∧ f.thread.frame = 6 ∧ f.thread.frameEnd = 4) &&
          decide (f.thread.context = 4 ∧ f.thread.value = replyProgram.int 20) &&
          decide (f.thread.registers.cell 5 = ⟨⟨6⟩, 1⟩)) &&
      Machine.gives (Machine.reify replyProgram (c.machine.argument 0)
        (c.machine.readied .registeredCore)) () (fun m' =>
          decide (m'.image.heap.stats.collections = 1) &&
          decide (Machine.reifyMoved? replyProgram (c.machine.argument 0)
            (c.machine.readied .registeredCore) m' ⟨⟨6⟩, 1⟩ = some ⟨⟨6⟩, 2⟩))) 25
      (replyStart ⟨12, 24⟩) = true := by decide +kernel
  obtain ⟨past, c, hcourse, htest⟩ := Course.exists_of_comesTo htest
  simp only [Bool.and_eq_true, decide_eq_true_eq, List.all_eq_true] at htest
  obtain ⟨⟨⟨⟨⟨⟨⟨hframe, hshield⟩, hlive⟩, hsize⟩, htarget⟩, htrigger⟩, hfast⟩, hreify⟩ := htest
  obtain ⟨f, hfast, htest⟩ := Machine.exists_of_gives hfast
  simp only [Bool.and_eq_true, decide_eq_true_eq] at htest
  obtain ⟨⟨⟨hpos, hframe', hend⟩, hcontext, hvalue⟩, hcell⟩ := htest
  obtain ⟨m', hreify, htest⟩ := Machine.exists_of_gives hreify
  simp only [Bool.and_eq_true, decide_eq_true_eq] at htest
  obtain ⟨hcollections, hmoved⟩ := htest
  -- the run has stayed in its frames, so all values name objects
  obtain ⟨-, cs, hs⟩ := hcourse.trail.sound (linked_reply.plain inlineScalars_reply) (by decide)
    (starts_reply ⟨12, 24⟩ (by decide)) hframe
  have hreadied : (c.machine.readied .registeredCore).Sound replyProgram cs :=
    hs.draws rfl fun v hv => .inr (hv.of_eq rfl rfl rfl rfl (Nat.le_refl _))
  obtain ⟨r, hresume, hpos', hframe'', hend', hcontext', hvalue', hcells⟩ :=
    resume_agrees_fastResume (m := c.machine.readied .registeredCore) linked_reply (by decide)
      (hsize.trans_le (by decide)) hshield htarget
      (show replyProgram.fieldCount (c.machine.thread.registers.cell 11).tag = 0 by
        rw [htrigger]; decide)
      (hreadied.capturing (hs.kept _ (Machine.keeps_argument hlive.2)))
      (fun i _ hi => hs.kept _ (.register (by omega))) hfast hreify .registeredCore
  have hcell' := hcells 5 (by rw [Thread.liveEnd, hframe', hend]; decide)
  rw [if_pos (.inr (by decide)), hcell, hmoved, Option.some.injEq] at hcell'
  exact ⟨past, c, f, m', r, hcourse, hshield, hfast, hreify, hcollections, hresume,
    hpos'.trans hpos, hframe''.trans hframe', hend'.trans hend, hcontext'.trans hcontext,
    hvalue'.trans hvalue, hcell, hcell'.symm⟩

/-- A configuration in which a handler is about to make a continuation, and has stored its
receiver over the position that its trigger returns to. -/
def Config.strayed (c : Config) (receiver : Value) : Machine :=
  (c.machine.readied .registeredCore).withRegisters
    (c.machine.thread.registers.setIfInBounds (c.machine.thread.frame + 1) receiver)

/-- The position is read from the value stored there. The collection moves the receiver, so the
continuation goes on somewhere else than the trigger that is returned to at once. -/
theorem resume_loses_position :
    ∃ past c f m' r, Course replyProgram replyNatives (replyStart ⟨12, 24⟩) past c ∧
      (c.strayed ⟨⟨6⟩, 1⟩).shield replyProgram = .ok (8, 4) ∧
      Context.parent replyProgram (c.strayed ⟨⟨6⟩, 1⟩).thread.registers 4 = .ok 0 ∧
      Context.readInt replyProgram (c.strayed ⟨⟨6⟩, 1⟩).thread.registers 6 = .ok 4 ∧
      ((c.strayed ⟨⟨6⟩, 1⟩).thread.registers.cell 7).tag = replyProgram.intClass ∧
      Machine.fastResume replyProgram (replyProgram.int 20) (c.strayed ⟨⟨6⟩, 1⟩) = .ok () f ∧
      Machine.reify replyProgram (c.machine.argument 0) (c.strayed ⟨⟨6⟩, 1⟩) = .ok () m' ∧
      Machine.resume replyProgram (m'.thread.registers.cell 6) (replyProgram.int 20)
        (m'.readied .registeredCore) = .ok () r ∧
      f.thread.pos = 1 ∧ r.thread.pos = 2 := by
  have htest : Config.comesTo replyProgram replyNatives (fun _ c =>
      decide ((c.strayed ⟨⟨6⟩, 1⟩).shield replyProgram = .ok (8, 4)) &&
      decide (Context.parent replyProgram (c.strayed ⟨⟨6⟩, 1⟩).thread.registers 4 = .ok 0) &&
      decide (Context.readInt replyProgram (c.strayed ⟨⟨6⟩, 1⟩).thread.registers 6 = .ok 4) &&
      decide (((c.strayed ⟨⟨6⟩, 1⟩).thread.registers.cell 7).tag = replyProgram.intClass) &&
      Machine.gives (Machine.fastResume replyProgram (replyProgram.int 20)
        (c.strayed ⟨⟨6⟩, 1⟩)) () (fun f => decide (f.thread.pos = 1)) &&
      Machine.gives (Machine.reify replyProgram (c.machine.argument 0)
        (c.strayed ⟨⟨6⟩, 1⟩)) () (fun m' =>
          Machine.gives (Machine.resume replyProgram (m'.thread.registers.cell 6)
            (replyProgram.int 20) (m'.readied .registeredCore)) () (fun r =>
              decide (r.thread.pos = 2)))) 25 (replyStart ⟨12, 24⟩) = true := by decide +kernel
  obtain ⟨past, c, hcourse, htest⟩ := Course.exists_of_comesTo htest
  simp only [Bool.and_eq_true, decide_eq_true_eq] at htest
  obtain ⟨⟨⟨⟨⟨hshield, hparent⟩, hdepth⟩, htarget⟩, hfast⟩, hreify⟩ := htest
  obtain ⟨f, hfast, hpos⟩ := Machine.exists_of_gives hfast
  obtain ⟨m', hreify, hresume⟩ := Machine.exists_of_gives hreify
  obtain ⟨r, hresume, hpos'⟩ := Machine.exists_of_gives hresume
  exact ⟨past, c, f, m', r, hcourse, hshield, hparent, hdepth, htarget, hfast, hreify, hresume,
    of_decide_eq_true hpos, of_decide_eq_true hpos'⟩

end EffectMachine
