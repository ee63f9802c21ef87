/-
Continuations are resumed anywhere, and any number of times.

A continuation holds the registers captured in an array. Rounds move the array and what it names,
and only a write to it changes what it holds. Links and return records are distances, so that the
registers may be laid down at any frame, as often as the program likes.

* `Config.overwrites`: whether rounds write to a continuation;
* `Machine.Stores.round`, `Trail.stores`: **a continuation holds the registers that have been
  captured**, where the collections have put them;
* `Context.Links.unwind_move`: unwinding from a record that has moved;
* `continuation_resumes`: **resuming succeeds as far as the registers have room**, and goes on
  where the trigger returns to;
* `handoverProgram`: a handler whose continuation is made in another context.
-/
import EffectMachine.Proofs.TriggerReturns

namespace EffectMachine

/-! ### Walks along records that have moved -/

namespace Context

variable {P : Program} {rs rs' : Registers} {ctx : Nat} {chain : List Nat}

/-- The synthetic record that is found is one of those linked. -/
lemma Links.mem_of_synthetic (h : Links P rs ctx chain) {s : Nat}
    (hs : synthetic P rs ctx = .ok s) : s ∈ chain := by
  induction h with
  | nil =>
      rw [synthetic_eq, if_pos rfl] at hs
      cases hs
  | @cons r p chain hp _ ih =>
      have hlt := parent_lt hp
      rw [synthetic_eq, if_neg (by omega)] at hs
      cases hget : rs.get (r + 1) with
      | error e =>
          rw [hget] at hs
          cases hs
      | ok handler =>
          rw [hget, hp] at hs
          dsimp only [Except.bind] at hs
          split at hs
          · cases hs
            exact List.mem_cons_self
          · exact List.mem_cons_of_mem _ (ih hs)

/-- Linked records can be unwound. -/
lemma Links.exists_unwind (h : Links P rs ctx chain) (frame : Nat) :
    ∃ u, Context.unwind P rs frame ctx = .ok u := by
  induction h with
  | nil => exact ⟨0, by rw [unwind_eq, if_pos (.inl rfl)]⟩
  | cons hp _ ih =>
      rw [unwind_eq]
      split
      · exact ⟨_, rfl⟩
      · rw [hp]
        exact ih

/-- Registers that hold links alike, laid down elsewhere, are unwound to the moved record, if
the last one that is moved ends below the frame. -/
lemma Links.unwind_move (hint : P.fieldCount P.intClass = 0) {source target frame : Nat}
    {seg rest : List Nat} (h : Links P rs ctx (seg ++ source :: rest))
    (hseg : ∀ r ∈ seg, source < r)
    (hcell : ∀ r ∈ seg, (rs.cell r).Alike P (rs'.cell (r - source + target)) ∧
      r - source + target < rs'.size) (hframe : source + recordSize ≤ frame) :
    ∃ u, Context.unwind P rs frame ctx = .ok u ∧ source ≤ u ∧
      Context.unwind P rs' (frame - source + target) (ctx - source + target) =
        .ok (u - source + target) := by
  induction seg generalizing ctx with
  | nil =>
      cases h with
      | cons =>
          refine ⟨source, ?_, Nat.le_refl _, ?_⟩
          · rw [unwind_eq, if_pos (.inr hframe)]
          · rw [unwind_eq, if_pos (.inr (by omega))]
  | cons d seg ih =>
      cases h with
      | @cons _ p _ hp h =>
          have hsource := hseg d List.mem_cons_self
          have hseg' : ∀ r ∈ seg, source < r := fun r hr => hseg r (List.mem_cons_of_mem _ hr)
          obtain ⟨u, hu, hle, hmoved⟩ := ih h hseg' fun r hr =>
            hcell r (List.mem_cons_of_mem _ hr)
          by_cases hend : d + recordSize ≤ frame
          · refine ⟨d, ?_, Nat.le_of_lt hsource, ?_⟩
            · rw [unwind_eq, if_pos (.inr hend)]
            · rw [unwind_eq, if_pos (.inr (by omega))]
          · have hnext := h.le_start hseg'
            obtain ⟨halike, hsize⟩ := hcell d List.mem_cons_self
            have hlt := parent_lt hp
            have hparent := parent_of_alike hint hp halike hsize (by omega)
            rw [show d - source + target - (d - p) = p - source + target by omega] at hparent
            refine ⟨u, ?_, hle, ?_⟩
            · rw [unwind_eq, if_neg (by omega), hp]
              exact hu
            · rw [unwind_eq, if_neg (by omega), hparent]
              exact hmoved

/-- Below the innermost synthetic record, the links lead to the record that it serves. -/
lemma WellFormed.exists_segment (h : WellFormed P rs ctx chain) {s b : Nat}
    (hs : synthetic P rs ctx = .ok s) (hb : handling rs s = .ok b) :
    ∃ mid rest, Links P rs s ((s :: mid) ++ b :: rest) ∧
      (∀ r ∈ s :: mid, r ∈ chain ∧ b + recordSize ≤ r) ∧ ∀ r ∈ mid, r + recordSize ≤ s := by
  obtain ⟨front, back, rfl⟩ := List.append_of_mem (h.links.mem_of_synthetic hs)
  obtain ⟨-, -, -, hserved⟩ := handling_eq_ok.mp hb
  have hmem := (h.serves front s back rfl (synthetic_spec hs).2.2.2).1
  rw [served, ← hserved] at hmem
  obtain ⟨mid, rest, rfl⟩ := List.append_of_mem hmem
  have hspaced := (List.pairwise_append.mp h.spaced).2.1
  rw [← List.cons_append] at hspaced
  refine ⟨mid, rest, h.links.of_append, fun r hr => ⟨?_, ?_⟩, fun r hr => ?_⟩
  · exact List.mem_append_right front (List.mem_append_left (b :: rest) hr)
  · exact (List.pairwise_append.mp hspaced).2.2 r hr b List.mem_cons_self
  · exact (List.pairwise_cons.mp hspaced).1 r (List.mem_append_left _ hr)

/-- No record lies between a synthetic record and the one right below that it serves. -/
lemma WellFormed.parent_synthetic (h : WellFormed P rs ctx chain) {s b : Nat}
    (hs : synthetic P rs ctx = .ok s) (hb : handling rs s = .ok b) (hlast : s = b + recordSize) :
    parent P rs s = .ok b := by
  obtain ⟨mid, rest, hlinks, hlow, hhigh⟩ := h.exists_segment hs hb
  have hnone : mid = [] := List.eq_nil_iff_forall_not_mem.mpr fun r hr => by
    have hlow := (hlow r (List.mem_cons_of_mem _ hr)).2
    have hhigh := hhigh r hr
    rw [recordSize] at *
    omega
  subst hnone
  cases hlinks with
  | cons hp hrest =>
      cases hrest with
      | cons => exact hp

end Context

/-! ### What a continuation holds later -/

namespace Config

variable {P : Program} {natives : Natives} {c : Config} {m' : Machine}

lemma alike_of_moved? {v w : Value} (h : c.moved? P natives m' v = some w) : v.Alike P w := by
  rw [moved?] at h
  split at h
  · exact Machine.alike_of_reifyMoved? h
  · refine ⟨(Heap.tag_of_moved? h).symm, fun hv => ?_⟩
    rw [Machine.moved?_of_inline hv, Option.some.injEq] at h
    exact h

lemma alike_of_carried? {since : List Config} {v w : Value}
    (h : carried? P natives since m' v = some w) : v.Alike P w := by
  induction since generalizing m' w with
  | nil =>
      cases h
      exact .refl v
  | cons c since ih =>
      obtain ⟨u, hu, hw⟩ := Option.bind_eq_some_iff.mp h
      exact (ih hu).trans (alike_of_moved? hw)

/-- Whether one of the rounds, the latest one first, writes to the continuation or to the array
in which it holds the registers captured. -/
def overwrites (P : Program) (natives : Natives) : List Config → Value → Bool
  | [], _ => false
  | c :: since, k => overwrites P natives since k ||
      (carried? P natives since c.machine k).any fun k' => c.writes P natives k' ||
        c.writes P natives (c.machine.image.heap.front.cell k'.offset)

end Config

namespace Machine

variable {P : Program} {m' : Machine} {k : Value} {vs : List Value} {cs cs' : List ClassId}

/-- A round that writes neither to a continuation nor to its array leaves what it holds. -/
lemma Stores.round {natives : Natives} {c : Config} {f : Value → Option Value} {k' : Value}
    (h : c.machine.Stores P f vs k) (hs : c.machine.Sound P cs) (hk : k.Sound P.fieldCount cs)
    (hcarries : c.Carries P natives m' cs cs') (hmoved : c.moved? P natives m' k = some k')
    (hself : c.writes P natives k = false)
    (hother : c.writes P natives (c.machine.image.heap.front.cell k.offset) = false) :
    m'.Stores P (fun v => (f v).bind (c.moved? P natives m')) vs k' := by
  have htag := hcarries.tag k k' hmoved
  have hend : k.offset + P.fieldCount k.tag ≤ c.machine.image.heap.top :=
    hs.heap.end_le (hk.names (by rw [h.single]; exact Nat.one_pos))
  have hsingle := h.single
  have harray : c.moved? P natives m' (c.machine.image.heap.front.cell k.offset) =
      some (m'.image.heap.front.cell k'.offset) :=
    hcarries.field k k' hk hmoved hself 0 (by omega)
  refine ⟨htag ▸ h.tag, htag ▸ h.single, h.length, (hcarries.tag _ _ harray).trans h.array,
    fun i v hi => ?_⟩
  rw [h.words i v hi, Option.bind_some]
  refine hcarries.field _ _ (hs.heap.words k.offset (by omega)) harray hother i ?_
  rw [h.array, ← h.length]
  exact (List.getElem?_eq_some_iff.mp hi).1

end Machine

/-- A round that makes a continuation hands it on as the first argument. -/
lemma Config.exists_stores {P : Program} (hP : P.Linked) (hscalars : P.InlineScalars)
    {natives : Natives}
    (hcore : ∀ (index : Nat) x, natives.entries[index]? = some x → x ∈ coreNatives)
    {d : Config} {cs : List ClassId} (hs : d.machine.Sound P cs)
    (hsettled : d.machine.Settled) (hframe : d.InFrame P natives)
    (hreifies : d.reifies P natives = true) {call : Option MethodId} {m : Machine}
    (hadvance : d.advance P natives = .ok call m) :
    ∃ s b vs, d.machine.shield P = .ok (s, b) ∧
      d.machine.thread.registers.slice b (s + 4 - b) = .ok vs ∧
      m.Keeps (m.thread.registers.cell (b + 2)) ∧
      m.Stores P (d.moved? P natives m) vs (m.thread.registers.cell (b + 2)) := by
  have hstep := heapStep (T := True) hcore (fun _ => ⟨hP.plain hscalars, hsettled, hframe⟩)
    hadvance
  cases hstep with
  | quiet plain => cases plain.symm.trans hreifies
  | write set => rw [reifies, set] at hreifies; cases hreifies
  | create plain => cases plain.symm.trans hreifies
  | @reify m₁ m₂ m'' s b vs array k plain reified left draws =>
      obtain ⟨hbody, hvs⟩ := draws trivial
      have hreadied : (d.machine.readied
          (.native "core:reify_handler_context" d.machine.thread.value)).Sound P cs :=
        hs.draws rfl fun v hv => .inr (hv.of_eq rfl rfl rfl rfl (Nat.le_refl _))
      obtain ⟨-, -, -, htag, hsingle, hlength, harray, hwords⟩ := reified.stores hP
        (hreadied.capturing (hs.kept _ hbody)) fun v hv => hs.kept v (hvs v hv)
      have hk : m''.thread.registers.cell (b + 2) = k := reified.cell_continuation
      have hlive : b + 2 < m''.thread.liveEnd := by
        rw [Thread.liveEnd, reified.frame, reified.frameEnd]
        exact Nat.lt_succ_self _
      subst left
      rw [← hk] at htag hsingle harray hwords
      rw [moved?, hreifies]
      exact ⟨s, b, vs, reified.shield, reified.slice, .register hlive, htag, hsingle, hlength,
        harray, hwords⟩

/-- **A continuation holds the registers that have been captured**, where the rounds since then
have put them, if none of those has written to it. -/
lemma Trail.stores {P : Program} (hP : P.Linked) (hscalars : P.InlineScalars) {options : Options}
    (hwords : options.heapWords ≤ 2 ^ 32) {natives : Natives} {m₀ : Machine}
    (hstart : Starts P options natives m₀) {since older : List Config} {c d : Config}
    (ht : Trail P natives m₀ (since ++ d :: older) c)
    (hframes : ∀ c' ∈ since ++ d :: older, c'.InFrame P natives)
    (hreifies : d.reifies P natives = true) {call : Option MethodId} {m : Machine}
    (hadvance : d.advance P natives = .ok call m) {s b : Nat}
    (hshield : d.machine.shield P = .ok (s, b)) {k : Value}
    (hk : Config.carried? P natives since c.machine (m.thread.registers.cell (b + 2)) = some k)
    (hkept : Config.overwrites P natives since (m.thread.registers.cell (b + 2)) = false) :
    ∃ cs vs, c.machine.Sound P cs ∧ k.Sound P.fieldCount cs ∧
      d.machine.thread.registers.slice b (s + 4 - b) = .ok vs ∧
      c.machine.Stores P (Config.carried? P natives (since ++ [d]) c.machine) vs k := by
  have hcore : ∀ (index : Nat) x, natives.entries[index]? = some x → x ∈ coreNatives :=
    fun _ _ => hstart.mem_coreNatives
  have hplain := hP.plain hscalars
  -- by induction on the rounds since the continuation has been made
  induction since generalizing c k with
  | nil =>
      cases hk
      cases ht with
      | round ht hadvance' =>
          cases hadvance'.symm.trans hadvance
          obtain ⟨hsettled, cs, hs⟩ := ht.sound hplain hwords hstart fun c' hc' =>
            hframes c' (List.mem_cons_of_mem _ hc')
          obtain ⟨-, cs', hs'⟩ := (ht.round hadvance).sound hplain hwords hstart hframes
          obtain ⟨s', b', vs, hshield', hslice, hkeeps, hstores⟩ := d.exists_stores hP hscalars
            hcore hs hsettled (hframes d List.mem_cons_self) hreifies hadvance
          cases hshield'.symm.trans hshield
          exact ⟨cs', vs, hs', hs'.kept _ hkeeps, hslice, hstores⟩
  | cons e since ih =>
      cases ht with
      | @round _ _ call' m' ht hadvance' =>
          obtain ⟨k', hk', hmoved⟩ := Option.bind_eq_some_iff.mp hk
          rw [Config.overwrites, hk', Option.any_some, Bool.or_eq_false_iff,
            Bool.or_eq_false_iff] at hkept
          have hframes' : ∀ c' ∈ since ++ d :: older, c'.InFrame P natives :=
            fun c' hc' => hframes c' (List.mem_cons_of_mem _ hc')
          obtain ⟨cs, vs, hs, hsound, hslice, hstores⟩ := ih ht hframes' hk' hkept.1
          obtain ⟨hsettled, -⟩ := ht.sound hplain hwords hstart hframes'
          obtain ⟨cs', hs', hcarries⟩ := e.carries hP hscalars hcore hs hsettled
            (hframes e List.mem_cons_self) hadvance'
          exact ⟨cs', vs, hs', hcarries.sound _ _ hsound hmoved, hslice,
            hstores.round hs hsound hcarries hmoved hkept.2.1 hkept.2.2⟩

/-! ### Return records that lead to a caller -/

/-- The return record of the frame leads down to the caller's frame, and to a position in it. -/
structure Registers.ReturnsTo (P : Program) (rs : Registers) (frame caller : Nat) (pos : UInt32) :
    Prop where
  record : rs.HoldsReturn P frame (Int32.ofNat (frame - caller)) pos
  le : caller ≤ frame

namespace Machine

variable {P : Program} {d m : Machine} {s b caller : Nat} {words : List Value} {pos : UInt32}

/-- A thread returns to the caller that its return record leads to. -/
lemma exists_ret (hm : m.transfer = none) (hsize : m.thread.registers.size ≤ 2 ^ 31)
    (hreturn : m.thread.registers.ReturnsTo P m.thread.frame caller pos)
    (hroom : m.thread.frame + 1 < m.thread.registers.size) {u : Nat}
    (hunwind : Context.unwind P m.thread.registers caller m.thread.context = .ok u) (v : Value) :
    ∃ r, ret P v m = .ok () r ∧ r.thread.value = v ∧ r.thread.pos = pos ∧
      r.thread.frame = caller ∧ r.thread.context = u ∧
      r.thread.registers = m.thread.registers := by
  obtain ⟨⟨hdepth, htarget⟩, hle⟩ := hreturn
  have hint : (Int32.ofNat (m.thread.frame - caller)).toInt = (m.thread.frame - caller : Nat) :=
    Int32.toInt_ofNat_of_lt (by omega)
  have hcaller : m.thread.frame - (Int32.ofNat (m.thread.frame - caller)).toInt.toNat = caller := by
    omega
  refine ⟨_, ret_iff.mpr ⟨hm, _, u, hdepth, hroom, by omega, by omega, ?_, rfl⟩, rfl, ?_, hcaller,
    rfl, rfl⟩
  · rw [hcaller]
    exact hunwind
  · exact congrArg Value.data htarget

/-! ### Laying a continuation down -/

/-- The return record of the handled computation comes to lead where the call that resumes it
returns to. -/
lemma grafted_returnsTo (hlen : minCapture ≤ words.length)
    (hroom : m.thread.frame + words.length ≤ m.thread.registers.size)
    (hreturn : m.thread.registers.ReturnsTo P m.thread.frame caller pos) :
    (m.grafted P words (Int32.ofNat (m.thread.frame - caller))).thread.registers.ReturnsTo P
      (m.thread.frame + bodyRecordOffset (words.length - 2 * recordSize)) caller pos := by
  obtain ⟨⟨-, htarget⟩, hle⟩ := hreturn
  obtain ⟨hshift, hcell, hcell'⟩ := bodyRecord_grafted (P := P) hlen hroom
    (Int32.ofNat (m.thread.frame - caller))
  have hdepth : m.thread.frame + bodyRecordOffset (words.length - 2 * recordSize) - caller =
      m.thread.frame - caller + bodyRecordOffset (words.length - 2 * recordSize) := by omega
  refine ⟨⟨?_, ?_⟩, by omega⟩
  · rw [readInt_eq_ok, (keeps_grafted P m words _).size, hdepth, Int32.ofNat_add]
    exact ⟨by omega, hcell⟩
  · rw [htarget] at hcell'
    exact hcell'

/-- Unwinding from the record laid at the frame is unwinding from the innermost one before, if
the caller's frame is no higher. -/
lemma unwind_grafted (hint : P.fieldCount P.intClass = 0)
    (hsize : m.thread.registers.size ≤ 2 ^ 31)
    (hroom : m.thread.frame < m.thread.registers.size)
    (hcontext : m.thread.context = 0 ∨ m.thread.context + recordSize ≤ m.thread.frame)
    (hcaller : caller ≤ m.thread.frame) (words : List Value) (depth : Int32) :
    Context.unwind P (m.grafted P words depth).thread.registers caller m.thread.frame =
      Context.unwind P m.thread.registers caller m.thread.context := by
  rw [recordSize] at hcontext
  rcases Nat.eq_zero_or_pos m.thread.frame with hzero | hpos
  · -- there is no record below register 0
    rw [hzero, show m.thread.context = 0 by omega, Context.unwind_eq, Context.unwind_eq P,
      if_pos (.inl rfl), if_pos (.inl rfl)]
  · have hkeeps := keeps_grafted P m words depth
    have hlink : (m.grafted P words depth).thread.registers.cell m.thread.frame =
        P.nat (m.thread.frame - m.thread.context) := link_overlay hroom _ _
    have hparent : Context.parent P (m.grafted P words depth).thread.registers m.thread.frame =
        .ok m.thread.context := by
      rw [Context.parent_eq_ok, hlink, Program.signed_nat (by omega), hkeeps.size]
      exact ⟨by omega, rfl, by omega, by omega, by omega⟩
    have halike : m.thread.registers.Alike P m.thread.frame
        (m.grafted P words depth).thread.registers :=
      ⟨by omega, by rw [hkeeps.size]; omega, hkeeps.cell⟩
    rw [Context.unwind_eq, if_neg (by rw [recordSize]; omega), hparent]
    exact (Context.unwind_congr hint halike caller (by omega)).symm

/-- The words are the registers that the machine captures, from the record served to the end of
the handler's return record, up to where objects lie. -/
structure Copies (P : Program) (d : Machine) (s b : Nat) (words : List Value) : Prop where
  apart : b + 2 ≤ s
  length : words.length = s + 4 - b
  cells : ∀ i < words.length, (d.thread.registers.cell (b + i)).Alike P ((words[i]?).getD .nil)

namespace Copies

lemma minCapture_le (h : d.Copies P s b words) : minCapture ≤ words.length := by
  have hapart := h.apart
  rw [h.length, minCapture, recordSize]
  omega

/-- The synthetic record is as far from the first word as from the record served. -/
lemma offset (h : d.Copies P s b words) : words.length - 2 * recordSize = s - b := by
  have hapart := h.apart
  rw [h.length, recordSize]
  omega

lemma context_grafted (h : d.Copies P s b words) (depth : Int32) :
    (m.grafted P words depth).thread.context = s - b + m.thread.frame := by
  show m.thread.frame + (words.length - 2 * recordSize) = _
  rw [h.offset, Nat.add_comm]

lemma frame_grafted (h : d.Copies P s b words) (depth : Int32) :
    (m.grafted P words depth).thread.frame = s - b + m.thread.frame + 2 :=
  congrArg (· + recordSize) (h.context_grafted depth)

/-- A register that is not replaced comes to hold what has been captured there, up to where
objects lie. -/
lemma alike_grafted (h : d.Copies P s b words)
    (hroom : m.thread.frame + words.length ≤ m.thread.registers.size) (depth : Int32) {i : Nat}
    (hlow : b < i) (hhigh : i < s + 4)
    (hclear : i < b + bodyRecordOffset (s - b) ∨ b + bodyRecordOffset (s - b) + 2 ≤ i) :
    (d.thread.registers.cell i).Alike P
      ((m.grafted P words depth).thread.registers.cell (i - b + m.thread.frame)) := by
  obtain ⟨j, rfl⟩ := Nat.exists_eq_add_of_le (Nat.le_of_lt hlow)
  have hlen := h.length
  rw [Nat.add_sub_cancel_left, Nat.add_comm j, cell_grafted h.minCapture_le hroom depth (by omega),
    h.offset, if_neg (by omega), if_neg (by omega), if_neg (by omega)]
  exact h.cells j (by omega)

/-- The registers that a continuation has been laid down in. -/
lemma registers_grafted (h : d.Copies P s b words)
    (hroom : m.thread.frame + words.length ≤ m.thread.registers.size)
    (hreturn : m.thread.registers.ReturnsTo P m.thread.frame caller pos)
    {f : Value → Option Value} (hf : ∀ i < words.length,
      f (d.thread.registers.cell (b + i)) = some ((words[i]?).getD .nil)) {rs : Registers}
    (hrs : rs = (m.grafted P words (Int32.ofNat (m.thread.frame - caller))).thread.registers) :
    (∀ i < m.thread.frame, rs.cell i = m.thread.registers.cell i) ∧
    rs.cell m.thread.frame = P.nat (m.thread.frame - m.thread.context) ∧
    rs.ReturnsTo P (m.thread.frame + bodyRecordOffset (s - b)) caller pos ∧
    ∀ i < words.length, i ≠ 0 → i ≠ bodyRecordOffset (s - b) →
      i ≠ bodyRecordOffset (s - b) + 1 →
      f (d.thread.registers.cell (b + i)) = some (rs.cell (m.thread.frame + i)) := by
  subst hrs
  have hmin := h.minCapture_le
  have hholds := grafted_returnsTo hmin hroom hreturn
  rw [h.offset] at hholds
  refine ⟨fun i hi => grafted_cell_of_lt P words _ hi, link_overlay ?_ _ _, hholds,
    fun i hi hzero hne hne' => ?_⟩
  · rw [minCapture, recordSize] at hmin
    omega
  · rw [hf i hi, cell_grafted hmin hroom _ hi, h.offset, if_neg hzero, if_neg hne, if_neg hne']

/-- The return record of a trigger that was not the last call leads to its caller where that has
come to lie. -/
lemma returnsTo_grafted (h : d.Copies P s b words) (hint : P.fieldCount P.intClass = 0)
    (hne : s ≠ b + 2) (hroom : m.thread.frame + words.length ≤ m.thread.registers.size)
    (depth : Int32) {base : Nat} (htrigger : d.thread.registers.ReturnsTo P (s + 2) base pos)
    (hbase : b + 2 ≤ base) :
    (m.grafted P words depth).thread.registers.ReturnsTo P (s - b + m.thread.frame + 2)
      (base - b + m.thread.frame) pos := by
  obtain ⟨⟨hdepth, htarget⟩, hle⟩ := htrigger
  obtain ⟨-, hdepth⟩ := readInt_eq_ok.mp hdepth
  have hapart := h.apart
  have hlen := h.length
  have hoffset : bodyRecordOffset (s - b) = 2 := by
    rw [bodyRecordOffset, recordSize, if_neg (by omega)]
  have halike := h.alike_grafted hroom depth (i := s + 2) (by omega) (by omega) (by omega)
  have halike' := h.alike_grafted hroom depth (i := s + 3) (by omega) (by omega) (by omega)
  rw [show s + 2 - b + m.thread.frame = s - b + m.thread.frame + 2 by omega] at halike
  rw [show s + 3 - b + m.thread.frame = s - b + m.thread.frame + 2 + 1 by omega] at halike'
  refine ⟨⟨?_, ?_⟩, by omega⟩
  · rw [readInt_eq_ok, (keeps_grafted P m words depth).size,
      show s - b + m.thread.frame + 2 - (base - b + m.thread.frame) = s + 2 - base by omega]
    exact ⟨by omega, (halike.2 (by rw [hdepth]; exact hint)).symm.trans hdepth⟩
  · exact (halike'.2 (by rw [htarget]; exact hint)).symm.trans htarget

/-- If the trigger was the last call of the handled computation, the registers laid down are left
to where the call that resumes returns. -/
lemma exists_ret_last (h : d.Copies P s b words) (hint : P.fieldCount P.intClass = 0)
    (hlast : s = b + 2) (hm : m.transfer = none) (hsize : m.thread.registers.size ≤ 2 ^ 31)
    (hroom : m.thread.frame + words.length ≤ m.thread.registers.size)
    (hparent : Context.parent P d.thread.registers s = .ok b)
    (hcontext : m.thread.context = 0 ∨ m.thread.context + 2 ≤ m.thread.frame)
    (hreturn : m.thread.registers.ReturnsTo P m.thread.frame caller pos) {u : Nat}
    (hunwind : Context.unwind P m.thread.registers caller m.thread.context = .ok u) (v : Value) :
    ∃ r, ret P v (m.grafted P words (Int32.ofNat (m.thread.frame - caller))) = .ok () r ∧
      r.thread.value = v ∧ r.thread.pos = pos ∧ r.thread.frame = caller ∧ r.thread.context = u ∧
      r.thread.registers =
        (m.grafted P words (Int32.ofNat (m.thread.frame - caller))).thread.registers := by
  have hlen := h.length
  have hoffset : bodyRecordOffset (s - b) = 4 := by
    rw [bodyRecordOffset, if_pos (by rw [recordSize]; omega), recordSize]
  have hkeeps := keeps_grafted P m words (Int32.ofNat (m.thread.frame - caller))
  have hframe := h.frame_grafted (m := m) (Int32.ofNat (m.thread.frame - caller))
  have hholds := grafted_returnsTo h.minCapture_le hroom hreturn
  rw [h.offset, hoffset,
    show m.thread.frame + 4 = s - b + m.thread.frame + 2 by omega, ← hframe] at hholds
  -- the record laid at the frame encloses the synthetic one
  have hparent' := Context.parent_of_alike hint hparent
    (h.alike_grafted hroom (Int32.ofNat (m.thread.frame - caller)) (by omega) (by omega) (by omega))
    (by rw [hkeeps.size]; omega) (by omega)
  rw [show s - b + m.thread.frame - (s - b) = m.thread.frame by omega] at hparent'
  refine exists_ret (m := m.grafted P words _) hm (hkeeps.size ▸ hsize) hholds
    (by rw [hframe, hkeeps.size]; omega) ?_ v
  have hcaller := hreturn.le
  rw [h.context_grafted, Context.unwind_eq, if_neg (by omega), hparent']
  exact (unwind_grafted hint hsize (by omega) hcontext hcaller words _).trans hunwind

/-- Otherwise they are left to where the trigger has been called from. -/
lemma exists_ret_inner (h : d.Copies P s b words) (hint : P.fieldCount P.intClass = 0)
    (hne : s ≠ b + 2) (hm : m.transfer = none) (hsize : m.thread.registers.size ≤ 2 ^ 31)
    (hroom : m.thread.frame + words.length ≤ m.thread.registers.size) {seg rest : List Nat}
    (hlinks : Context.Links P d.thread.registers s (seg ++ b :: rest))
    (hseg : ∀ r ∈ seg, b + 4 ≤ r ∧ r ≤ s) {base : Nat}
    (htrigger : d.thread.registers.ReturnsTo P (s + 2) base pos) (hbase : b + 2 ≤ base)
    (depth : Int32) (v : Value) :
    ∃ u r, Context.unwind P d.thread.registers base s = .ok u ∧ b ≤ u ∧
      ret P v (m.grafted P words depth) = .ok () r ∧ r.thread.value = v ∧ r.thread.pos = pos ∧
      r.thread.frame = base - b + m.thread.frame ∧ r.thread.context = u - b + m.thread.frame ∧
      r.thread.registers = (m.grafted P words depth).thread.registers := by
  have hapart := h.apart
  have hlen := h.length
  have hoffset : bodyRecordOffset (s - b) = 2 := by
    rw [bodyRecordOffset, recordSize, if_neg (by omega)]
  have hkeeps := keeps_grafted P m words depth
  have hframe := h.frame_grafted (m := m) depth
  obtain ⟨u, hu, hle, hunwind⟩ := hlinks.unwind_move hint (fun r hr => by
      have hlow := hseg r hr
      omega)
    (fun r hr => by
      obtain ⟨hlow, hhigh⟩ := hseg r hr
      rw [hkeeps.size]
      exact ⟨h.alike_grafted hroom depth (by omega) (by omega) (by omega), by omega⟩) hbase
  rw [← h.context_grafted depth] at hunwind
  have hholds := h.returnsTo_grafted hint hne hroom depth htrigger hbase
  rw [← hframe] at hholds
  obtain ⟨r, hr⟩ := exists_ret (m := m.grafted P words depth) hm (hkeeps.size ▸ hsize) hholds
    (by rw [hframe, hkeeps.size]; omega) hunwind v
  exact ⟨u, r, hu, hle, hr⟩

end Copies

end Machine

/-! ### Resuming -/

/-- What a continuation has captured is a copy of the registers, and every word of it is where
the rounds since then have put what was in the register. -/
lemma Trail.exists_copies {P : Program} (hP : P.Linked) (hscalars : P.InlineScalars)
    {options : Options} (hwords : options.heapWords ≤ 2 ^ 32)
    (hregisters : options.registers ≤ 2 ^ 31) {natives : Natives} {m₀ : Machine}
    (hstart : Starts P options natives m₀) {since older : List Config} {c d : Config}
    (ht : Trail P natives m₀ (since ++ d :: older) c)
    (hframes : ∀ c' ∈ since ++ d :: older, c'.InFrame P natives)
    (hreifies : d.reifies P natives = true) {call : Option MethodId} {m : Machine}
    (hadvance : d.advance P natives = .ok call m) {s b : Nat}
    (hshield : d.machine.shield P = .ok (s, b)) {k : Value}
    (hk : Config.carried? P natives since c.machine (m.thread.registers.cell (b + 2)) = some k)
    (hkept : Config.overwrites P natives since (m.thread.registers.cell (b + 2)) = false) :
    P.builtins.get? .continuation = some k.tag ∧ ∃ words, c.machine.captured P k = .ok words ∧
      d.machine.Copies P s b words ∧ ∀ i < words.length,
        Config.carried? P natives (since ++ [d]) c.machine
          (d.machine.thread.registers.cell (b + i)) = some ((words[i]?).getD .nil) := by
  obtain ⟨cs, vs, hs, hsound, hslice, hstores⟩ := ht.stores hP hscalars hwords hstart hframes
    hreifies hadvance hshield hk hkept
  obtain ⟨hend, hcount, hvs⟩ := Registers.slice_eq_ok hslice
  obtain ⟨hpos, hapart⟩ := Context.handling_spec (Machine.shield_eq_ok.mp hshield).2
  have hsize : d.machine.thread.registers.size ≤ 2 ^ 31 :=
    ((ht.of_suffix (List.suffix_append since (d :: older))).registers_size hstart).trans_le
      hregisters
  rw [recordSize] at hapart
  obtain ⟨words, hcaptured, hmoved⟩ := hstores.exists_captured hs.heap hsound (by omega)
    (by omega)
  obtain ⟨hlen, hcells⟩ := Registers.alike_of_slice (P := P) hslice
    (hmoved.imp fun _ _ => Config.alike_of_carried?)
  refine ⟨hstores.tag, words, hcaptured, ⟨hapart, hlen, fun i hi => hcells i (hlen ▸ hi)⟩,
    fun i hi => ?_⟩
  have hi' : i < vs.length := hmoved.length_eq ▸ hi
  have hpair := (List.forall₂_iff_get.mp hmoved).2 i hi' hi
  have hcell := hvs i (hcount ▸ hi')
  rw [List.getElem?_eq_getElem hi', Option.some.injEq] at hcell
  rw [List.getElem?_eq_getElem hi, Option.getD_some, ← hcell]
  exact hpair

/-- If an operation succeeds only under a condition, and then with a property, success is the
condition, and every success has the property. -/
lemma Machine.succeeds_iff {x : EStateM.Result Fault Machine Unit} {R : Prop}
    {Q : Machine → Prop} (honly : ∀ r, x = .ok () r → R) (h : R → ∃ r, x = .ok () r ∧ Q r) :
    ((∃ r, x = .ok () r) ↔ R) ∧ ∀ r, x = .ok () r → Q r := by
  refine ⟨⟨fun ⟨r, hr⟩ => honly r hr, fun hR => ?_⟩, fun r hr => ?_⟩
  · obtain ⟨r, hr, -⟩ := h hR
    exact ⟨r, hr⟩
  · obtain ⟨r', hr', hq⟩ := h (honly r hr)
    cases hr'.symm.trans hr
    exact hq

variable {P : Program} {options : Options} {natives : Natives} {m₀ : Machine}

/-- **A continuation can be resumed anywhere, and again.** It has been made where the records
were well formed, none of them over the return record of the handled computation, and the return
record of the trigger led into that computation. Nothing has written to it since. Then, where
records are well formed, it is resumed as far as the registers have room. The value goes to the
value register. The registers captured stand at the frame, where rounds have put them, with the
link to the innermost record there and with the return record of the call that resumes. The
registers below the frame stay. If the trigger was the last call of the handled computation, the
thread returns where the call that resumes does. Otherwise it goes on where the trigger returns to,
in the frame and the context that the trigger was called from, as far up as they have come to
lie. -/
theorem continuation_resumes (hP : P.Linked) (hscalars : P.InlineScalars)
    (hwords : options.heapWords ≤ 2 ^ 32) (hregisters : options.registers ≤ 2 ^ 31)
    (hstart : Starts P options natives m₀) {since older : List Config} {c d : Config}
    (ht : Trail P natives m₀ (since ++ d :: older) c)
    (hframes : ∀ c' ∈ since ++ d :: older, c'.InFrame P natives) {native : Native}
    (hnative : d.native? P natives = some ("core:reify_handler_context", native))
    {call : Option MethodId} {m : Machine} (hadvance : d.advance P natives = .ok call m)
    {s b : Nat} (hshield : d.machine.shield P = .ok (s, b))
    (hchain : Context.WellFormed P d.machine.thread.registers d.machine.thread.context
      (d.machine.records P))
    (hbody : ∀ r ∈ d.machine.records P, r + 2 ≤ b + bodyRecordOffset (s - b) ∨
      b + bodyRecordOffset (s - b) + 2 ≤ r)
    {base : Nat} {pos : UInt32} (htrigger : s ≠ b + 2 →
      d.machine.thread.registers.ReturnsTo P (s + 2) base pos ∧ b + 2 ≤ base)
    {k : Value}
    (hk : Config.carried? P natives since c.machine (m.thread.registers.cell (b + 2)) = some k)
    (hkept : Config.overwrites P natives since (m.thread.registers.cell (b + 2)) = false)
    (hchain' : Context.WellFormed P c.machine.thread.registers c.machine.thread.context
      (c.machine.records P))
    (hcontext : c.machine.thread.context = 0 ∨
      c.machine.thread.context + 2 ≤ c.machine.thread.frame)
    {caller : Nat} {next : UInt32}
    (hreturn : c.machine.thread.registers.ReturnsTo P c.machine.thread.frame caller next)
    (v : Value) (e : Entry) :
    ((∃ r, Machine.resume P k v (c.machine.readied e) = .ok () r) ↔
      c.machine.thread.frame + (s + 4 - b) ≤ c.machine.thread.registers.size) ∧
    ∀ r, Machine.resume P k v (c.machine.readied e) = .ok () r →
      r.thread.value = v ∧
      (∀ i < c.machine.thread.frame,
        r.thread.registers.cell i = c.machine.thread.registers.cell i) ∧
      r.thread.registers.cell c.machine.thread.frame =
        P.nat (c.machine.thread.frame - c.machine.thread.context) ∧
      r.thread.registers.ReturnsTo P (c.machine.thread.frame + bodyRecordOffset (s - b)) caller
        next ∧
      (∀ i < s + 4 - b, i ≠ 0 → i ≠ bodyRecordOffset (s - b) → i ≠ bodyRecordOffset (s - b) + 1 →
        Config.carried? P natives (since ++ [d]) c.machine
            (d.machine.thread.registers.cell (b + i)) =
          some (r.thread.registers.cell (c.machine.thread.frame + i))) ∧
      (s = b + 2 → r.thread.pos = next ∧ r.thread.frame = caller ∧
        Context.unwind P c.machine.thread.registers caller c.machine.thread.context =
          .ok r.thread.context) ∧
      (s ≠ b + 2 → r.thread.pos = pos ∧
        r.thread.frame = base - b + c.machine.thread.frame ∧
        ∃ u, Context.unwind P d.machine.thread.registers base s = .ok u ∧ b ≤ u ∧
          r.thread.context = u - b + c.machine.thread.frame) := by
  have hint := hscalars.int
  have hsize : c.machine.thread.registers.size ≤ 2 ^ 31 :=
    (ht.registers_size hstart).trans_le hregisters
  obtain ⟨hsynthetic, hhandling⟩ := Machine.shield_eq_ok.mp hshield
  obtain ⟨htag, words, hcaptured, hcopies, hmoved⟩ := ht.exists_copies hP hscalars hwords
    hregisters hstart hframes (by rw [Config.reifies, hnative]; rfl) hadvance hshield hk hkept
  rw [← hcopies.length]
  refine Machine.succeeds_iff (fun r hr => ?_) fun hroom => ?_
  · obtain ⟨-, words', _, hcaptured', -, -, hroom, -⟩ := Machine.resume_iff.mp hr
    cases hcaptured'.symm.trans hcaptured
    exact hroom
  have hdone : ∀ r, Machine.ret P v ((c.machine.readied e).grafted P words
      (Int32.ofNat (c.machine.thread.frame - caller))) = .ok () r →
      Machine.resume P k v (c.machine.readied e) = .ok () r := fun r hr =>
    Machine.resume_iff.mpr ⟨htag, words, _, hcaptured, hcopies.minCapture_le,
      hreturn.record.depth, hroom, hr⟩
  have hlaid : ∀ r : Machine, r.thread.registers = _ → _ := fun r hr =>
    hcopies.registers_grafted (m := c.machine.readied e) hroom hreturn hmoved hr
  by_cases hlast : s = b + 2
  · obtain ⟨u, hu⟩ := hchain'.links.exists_unwind caller
    obtain ⟨r, hr, hvalue, hnext, hframe, hctx, hrs⟩ := hcopies.exists_ret_last
      (m := c.machine.readied e) hint hlast rfl hsize hroom
      (hchain.parent_synthetic hsynthetic hhandling hlast) hcontext hreturn hu v
    obtain ⟨hbelow, hlink, hholds, hrest⟩ := hlaid r hrs
    exact ⟨r, hdone r hr, hvalue, hbelow, hlink, hholds, hrest,
      fun _ => ⟨hnext, hframe, hctx ▸ hu⟩, fun hne => absurd hlast hne⟩
  · obtain ⟨hholds, hbase⟩ := htrigger hlast
    obtain ⟨mid, rest, hlinks, hrecords, hmid⟩ := hchain.exists_segment hsynthetic hhandling
    -- the records that come along stand above the return record that is replaced
    have hseg : ∀ r ∈ s :: mid, b + 4 ≤ r ∧ r ≤ s := by
      intro r hr
      obtain ⟨hmem, hlow⟩ := hrecords r hr
      have hapart := hcopies.apart
      have hclear := hbody r hmem
      rw [bodyRecordOffset, if_neg (by rw [recordSize]; omega)] at hclear
      rw [recordSize] at hlow hclear
      refine ⟨by omega, ?_⟩
      rcases List.mem_cons.mp hr with rfl | hr
      · exact Nat.le_refl _
      · exact Nat.le_trans (Nat.le_add_right _ _) (hmid r hr)
    obtain ⟨u, r, hu, hle, hr, hvalue, hnext, hframe, hctx, hrs⟩ := hcopies.exists_ret_inner
      (m := c.machine.readied e) hint hlast rfl hsize hroom hlinks hseg hholds hbase _ v
    obtain ⟨hbelow, hlink, hholds', hrest⟩ := hlaid r hrs
    exact ⟨r, hdone r hr, hvalue, hbelow, hlink, hholds', hrest, fun heq => absurd heq hlast,
      fun _ => ⟨hnext, hframe, u, hu, hle, hctx⟩⟩

/-! ### Tests -/

/-- Whether no round, of those the latest of which comes first, has returned to a frame below the
first one, and each has resumed what an earlier one has captured. -/
def Config.tame (P : Program) (natives : Natives) : List Config → Bool
  | [] => true
  | c :: past => c.staysAbove P natives && c.resumesCaptured P natives past && tame P natives past

lemma Config.of_tame {past past' : List Config} {c : Config} (h : tame P natives past = true)
    (hsuffix : c :: past' <:+ past) :
    c.ReturnsAbove P natives ∧ c.ResumesWhole P natives past' := by
  induction past with
  | nil => cases List.suffix_nil.mp hsuffix
  | cons d past ih =>
      rw [tame, Bool.and_eq_true, Bool.and_eq_true] at h
      rcases List.suffix_cons_iff.mp hsuffix with heq | hsuffix
      · cases heq
        exact ⟨.of_staysAbove h.1.1, .of_resumesCaptured h.1.2⟩
      · exact ih h.2 hsuffix

/-- In a run that passes the test, records are well formed. -/
lemma Trail.wellFormed (hint : P.fieldCount P.intClass = 0) (hempty : P.fieldCount .empty = 0)
    (hregisters : options.registers ≤ 2 ^ 31) (hstart : Starts P options natives m₀)
    {past : List Config} {c : Config} (ht : Trail P natives m₀ past c)
    (htame : Config.tame P natives past = true) {c' : Config} (hc' : c' ∈ c :: past) :
    Context.WellFormed P c'.machine.thread.registers c'.machine.thread.context
      (c'.machine.records P) := by
  obtain ⟨es, h⟩ := ht.shielded hint hempty hregisters hstart (fun _ _ => Config.of_tame htame)
    c' hc'
  rw [h.records_eq]
  exact h.chain.wellFormed h.nested

instance (P : Program) (rs : Registers) (frame caller : Nat) (pos : UInt32) :
    Decidable (rs.ReturnsTo P frame caller pos) :=
  decidable_of_iff
    ((Context.readInt P rs frame = .ok (Int32.ofNat (frame - caller)) ∧
      rs.cell (frame + 1) = ⟨P.intClass, pos⟩) ∧ caller ≤ frame)
    ⟨fun h => ⟨⟨h.1.1, h.1.2⟩, h.2⟩, fun h => ⟨⟨h.record.depth, h.record.target⟩, h.le⟩⟩

/-- Whether the round in the second configuration has made the first continuation, out of the
registers above the record `b` that the synthetic record `s` serves. No record stood over the
return record of the handled computation. In the first configuration the continuation is the
second one, and the rounds since it was made have not written to it. -/
def Config.makes (P : Program) (natives : Natives) (since : List Config) (c d : Config)
    (s b : Nat) (k k' : Value) : Bool :=
  ((d.native? P natives).any fun (x : String × Native) => x.1 = "core:reify_handler_context") &&
  decide (d.machine.shield P = .ok (s, b)) &&
  ((d.machine.records P).all fun r => r + 2 ≤ b + bodyRecordOffset (s - b) ||
    b + bodyRecordOffset (s - b) + 2 ≤ r) &&
  Machine.gives (d.advance P natives) (some .call) fun m =>
    decide (m.thread.registers.cell (b + 2) = k) &&
    decide (carried? P natives since c.machine k = some k') && !overwrites P natives since k

lemma Config.of_makes {since : List Config} {c d : Config} {s b : Nat} {k k' : Value}
    (h : makes P natives since c d s b k k' = true) :
    (∃ native, d.native? P natives = some ("core:reify_handler_context", native)) ∧
    d.machine.shield P = .ok (s, b) ∧
    (∀ r ∈ d.machine.records P, r + 2 ≤ b + bodyRecordOffset (s - b) ∨
      b + bodyRecordOffset (s - b) + 2 ≤ r) ∧
    ∃ m, d.advance P natives = .ok (some .call) m ∧ m.thread.registers.cell (b + 2) = k ∧
      carried? P natives since c.machine (m.thread.registers.cell (b + 2)) = some k' ∧
      overwrites P natives since (m.thread.registers.cell (b + 2)) = false := by
  rw [makes, Bool.and_eq_true, Bool.and_eq_true, Bool.and_eq_true] at h
  obtain ⟨⟨⟨hnative, hshield⟩, hclear⟩, hgives⟩ := h
  obtain ⟨⟨name, native⟩, hnative, hname⟩ := (Option.any_eq_true _ _).mp hnative
  obtain ⟨m, hm, htest⟩ := Machine.exists_of_gives hgives
  simp only [Bool.and_eq_true, decide_eq_true_eq, Bool.not_eq_true'] at htest
  obtain ⟨⟨rfl, hcarried⟩, hkept⟩ := htest
  refine ⟨⟨native, of_decide_eq_true hname ▸ hnative⟩, of_decide_eq_true hshield, fun r hr => ?_,
    m, hm, rfl, hcarried, hkept⟩
  simpa using List.all_eq_true.mp hclear r hr

/-- A body that captures an object and triggers an effect. Its handler opens a context, in its
last call if that is asked for. What runs in the context makes a continuation, and that is resumed
twice. There is an allocation in between, for which the heap has to be collected. -/
def handoverCode (last : Bool) : List Instruction :=
  -- at 0: the program
  [.create ⟨4⟩ 0, .store 4, .create ⟨5⟩ 0, .store 5, .create ⟨9⟩ 0, .call ⟨2⟩ 2, .ret,
  -- at 29: the body
    .natural 7, .store 2, .create ⟨10⟩ 2, .create ⟨10⟩ 2, .store 2, .natural 1, .store 5, .load 2,
    .store 6, .create ⟨9⟩ 0, .call ⟨3⟩ 3, .ret,
  -- at 74: what runs in the context of the handler
    .create ⟨8⟩ 0, .store 4, .create ⟨9⟩ 0, .call ⟨4⟩ 2, .ret,
  -- at 95: what takes the continuation
    .load 2, .store 5, .natural 9, .store 6, .create ⟨9⟩ 0, .call ⟨5⟩ 3, .create ⟨10⟩ 2,
    .load 2, .store 6, .natural 8, .store 7, .create ⟨9⟩ 0, .call ⟨5⟩ 4, .ret] ++
  -- at 148: the handler
  if last then
    [.create ⟨6⟩ 0, .store 2, .create ⟨7⟩ 0, .store 3, .create ⟨9⟩ 0, .call ⟨2⟩ 0]
  else
    [.create ⟨6⟩ 0, .store 6, .create ⟨7⟩ 0, .store 7, .create ⟨9⟩ 0, .call ⟨2⟩ 4, .ret]

/-- The program with its classes and methods. -/
def handoverProgram (last : Bool) : Program where
  classes := #[⟨"Empty", .user, 0⟩, ⟨"ProgramInit", .user, 0⟩,
    ⟨"Continuation", .continuation, 1⟩, ⟨"Int", .int, 0⟩, ⟨"Handler", .user, 0⟩,
    ⟨"Body", .user, 0⟩, ⟨"Inner", .user, 0⟩, ⟨"Rest", .user, 0⟩, ⟨"Take", .user, 0⟩,
    ⟨"Core", .user, 0⟩, ⟨"Cell", .user, 1⟩]
  methods := #[⟨"call", -4⟩, ⟨"ask", -4⟩, ⟨"enter", -7⟩, ⟨"trigger", -2⟩, ⟨"reify", -4⟩,
    ⟨"resume", -3⟩]
  implementations := #[⟨⟨4⟩, ⟨1⟩, .standard, 148⟩, ⟨⟨5⟩, ⟨0⟩, .standard, 29⟩,
    ⟨⟨9⟩, ⟨2⟩, .external, 0⟩, ⟨⟨7⟩, ⟨0⟩, .standard, 74⟩, ⟨⟨8⟩, ⟨0⟩, .standard, 95⟩,
    ⟨⟨9⟩, ⟨4⟩, .external, 2⟩, ⟨⟨9⟩, ⟨5⟩, .external, 3⟩, ⟨⟨9⟩, ⟨3⟩, .external, 1⟩]
  externals := #["core:enter_context", "core:trigger_effect", "core:reify_handler_context",
    "core:resume_handler"]
  code := ((handoverCode last).flatMap Instruction.encode).toArray
  builtins := { int := ⟨3⟩, continuation := ⟨2⟩ }

/-- The natives that the program names. -/
def handoverNatives : Natives :=
  ⟨#[("core:enter_context", CoreNatives.enterContext),
    ("core:trigger_effect", CoreNatives.triggerEffect),
    ("core:reify_handler_context", CoreNatives.reify),
    ("core:resume_handler", CoreNatives.resume)]⟩

/-- The machine at the start of the program. -/
def handoverStart (last : Bool) : Machine where
  image := .fresh (handoverProgram last) ⟨12, 32⟩ (Journal.record {} (.loadedProgram 0 4 12))
  thread := ⟨0, 2, 2, 0, .nil, (Cells.fresh 32).overwrite 0
    [⟨⟨3⟩, 0⟩, .nil, ⟨⟨3⟩, 0⟩, ⟨⟨3⟩, Thread.halt⟩]⟩

lemma starts_handover (last : Bool) :
    Starts (handoverProgram last) ⟨12, 32⟩ handoverNatives (handoverStart last) :=
  ⟨{}, (handoverStart last).image, rfl, rfl⟩

lemma linked_handover (last : Bool) : (handoverProgram last).Linked :=
  .of_all (by simp [handoverProgram]) rfl fun kind => by cases last <;> cases kind <;> decide

lemma inlineScalars_handover (last : Bool) : (handoverProgram last).InlineScalars where
  int := rfl
  truth := by cases last <;> decide
  falsehood := by cases last <;> decide

/-- The handler opens the context in an ordinary call. The continuation has been resumed once, and
a collection has moved it together with the object captured. Resumed again, further up, it lets the
body go on right after the trigger. -/
theorem continuation_resumes_handover :
    ∃ since d older c native m r,
      Trail (handoverProgram false) handoverNatives (handoverStart false)
        (since ++ d :: older) c ∧
      d.native? (handoverProgram false) handoverNatives =
        some ("core:reify_handler_context", native) ∧
      d.machine.shield (handoverProgram false) = .ok (9, 4) ∧
      d.machine.thread.registers.ReturnsTo (handoverProgram false) 11 6 73 ∧
      d.machine.thread.registers.cell 8 = ⟨⟨10⟩, 1⟩ ∧
      d.advance (handoverProgram false) handoverNatives = .ok (some .call) m ∧
      m.thread.registers.cell 6 = ⟨⟨2⟩, 11⟩ ∧
      (∃ c' ∈ since, c'.machine.thread.frame = 9 ∧ c'.machine.thread.pos = 73) ∧
      c.machine.image.heap.stats.collections = 1 ∧ c.machine.thread.frame = 8 ∧
      Machine.resume (handoverProgram false) ⟨⟨2⟩, 0⟩ .nil (c.machine.readied .registeredCore) =
        .ok () r ∧
      r.thread.value = .nil ∧ r.thread.pos = 73 ∧ r.thread.frame = 10 ∧ r.thread.context = 8 ∧
      r.thread.registers.cell 12 = ⟨⟨10⟩, 10⟩ := by
  have htest : Config.comesTo (handoverProgram false) handoverNatives (fun past c =>
      (past.all fun c' => decide (c'.InFrame (handoverProgram false) handoverNatives)) &&
      Config.tame (handoverProgram false) handoverNatives past &&
      decide (c.machine.thread.frame = 8 ∧ c.machine.thread.context = 0) &&
      decide (c.machine.thread.registers.size = 32) &&
      decide (c.machine.image.heap.stats.collections = 1) &&
      decide (c.machine.thread.registers.ReturnsTo (handoverProgram false) 8 4 147) &&
      ((past.take 16).any fun c' =>
        decide (c'.machine.thread.frame = 9 ∧ c'.machine.thread.pos = 73)) &&
      (past[16]?).any fun d =>
        Config.makes (handoverProgram false) handoverNatives (past.take 16) c d 9 4 ⟨⟨2⟩, 11⟩
          ⟨⟨2⟩, 0⟩ &&
        decide (d.machine.thread.registers.ReturnsTo (handoverProgram false) 11 6 73) &&
        decide (Context.unwind (handoverProgram false) d.machine.thread.registers 6 9 = .ok 4) &&
        decide (d.machine.thread.registers.cell 8 = ⟨⟨10⟩, 1⟩) &&
        decide (Config.carried? (handoverProgram false) handoverNatives (past.take 16 ++ [d])
          c.machine ⟨⟨10⟩, 1⟩ = some ⟨⟨10⟩, 10⟩)) 50 (handoverStart false) = true := by
    decide +kernel
  obtain ⟨past, c, hcourse, htest⟩ := Course.exists_of_comesTo htest
  simp only [Bool.and_eq_true, decide_eq_true_eq, List.all_eq_true, List.any_eq_true,
    Option.any_eq_true] at htest
  obtain ⟨⟨⟨⟨⟨⟨⟨hframes, htame⟩, hframe, hcontext⟩, hsize⟩, hcollections⟩, hreturn⟩, hearlier⟩,
    d, hd, ⟨⟨⟨hmakes, htrigger⟩, hunwind⟩, hcell⟩, hobject⟩ := htest
  obtain ⟨⟨native, hnative⟩, hshield, hbody, m, hadvance, hk, hcarried, hkept⟩ :=
    Config.of_makes hmakes
  obtain ⟨hi, rfl⟩ := List.getElem?_eq_some_iff.mp hd
  have hsplit : past = past.take 16 ++ past[16] :: past.drop 17 := by
    rw [← List.drop_eq_getElem_cons hi, List.take_append_drop]
  have hwellFormed : ∀ c' ∈ c :: past, Context.WellFormed (handoverProgram false)
      c'.machine.thread.registers c'.machine.thread.context
      (c'.machine.records (handoverProgram false)) := fun c' =>
    hcourse.trail.wellFormed rfl rfl (by decide) (starts_handover false) htame
  have ht := hcourse.trail
  rw [hsplit] at ht hframes
  obtain ⟨hiff, hresumes⟩ := continuation_resumes (linked_handover false)
    (inlineScalars_handover false) (by decide) (by decide) (starts_handover false) ht hframes
    hnative hadvance hshield (hwellFormed _ (List.mem_cons_of_mem _ (List.getElem_mem hi))) hbody
    (fun _ => ⟨htrigger, by decide⟩) hcarried hkept (hwellFormed c List.mem_cons_self)
    (.inl hcontext) (by rw [hframe]; exact hreturn) .nil .registeredCore
  obtain ⟨r, hr⟩ := hiff.mpr (by rw [hframe, hsize]; decide)
  obtain ⟨hvalue, -, -, -, hcells, -, hinner⟩ := hresumes r hr
  obtain ⟨hpos, hframe', u, hu, -, hcontext'⟩ := hinner (by decide)
  cases hunwind.symm.trans hu
  have hmoved := hcells 4 (by decide) (by decide) (by decide) (by decide)
  rw [hcell, hobject, hframe, Option.some.injEq] at hmoved
  rw [hframe] at hframe' hcontext'
  exact ⟨_, _, _, c, native, m, r, ht, hnative, hshield, htrigger, hcell, hadvance, hk, hearlier,
    hcollections, hframe, hr, hvalue, hpos, hframe', hcontext', hmoved.symm⟩

/-- If the handler opens the context in its last call, its return record moves up, out of what is
captured, and the record of the context takes its place. Resuming takes that for the return record
of the trigger, and goes on at a position that the handler of that context stands for. -/
theorem resume_loses_trigger :
    ∃ since d older c q m r,
      Trail (handoverProgram true) handoverNatives (handoverStart true) (since ++ d :: older) c ∧
      (∀ c' ∈ since ++ d :: older, c'.InFrame (handoverProgram true) handoverNatives) ∧
      (∃ native, q.native? (handoverProgram true) handoverNatives =
        some ("core:trigger_effect", native)) ∧
      q ∈ older ∧ q.machine.thread.frame = 9 ∧
      q.machine.thread.registers.ReturnsTo (handoverProgram true) 9 6 73 ∧
      (∃ native, d.native? (handoverProgram true) handoverNatives =
        some ("core:reify_handler_context", native)) ∧
      d.machine.shield (handoverProgram true) = .ok (9, 4) ∧
      Context.WellFormed (handoverProgram true) d.machine.thread.registers
        d.machine.thread.context (d.machine.records (handoverProgram true)) ∧
      (∀ r ∈ d.machine.records (handoverProgram true), r + 2 ≤ 4 + bodyRecordOffset (9 - 4) ∨
        4 + bodyRecordOffset (9 - 4) + 2 ≤ r) ∧
      d.advance (handoverProgram true) handoverNatives = .ok (some .call) m ∧
      Config.carried? (handoverProgram true) handoverNatives since c.machine
        (m.thread.registers.cell (4 + 2)) = some ⟨⟨2⟩, 11⟩ ∧
      Config.overwrites (handoverProgram true) handoverNatives since
        (m.thread.registers.cell (4 + 2)) = false ∧
      Context.WellFormed (handoverProgram true) c.machine.thread.registers
        c.machine.thread.context (c.machine.records (handoverProgram true)) ∧
      c.machine.thread.context = 0 ∧ c.machine.thread.frame = 7 ∧
      c.machine.thread.registers.ReturnsTo (handoverProgram true) 7 4 118 ∧
      Machine.resume (handoverProgram true) ⟨⟨2⟩, 11⟩ .nil (c.machine.readied .registeredCore) =
        .ok () r ∧
      r.thread.pos = 0 ∧ r.thread.frame = 12 := by
  have htest : Config.comesTo (handoverProgram true) handoverNatives (fun past c =>
      (past.all fun c' => decide (c'.InFrame (handoverProgram true) handoverNatives)) &&
      Config.tame (handoverProgram true) handoverNatives past &&
      decide (c.machine.thread.context = 0 ∧ c.machine.thread.frame = 7) &&
      decide (c.machine.thread.registers.ReturnsTo (handoverProgram true) 7 4 118) &&
      Machine.gives (Machine.resume (handoverProgram true) ⟨⟨2⟩, 11⟩ .nil
        (c.machine.readied .registeredCore)) () (fun r =>
          decide (r.thread.pos = 0 ∧ r.thread.frame = 12)) &&
      ((past.drop 8).any fun q =>
        ((q.native? (handoverProgram true) handoverNatives).any fun (x : String × Native) =>
          x.1 = "core:trigger_effect") &&
        decide (q.machine.thread.frame = 9) &&
        decide (q.machine.thread.registers.ReturnsTo (handoverProgram true) 9 6 73)) &&
      (past[7]?).any fun d => Config.makes (handoverProgram true) handoverNatives (past.take 7)
        c d 9 4 ⟨⟨2⟩, 11⟩ ⟨⟨2⟩, 11⟩) 41 (handoverStart true) = true := by decide +kernel
  obtain ⟨past, c, hcourse, htest⟩ := Course.exists_of_comesTo htest
  simp only [Bool.and_eq_true, decide_eq_true_eq, List.all_eq_true, List.any_eq_true,
    Option.any_eq_true] at htest
  obtain ⟨⟨⟨⟨⟨⟨hframes, htame⟩, hcontext, hframe⟩, hreturn⟩, hgives⟩, q, hq, ⟨⟨⟨name, native⟩,
    hnative, hname⟩, hqframe⟩, hqreturn⟩, d, hd, hmakes⟩ := htest
  obtain ⟨r, hr, hleft⟩ := Machine.exists_of_gives hgives
  obtain ⟨hreify, hshield, hbody, m, hadvance, -, hcarried, hkept⟩ := Config.of_makes hmakes
  obtain ⟨hi, rfl⟩ := List.getElem?_eq_some_iff.mp hd
  have hsplit : past = past.take 7 ++ past[7] :: past.drop 8 := by
    rw [← List.drop_eq_getElem_cons hi, List.take_append_drop]
  have hwellFormed : ∀ c' ∈ c :: past, Context.WellFormed (handoverProgram true)
      c'.machine.thread.registers c'.machine.thread.context
      (c'.machine.records (handoverProgram true)) := fun c' =>
    hcourse.trail.wellFormed rfl rfl (by decide) (starts_handover true) htame
  have ht := hcourse.trail
  rw [hsplit] at ht hframes
  have hleft := of_decide_eq_true hleft
  exact ⟨_, _, _, c, q, m, r, ht, hframes, ⟨native, hname ▸ hnative⟩, hq, hqframe, hqreturn,
    hreify, hshield, hwellFormed _ (List.mem_cons_of_mem _ (List.getElem_mem hi)), hbody, hadvance,
    hcarried, hkept, hwellFormed c List.mem_cons_self, hcontext, hframe, hreturn, hr, hleft.1,
    hleft.2⟩

end EffectMachine
