/-
Continuations and the stack.

A continuation holds whole calls: those between the record served and the trigger,
with their return records. Laid down above a call, they are in progress there, and
the call below them is the one that resumes the continuation.

* `Activation.move`, `Stack.move`: calls laid down elsewhere;
* `Machine.Stacked.exists_served`: the call that is handled, whose return record lies
  where making a continuation looks for it;
* `Machine.Makes`: the words are those of a continuation that a handler makes, with
  the return records of its trigger and of the handled call in place;
* `Machine.Segment`: the calls between the one that is handled and the trigger;
* `Machine.Stacked.graft`: **laying a continuation down puts its calls on the stack**.
-/
import EffectMachine.Proofs.FrameStack

namespace EffectMachine

open Activation (allRecords allRecords_cons allRecords_append mem_allRecords)

/-! ### Calls laid down elsewhere -/

namespace Activation

variable {source target : Nat} {a : Activation}

/-- The call in registers that have been moved. -/
def move (source target : Nat) (a : Activation) : Activation :=
  { a with base := a.base - source + target, caller := a.caller - source + target }

lemma frame_move (h : source ≤ a.base) :
    (a.move source target).frame = a.frame - source + target := by
  simp only [frame, move]
  omega

lemma recordsAt_move {base : Nat} (h : source ≤ base) (n : Nat) :
    recordsAt (base - source + target) n = (recordsAt base n).map (· - source + target) := by
  induction n with
  | zero => rfl
  | succ n ih =>
      rw [recordsAt, recordsAt, List.map_cons, ih, List.cons.injEq]
      exact ⟨by omega, rfl⟩

lemma allRecords_move {as : List Activation} (h : ∀ a ∈ as, source ≤ a.base) :
    allRecords (as.map (move source target)) = (allRecords as).map (· - source + target) := by
  induction as with
  | nil => rfl
  | cons a as ih =>
      rw [List.map_cons, allRecords_cons, allRecords_cons, List.map_append,
        ih fun b hb => h b (List.mem_cons_of_mem _ hb)]
      exact congrArg (· ++ _) (recordsAt_move (h a List.mem_cons_self) a.lifts)

end Activation

namespace Stack

variable {P : Program} {rs rs' : Registers} {source target : Nat} {a a' b : Activation}
  {seg rest rest' : List Activation}

/-- The registers of a return record have been moved. -/
structure Moved (P : Program) (source target : Nat) (rs rs' : Registers) (b : Activation) :
    Prop where
  depth : (rs.cell b.frame).Alike P (rs'.cell (b.frame - source + target))
  pos : (rs.cell (b.frame + 1)).Alike P (rs'.cell (b.frame - source + target + 1))
  room : b.frame - source + target + 1 < rs'.size

/-- One call, laid down above its caller. -/
lemma move_one (hint : P.fieldCount P.intClass = 0) (h : Stack P rs (b :: a :: rest))
    (hsource : source ≤ a.frame) (hmoved : Moved P source target rs rs' b)
    (hframe : a'.frame = a.frame - source + target) (h' : Stack P rs' (a' :: rest')) :
    Stack P rs' (b.move source target :: a' :: rest') := by
  cases h with
  | call hcaller hbase hheld _ =>
      have hbelow : b.base ≤ b.frame := Nat.le_add_right _ _
      have hb : (b.move source target).frame = b.frame - source + target :=
        Activation.frame_move (by omega)
      refine .call ?_ ?_ ⟨?_, ?_, ?_⟩ h'
      · rw [hframe, ← hcaller]
        rfl
      · rw [hframe]
        dsimp only [Activation.move]
        omega
      · rw [hb]
        exact hmoved.room
      · have halike := hmoved.depth
        rw [hheld.depth] at halike
        rw [hb, ← halike.2 hint]
        refine congrArg P.nat ?_
        dsimp only [Activation.move]
        omega
      · have halike := hmoved.pos
        rw [hheld.target] at halike
        rw [hb, ← halike.2 hint]
        rfl

/-- **Calls laid down above another one** are in progress there. -/
lemma move (hint : P.fieldCount P.intClass = 0) (h : Stack P rs (seg ++ a :: rest))
    (hsource : source ≤ a.frame) (hmoved : ∀ b ∈ seg, Moved P source target rs rs' b)
    (hframe : a'.frame = a.frame - source + target) (h' : Stack P rs' (a' :: rest')) :
    Stack P rs' (seg.map (Activation.move source target) ++ a' :: rest') := by
  induction seg with
  | nil => exact h'
  | cons b seg ih =>
      have hb := hmoved b List.mem_cons_self
      have hseg : Stack P rs (seg ++ a :: rest) := by
        cases seg with
        | nil =>
            cases h with
            | call _ _ _ h => exact h
        | cons c seg =>
            cases h with
            | call _ _ _ h => exact h
      have hrest := ih hseg fun c hc => hmoved c (List.mem_cons_of_mem _ hc)
      cases seg with
      | nil => exact h.move_one hint hsource hb hframe hrest
      | cons c seg =>
          -- the caller is itself moved
          have hc := hseg.above (List.mem_append_right seg List.mem_cons_self)
          have hle : c.base ≤ c.frame := Nat.le_add_right _ _
          exact h.move_one hint (by omega) hb (Activation.frame_move (by omega)) hrest

end Stack

namespace Machine

variable {P : Program} {m d : Machine} {a a' : Activation} {as as' : List Activation}
  {es ds : List Record} {words : List Value} {s c : Nat}

/-! ### The call that is handled -/

lemma Shielded.records_eq (h : m.Shielded P es) : m.records P = es.map Record.pos :=
  h.chain.links.records_eq

/-- The innermost synthetic record and the record that it serves are records of the
thread. -/
lemma Shielded.mem_shield (h : m.Shielded P es) (hshield : m.shield P = .ok (s, c)) :
    s ∈ m.records P ∧ c ∈ m.records P ∧ c + recordSize ≤ s := by
  obtain ⟨front, mid, back, rfl⟩ := h.exists_shield hshield
  rw [h.records_eq]
  refine ⟨?_, ?_, (Context.handling_spec (shield_eq_ok.mp hshield).2).2⟩ <;> simp

/-- A record is served that lies as far below the return record of its call as making a
continuation says. -/
lemma Stacked.exists_served (h : m.Stacked P a as) (hes : m.Shielded P es)
    (hshield : m.shield P = .ok (s, c))
    (hbody : c + bodyRecordOffset (s - c) ∉ m.records P) :
    ∃ front b bs i, a :: as = front ++ b :: bs ∧ i < b.lifts ∧ c = b.base + recordSize * i ∧
      b.frame = c + bodyRecordOffset (s - c) := by
  obtain ⟨hs, hc, hcs⟩ := hes.mem_shield hshield
  rw [h.records_eq] at hs hc hbody
  have hstack := h.stack
  generalize a :: as = bs at hs hc hbody hstack
  obtain ⟨front, b, bs, i, rfl, hi, rfl⟩ := Stack.exists_of_record hc
  refine ⟨front, b, bs, i, rfl, hi, rfl, ?_⟩
  have hnext := hstack.next_record_iff hi
  rw [bodyRecordOffset] at hbody ⊢
  rw [Activation.frame]
  by_cases hoffset : s - (b.base + recordSize * i) = recordSize
  · -- the trigger is the last call of the handled one, which has laid both records
    rw [if_pos hoffset] at hbody ⊢
    have hs' : s = b.base + recordSize * i + recordSize := by omega
    rw [hs'] at hs
    have hi' := hnext.mp hs
    have hnext' := hstack.next_record_iff hi'
    rw [recordSize] at *
    rw [show b.base + 2 * i + 2 * 2 = b.base + 2 * (i + 1) + 2 by omega, hnext'] at hbody
    omega
  · rw [if_neg hoffset] at hbody ⊢
    rw [hnext] at hbody
    rw [recordSize] at *
    omega

/-- The words are those of the continuation that a handler makes of the machine: the
return records of its trigger and of the handled call are where they are looked for. -/
structure Makes (P : Program) (d : Machine) (words : List Value) (s c : Nat) : Prop where
  shield : d.shield P = .ok (s, c)
  registers : ∃ vs, d.thread.registers.slice c (s + 2 * recordSize - c) = .ok vs ∧
    List.Forall₂ (Value.Alike P) vs words
  body : c + bodyRecordOffset (s - c) ∉ d.records P
  trigger : s + recordSize ∉ d.records P

/-- None of the records of such a continuation is replaced. -/
lemma Makes.captures (h : d.Makes P words s c) (hd : d.Stacked P a as) (hds : d.Shielded P ds) :
    Captures P d ds words s c := by
  obtain ⟨-, hc, hcs⟩ := hds.mem_shield h.shield
  refine ⟨h.shield, h.registers, fun e he => ⟨fun hpos => ?_, fun hpos => ?_⟩⟩
  · by_contra hne
    have hoffset : s - c ≠ recordSize := by omega
    have hbody := h.body
    rw [bodyRecordOffset, if_neg hoffset, hds.records_eq, ← hpos] at hbody
    exact hbody (List.mem_map_of_mem he)
  · have hacross := hd.stack.not_across (hd.records_eq ▸ hc)
    rw [← hd.records_eq, hds.records_eq, ← hpos] at hacross
    exact hacross (List.mem_map_of_mem he)

/-! ### Laying a continuation down -/

section Graft

variable {depth : Int32}

/-- The registers that are replaced apart, those of a continuation are alike to the ones
captured. -/
lemma Makes.alike (hmakes : d.Makes P words s c) (hd : d.Stacked P a' as')
    (hds : d.Shielded P ds) (hroom : m.thread.frame + words.length ≤ m.thread.registers.size)
    (depth : Int32) {i : Nat} (hlo : c < i) (hhi : i < s + 2 * recordSize)
    (hne : i ≠ c + bodyRecordOffset (s - c)) (hne' : i ≠ c + bodyRecordOffset (s - c) + 1) :
    (d.thread.registers.cell i).Alike P
        ((m.grafted P words depth).thread.registers.cell (i - c + m.thread.frame)) ∧
      i - c + m.thread.frame < (m.grafted P words depth).thread.registers.size := by
  have hcaptures := hmakes.captures hd hds
  have hlen := hcaptures.length
  refine ⟨alike_overlay hcaptures hroom _ _ hlo hhi hne hne', ?_⟩
  rw [(keeps_grafted P m words depth).size]
  omega

/-- The call that resumes a continuation has laid the records below its return
record. -/
lemma Stacked.grafted_stack (hint : P.fieldCount P.intClass = 0) (h : m.Stacked P a as)
    (hlen : minCapture ≤ words.length)
    (hroom : m.thread.frame + words.length ≤ m.thread.registers.size)
    (hdepth : Context.readInt P m.thread.registers m.thread.frame = .ok depth) {n : Nat}
    (hn : recordSize * n = bodyRecordOffset (words.length - 2 * recordSize)) :
    Stack P (m.grafted P words depth).thread.registers ({ a with lifts := a.lifts + n } :: as) := by
  cases hdepth.symm.trans h.readInt
  obtain ⟨-, hcaller⟩ := h.stack.caller
  have hbase : a.base ≤ a.frame := Nat.le_add_right _ _
  have hkeeps := keeps_grafted P m words (Int32.ofNat (a.frame - a.caller))
  have hframe : ({ a with lifts := a.lifts + n } : Activation).frame =
      m.thread.frame + bodyRecordOffset (words.length - 2 * recordSize) := by
    rw [h.frame, ← hn]
    simp only [Activation.frame, Nat.mul_add, Nat.add_assoc]
  obtain ⟨hroom', hdepth', htarget⟩ := bodyRecord_grafted (P := P) hlen hroom
    (Int32.ofNat (a.frame - a.caller))
  refine h.stack.relift hint (hkeeps.mono (h.frame ▸ hbase)) ⟨?_, ?_, ?_⟩ <;> rw [hframe]
  · rw [hkeeps.size]
    exact hroom'
  · rw [hdepth', Program.nat, ← Int32.ofNat_add, h.frame]
    refine congrArg (fun n => P.int (Int32.ofNat n)) ?_
    dsimp only
    omega
  · rw [htarget, h.frame, h.stack.held.target]

/-- The first record of a continuation leads to the innermost one. -/
lemma Stacked.grafted_links (hint : P.fieldCount P.intClass = 0) (h : m.Stacked P a as)
    (words : List Value) (depth : Int32) :
    Context.Links P (m.grafted P words depth).thread.registers m.thread.frame
      (m.thread.frame :: allRecords (a :: as)) := by
  have hkeeps := keeps_grafted P m words depth
  have hroom := h.stack.held.room
  have hinner := h.context
  have hlow := h.stack.low
  have hbase : a.base ≤ a.frame := Nat.le_add_right _ _
  have hsize := h.size
  rw [← h.frame] at hbase hroom
  rw [recordSize] at hlow hinner
  have hlink : (m.grafted P words depth).thread.registers.cell m.thread.frame =
      P.nat (m.thread.frame - m.thread.context) :=
    link_overlay (by omega) _ _
  refine .cons ?_ (h.links.keeps hint hkeeps fun r hr => ?_)
  · rw [Context.parent_eq_ok, hlink, Program.signed_nat (by omega), hkeeps.size]
    exact ⟨by omega, rfl, by omega, by omega, by omega⟩
  · have hbelow := (h.stack.records_below hr).2
    rw [← h.frame, recordSize] at hbelow
    omega

/-- A continuation whose trigger was the last call of the handled one: the call that
resumes it lays both its records. -/
lemma Stacked.graft_last (hint : P.fieldCount P.intClass = 0) (h : m.Stacked P a as)
    (hd : d.Stacked P a' as') (hds : d.Shielded P ds) (hmakes : d.Makes P words s c)
    (hlast : s = c + recordSize)
    (hdepth : Context.readInt P m.thread.registers m.thread.frame = .ok depth)
    (hroom : m.thread.frame + words.length ≤ m.thread.registers.size) :
    (m.grafted P words depth).Stacked P { a with lifts := a.lifts + 2 } as := by
  have hlen := (hmakes.captures hd hds).length
  have hoffset : words.length - 2 * recordSize = recordSize := by omega
  have hshift : bodyRecordOffset (s - c) = 2 * recordSize := by
    rw [bodyRecordOffset, if_pos (by omega)]
  obtain ⟨front, b, bs, i, hsplit, hi, hc, hframe⟩ := hd.exists_served hds hmakes.shield hmakes.body
  rw [hshift, hc, Activation.frame] at hframe
  have hlifts : i + 1 < b.lifts := by
    rw [recordSize] at hframe
    omega
  obtain ⟨above, habove⟩ := Activation.exists_allRecords front bs hlifts
  -- the trigger has laid its record right above the one served
  have hlinks : Context.Links P d.thread.registers s ([s] ++ c ::
      (Activation.recordsAt b.base i ++ allRecords bs)) := by
    have hs : s = b.base + recordSize * (i + 1) := by
      rw [hlast, hc, Nat.mul_add, Nat.mul_one, Nat.add_assoc]
    have hlinks := hd.links
    rw [hsplit, habove, allRecords_cons] at hlinks
    rw [hs, hc]
    exact hlinks.of_append
  have hmoved : Context.Links P (m.grafted P words depth).thread.registers
      (s - c + m.thread.frame)
      ([s].map (· - c + m.thread.frame) ++ m.thread.frame :: allRecords (a :: as)) := by
    refine hlinks.move hint (fun r hr => ?_) (fun r hr => ?_) (h.grafted_links hint words depth)
    · rw [List.mem_singleton.mp hr, hlast, recordSize]
      omega
    · rw [List.mem_singleton.mp hr]
      rw [recordSize] at hshift hlast
      exact hmakes.alike hd hds hroom depth (by omega) (by rw [recordSize]; omega) (by omega)
        (by omega)
  have hrecords : allRecords ({ a with lifts := a.lifts + 2 } :: as) =
      [s].map (· - c + m.thread.frame) ++ m.thread.frame :: allRecords (a :: as) := by
    rw [List.map_singleton, List.singleton_append, hlast, h.frame, Activation.frame,
      Nat.add_sub_cancel_left, Nat.add_comm recordSize, Nat.add_assoc, ← Nat.mul_add_one]
    rfl
  have hcontext : (m.grafted P words depth).thread.context = s - c + m.thread.frame := by
    dsimp only [grafted]
    omega
  refine ⟨h.grafted_stack hint ?_ hroom hdepth ?_, ?_, Nat.le_refl _, ?_, ?_⟩
  · rw [minCapture, recordSize] at *
    omega
  · rw [hoffset, bodyRecordOffset, if_pos rfl, Nat.mul_comm]
  · dsimp only [grafted, Activation.frame]
    rw [hoffset, h.frame, Activation.frame, recordSize]
    omega
  · rw [hcontext, hrecords]
    exact hmoved
  · rw [(keeps_grafted P m words depth).size]
    exact h.size

/-- The calls of a continuation whose trigger was called from further up: those above the
one that is handled, up to the one that triggers. -/
structure Segment (P : Program) (d : Machine) (s c : Nat) (b : Activation)
    (mid : List Activation) : Prop where
  stack : ∃ handled rest, handled.frame = c + recordSize ∧
    Stack P d.thread.registers ((b :: mid) ++ handled :: rest)
  inside : ∀ e ∈ b :: mid, c + 2 * recordSize ≤ e.base ∧ e.frame ≤ s + recordSize
  trigger : b.frame = s + recordSize
  links : ∃ older, Context.Links P d.thread.registers s (allRecords (b :: mid) ++ c :: older)

lemma Makes.exists_segment (hmakes : d.Makes P words s c) (hd : d.Stacked P a' as')
    (hds : d.Shielded P ds) (habove : s ≠ c + recordSize) : ∃ b mid, d.Segment P s c b mid := by
  obtain ⟨hs, -, hcs⟩ := hds.mem_shield hmakes.shield
  obtain ⟨front, a₁, rest, i, hsplit, hi, hc, hframe⟩ :=
    hd.exists_served hds hmakes.shield hmakes.body
  rw [bodyRecordOffset, if_neg (by omega)] at hframe
  have htrigger := hmakes.trigger
  rw [hd.records_eq] at hs htrigger
  obtain ⟨front', b, rest', hsplit', hsb, hframe'⟩ := hd.stack.exists_last hs htrigger
  -- the call that triggers is further up than the one that is handled
  have hstack : Stack P d.thread.registers (front ++ a₁ :: rest) := hsplit ▸ hd.stack
  obtain ⟨mid, rfl⟩ := hstack.exists_between (hsplit.symm.trans hsplit') (by omega)
  have hcalls : Stack P d.thread.registers ((b :: mid) ++ a₁ :: rest) :=
    (hsplit' ▸ hd.stack : Stack P _ (front' ++ b :: (mid ++ a₁ :: rest))).of_append
  refine ⟨b, mid, ⟨a₁, rest, hframe, hcalls⟩, fun e he => ?_, hframe',
    allRecords ({ a₁ with lifts := i } :: rest), ?_⟩
  · have hapart := hcalls.apart he
    refine ⟨by omega, ?_⟩
    rcases List.mem_cons.mp he with rfl | he
    · exact Nat.le_of_eq hframe'
    · have habove := hcalls.above (List.mem_append_left (a₁ :: rest) he)
      have hbase : b.base ≤ b.frame := Nat.le_add_right _ _
      omega
  · -- the record served is the last one that the handled call has laid
    have hlifts : a₁ = { a₁ with lifts := i + 1 } := by
      rw [hc, Activation.frame, recordSize] at hframe
      rw [show i + 1 = a₁.lifts by omega]
    have hrefocused := (hd.refocus hsplit' hsb hframe').links
    rw [← List.cons_append, allRecords_append, hlifts] at hrefocused
    rw [hc]
    exact hrefocused

namespace Segment

variable {b : Activation} {mid : List Activation}

lemma record_inside (hseg : d.Segment P s c b mid) {r : Nat} (hr : r ∈ allRecords (b :: mid)) :
    c + 2 * recordSize ≤ r ∧ r ≤ s := by
  obtain ⟨e, he, hr⟩ := mem_allRecords.mp hr
  obtain ⟨j, hj, rfl⟩ := Activation.mem_records.mp hr
  obtain ⟨hlow, hhigh⟩ := hseg.inside e he
  rw [Activation.frame] at hhigh
  rw [recordSize] at *
  omega

/-- The calls are in progress where a continuation has been laid down. -/
lemma grafted_stack (hint : P.fieldCount P.intClass = 0) (hseg : d.Segment P s c b mid)
    (h : m.Stacked P a as) (hd : d.Stacked P a' as') (hds : d.Shielded P ds)
    (hmakes : d.Makes P words s c) (habove : s ≠ c + recordSize)
    (hdepth : Context.readInt P m.thread.registers m.thread.frame = .ok depth)
    (hroom : m.thread.frame + words.length ≤ m.thread.registers.size) :
    Stack P (m.grafted P words depth).thread.registers
      ((b :: mid).map (Activation.move c m.thread.frame) ++
        { a with lifts := a.lifts + 1 } :: as) := by
  have hlen := (hmakes.captures hd hds).length
  have hcs := (hmakes.captures hd hds).apart
  have hshift : bodyRecordOffset (s - c) = recordSize := by
    rw [bodyRecordOffset, if_neg (by omega)]
  have hroot : Stack P (m.grafted P words depth).thread.registers
      ({ a with lifts := a.lifts + 1 } :: as) := by
    refine h.grafted_stack hint ?_ hroom hdepth ?_
    · rw [minCapture, recordSize] at *
      omega
    · rw [show words.length - 2 * recordSize = s - c by omega, hshift, Nat.mul_one]
  have hlifted : ({ a with lifts := a.lifts + 1 } : Activation).frame =
      m.thread.frame + recordSize := by
    rw [h.frame, a.frame_lifted]
  obtain ⟨handled, rest, hframe, hcalls⟩ := hseg.stack
  refine hcalls.move hint (by omega) (fun e he => ?_) (by omega) hroot
  obtain ⟨hlow, hhigh⟩ := hseg.inside e he
  have hbase : e.base ≤ e.frame := Nat.le_add_right _ _
  rw [recordSize] at hlow hhigh hshift
  obtain ⟨hfirst, -⟩ := hmakes.alike hd hds hroom depth (i := e.frame) (by omega)
    (by rw [recordSize]; omega) (by omega) (by omega)
  obtain ⟨hsecond, hsize⟩ := hmakes.alike hd hds hroom depth (i := e.frame + 1) (by omega)
    (by rw [recordSize]; omega) (by omega) (by omega)
  rw [show e.frame + 1 - c + m.thread.frame = e.frame - c + m.thread.frame + 1 by omega]
    at hsecond hsize
  exact ⟨hfirst, hsecond, hsize⟩

/-- Their records lead to the one served, and that to the innermost one. -/
lemma grafted_links (hint : P.fieldCount P.intClass = 0) (hseg : d.Segment P s c b mid)
    (h : m.Stacked P a as) (hd : d.Stacked P a' as') (hds : d.Shielded P ds)
    (hmakes : d.Makes P words s c) (habove : s ≠ c + recordSize)
    (hroom : m.thread.frame + words.length ≤ m.thread.registers.size) (depth : Int32) :
    Context.Links P (m.grafted P words depth).thread.registers (s - c + m.thread.frame)
      ((allRecords (b :: mid)).map (· - c + m.thread.frame) ++
        m.thread.frame :: allRecords (a :: as)) := by
  have hcs := (hmakes.captures hd hds).apart
  have hshift : bodyRecordOffset (s - c) = recordSize := by
    rw [bodyRecordOffset, if_neg (by omega)]
  obtain ⟨older, hlinks⟩ := hseg.links
  refine hlinks.move hint (fun r hr => ?_) (fun r hr => ?_) (h.grafted_links hint words depth)
  · have hlow := (hseg.record_inside hr).1
    rw [recordSize] at hlow
    omega
  · obtain ⟨hlow, hhigh⟩ := hseg.record_inside hr
    rw [recordSize] at hlow hshift
    exact hmakes.alike hd hds hroom depth (by omega) (by rw [recordSize]; omega) (by omega)
      (by omega)

end Segment

/-- A continuation whose trigger was called from further up: its calls come to be in
progress above the one that resumes it, which lays the record served. -/
lemma Stacked.graft_above (hint : P.fieldCount P.intClass = 0) (h : m.Stacked P a as)
    (hd : d.Stacked P a' as') (hds : d.Shielded P ds) (hmakes : d.Makes P words s c)
    (habove : s ≠ c + recordSize)
    (hdepth : Context.readInt P m.thread.registers m.thread.frame = .ok depth)
    (hroom : m.thread.frame + words.length ≤ m.thread.registers.size) :
    ∃ b mid, (m.grafted P words depth).Stacked P b
      (mid ++ { a with lifts := a.lifts + 1 } :: as) := by
  obtain ⟨b, mid, hseg⟩ := hmakes.exists_segment hd hds habove
  have hlen := (hmakes.captures hd hds).length
  have hcs := (hmakes.captures hd hds).apart
  have hlow : ∀ e ∈ b :: mid, c ≤ e.base := fun e he =>
    Nat.le_trans (Nat.le_add_right _ _) (hseg.inside e he).1
  have hrecords : allRecords ((b :: mid).map (Activation.move c m.thread.frame) ++
      { a with lifts := a.lifts + 1 } :: as) =
      (allRecords (b :: mid)).map (· - c + m.thread.frame) ++
        m.thread.frame :: allRecords (a :: as) := by
    rw [allRecords_append, Activation.allRecords_lift, h.frame, Activation.allRecords_move hlow]
  have hcontext : (m.grafted P words depth).thread.context = s - c + m.thread.frame := by
    dsimp only [grafted]
    omega
  refine ⟨_, _, hseg.grafted_stack hint h hd hds hmakes habove hdepth hroom, ?_, Nat.le_refl _,
    ?_, ?_⟩
  · rw [Activation.frame_move (hlow b List.mem_cons_self), hseg.trigger]
    dsimp only [grafted]
    omega
  · rw [List.map_cons, List.cons_append] at hrecords
    rw [hrecords, hcontext]
    exact hseg.grafted_links hint h hd hds hmakes habove hroom depth
  · rw [(keeps_grafted P m words depth).size]
    exact h.size

/-- **Laying a continuation down puts its calls on the stack**, above the one that
resumes it, which lays the record served. -/
lemma Stacked.graft (hint : P.fieldCount P.intClass = 0) (h : m.Stacked P a as)
    (hd : d.Stacked P a' as') (hds : d.Shielded P ds) (hmakes : d.Makes P words s c)
    (hdepth : Context.readInt P m.thread.registers m.thread.frame = .ok depth)
    (hroom : m.thread.frame + words.length ≤ m.thread.registers.size) :
    ∃ b bs above n, (m.grafted P words depth).Stacked P b bs ∧
      b :: bs = above ++ { a with lifts := a.lifts + n } :: as := by
  by_cases hlast : s = c + recordSize
  · exact ⟨_, _, [], 2, h.graft_last hint hd hds hmakes hlast hdepth hroom, rfl⟩
  · obtain ⟨b, mid, hgraft⟩ := h.graft_above hint hd hds hmakes hlast hdepth hroom
    exact ⟨b, _, b :: mid, 1, hgraft, rfl⟩

end Graft

end Machine

end EffectMachine
