/-
The stack of a thread.

A call in progress holds its return record at its frame. A native that the call
ends in, and that lays a context record, finds the return record there and moves
it up, so the records that a call has laid stand one above the other between the
register at which it was called and its frame.

* `Activation`: a call in progress, and the records that it has laid;
* `Stack`: calls in progress, each with its return record, the outermost one last;
* `Context.Links.unwind`: unwinding drops the records that do not end below a frame;
* `Machine.Stacked`: the thread runs the innermost call, and its chain of records
  is made of those that the calls have laid;
* `Machine.Stacked.returnValue`: **a call in progress can be left**, and leads to
  its caller;
* `Machine.Stacked.lift`, `Machine.Stacked.refocus`, `Machine.Stacked.cut`: laying
  a record, and going back to one.
-/
import EffectMachine.Proofs.ContextDiscipline
import EffectMachine.Proofs.EffectOperations

namespace EffectMachine

/-! ### Calls in progress -/

/-- A call in progress: the register at which it was called, the number of records
that it has laid since, the frame of its caller, and where that goes on. -/
structure Activation where
  base : Nat
  lifts : Nat
  caller : Nat
  pos : UInt32

namespace Activation

/-- The frame of the call, above the records that it has laid. -/
def frame (a : Activation) : Nat := a.base + recordSize * a.lifts

/-- Records one above the other, from a register on, the innermost one first. -/
def recordsAt (base : Nat) : Nat → List Nat
  | 0 => []
  | n + 1 => (base + recordSize * n) :: recordsAt base n

/-- The records that the call has laid, the innermost one first. -/
def records (a : Activation) : List Nat := recordsAt a.base a.lifts

lemma mem_recordsAt {base n r : Nat} :
    r ∈ recordsAt base n ↔ ∃ i < n, r = base + recordSize * i := by
  induction n with
  | zero => simp [recordsAt]
  | succ n ih =>
      rw [recordsAt, List.mem_cons, ih]
      constructor
      · rintro (rfl | ⟨i, hi, rfl⟩)
        · exact ⟨n, Nat.lt_succ_self n, rfl⟩
        · exact ⟨i, Nat.lt_succ_of_lt hi, rfl⟩
      · rintro ⟨i, hi, rfl⟩
        rcases Nat.lt_succ_iff_lt_or_eq.mp hi with hi | rfl
        · exact .inr ⟨i, hi, rfl⟩
        · exact .inl rfl

/-- Records one above the other, split at one of them. -/
lemma exists_recordsAt (base : Nat) {n i : Nat} (hi : i < n) :
    ∃ front, recordsAt base n = front ++ (base + recordSize * i) :: recordsAt base i := by
  induction n with
  | zero => omega
  | succ n ih =>
      rcases Nat.lt_succ_iff_lt_or_eq.mp hi with hi | rfl
      · obtain ⟨front, hfront⟩ := ih hi
        exact ⟨_ :: front, by rw [recordsAt, hfront, List.cons_append]⟩
      · exact ⟨[], rfl⟩

lemma mem_records {a : Activation} {r : Nat} :
    r ∈ a.records ↔ ∃ i < a.lifts, r = a.base + recordSize * i :=
  mem_recordsAt

/-- A call that lays one more record lays it at its frame. -/
lemma frame_mem_lifted (a : Activation) :
    a.frame ∈ ({ a with lifts := a.lifts + 1 } : Activation).records :=
  List.mem_cons_self

lemma frame_lifted (a : Activation) :
    ({ a with lifts := a.lifts + 1 } : Activation).frame = a.frame + recordSize := by
  simp only [frame, Nat.mul_add, Nat.mul_one, Nat.add_assoc]

/-- The registers hold the return record of the call. -/
structure Held (P : Program) (rs : Registers) (a : Activation) : Prop where
  room : a.frame + 1 < rs.size
  depth : rs.cell a.frame = P.nat (a.frame - a.caller)
  target : rs.cell (a.frame + 1) = ⟨P.intClass, a.pos⟩

lemma Held.keeps {P : Program} (hint : P.fieldCount P.intClass = 0) {rs rs' : Registers} {n : Nat}
    {a : Activation} (h : a.Held P rs) (hkeeps : rs.Keeps P n rs')
    (hn : a.frame + recordSize ≤ n) : a.Held P rs' := by
  rw [recordSize] at hn
  refine ⟨hkeeps.size ▸ h.room, ?_, ?_⟩
  · have halike := hkeeps.cell a.frame (by omega)
    rw [h.depth] at halike
    exact (halike.2 hint).symm
  · have halike := hkeeps.cell (a.frame + 1) (by omega)
    rw [h.target] at halike
    exact (halike.2 hint).symm

/-- The records that calls have laid, the innermost one first. -/
def allRecords (as : List Activation) : List Nat := as.flatMap records

lemma allRecords_cons (a : Activation) (as : List Activation) :
    allRecords (a :: as) = a.records ++ allRecords as :=
  List.flatMap_cons

lemma allRecords_lift (a : Activation) (as : List Activation) :
    allRecords ({ a with lifts := a.lifts + 1 } :: as) = a.frame :: allRecords (a :: as) :=
  rfl

lemma allRecords_append (as bs : List Activation) :
    allRecords (as ++ bs) = allRecords as ++ allRecords bs :=
  List.flatMap_append

/-- A record of one of the calls, with those that enclose it. -/
lemma exists_allRecords (front bs : List Activation) {b : Activation} {i : Nat}
    (hi : i < b.lifts) : ∃ above, allRecords (front ++ b :: bs) =
      above ++ (b.base + recordSize * i) :: allRecords ({ b with lifts := i } :: bs) := by
  obtain ⟨above, habove⟩ := exists_recordsAt b.base hi
  refine ⟨allRecords front ++ above, ?_⟩
  rw [allRecords_append, allRecords_cons, allRecords_cons, records, habove]
  simp only [records, List.append_assoc, List.cons_append]

/-- The innermost record that calls have laid, and register 0 if there is none. -/
def innermost (as : List Activation) : Nat := (allRecords as).headD 0

lemma mem_allRecords {as : List Activation} {r : Nat} :
    r ∈ allRecords as ↔ ∃ a ∈ as, r ∈ a.records :=
  List.mem_flatMap

end Activation

open Activation (allRecords allRecords_cons allRecords_append mem_allRecords)

/-- Calls in progress, the innermost one first. Each has its return record, and was
called above the return record of its caller; the outermost one ends the run. -/
inductive Stack (P : Program) (rs : Registers) : List Activation → Prop
  | root {a : Activation} : a.base = recordSize → a.caller = recordSize → a.pos = Thread.halt →
      a.Held P rs → Stack P rs [a]
  | call {a b : Activation} {bs : List Activation} : a.caller = b.frame →
      b.frame + recordSize ≤ a.base → a.Held P rs → Stack P rs (b :: bs) → Stack P rs (a :: b :: bs)

namespace Stack

variable {P : Program} {rs rs' : Registers} {a b : Activation} {as bs front : List Activation}
  {r : Nat}

lemma held (h : Stack P rs (a :: as)) : a.Held P rs := by
  cases h with
  | root _ _ _ hheld => exact hheld
  | call _ _ hheld _ => exact hheld

lemma above (h : Stack P rs (a :: as)) (hb : b ∈ as) : b.frame + recordSize ≤ a.base := by
  induction as generalizing a with
  | nil => cases hb
  | cons b' as ih =>
      cases h with
      | call _ hbase _ h =>
          rcases List.mem_cons.mp hb with rfl | hb
          · exact hbase
          · have hle := ih h hb
            have hframe : b'.base ≤ b'.frame := Nat.le_add_right _ _
            omega

lemma low (h : Stack P rs (a :: as)) : recordSize ≤ a.base := by
  cases h with
  | root hbase _ _ _ => exact Nat.le_of_eq hbase.symm
  | call _ hbase _ _ => omega

/-- No call returns below the first frame, or above its own. -/
lemma caller (h : Stack P rs (a :: as)) : recordSize ≤ a.caller ∧ a.caller ≤ a.base := by
  cases h with
  | root hbase hcaller _ _ => omega
  | @call _ b _ hcaller hbase _ h =>
      have hlow := h.low
      have hframe : b.base ≤ b.frame := Nat.le_add_right _ _
      omega

lemma of_append (h : Stack P rs (front ++ a :: as)) : Stack P rs (a :: as) := by
  induction front with
  | nil => exact h
  | cons b front ih =>
      rw [List.cons_append] at h
      generalize hrest : front ++ a :: as = rest at h ih
      cases h with
      | root => simp at hrest
      | call _ _ _ h => exact ih h

/-- A dropped call was called above those that stay. -/
lemma apart (h : Stack P rs (front ++ a :: as)) (hb : b ∈ front) :
    a.frame + recordSize ≤ b.base := by
  obtain ⟨before, after, rfl⟩ := List.append_of_mem hb
  rw [List.append_assoc, List.cons_append] at h
  exact h.of_append.above (List.mem_append_right _ List.mem_cons_self)

/-- Of two calls, the one with the higher frame is further up. -/
lemma exists_between (h : Stack P rs (front ++ a :: as)) {front' : List Activation}
    (hsplit : front ++ a :: as = front' ++ b :: bs) (hlt : a.frame < b.frame) :
    ∃ mid, bs = mid ++ a :: as := by
  rcases List.append_eq_append_iff.mp hsplit with ⟨t, rfl, ht⟩ | ⟨t, rfl, ht⟩
  · cases t with
    | nil =>
        cases ht
        omega
    | cons e t =>
        rw [List.cons_append, List.cons.injEq] at ht
        have hb : b ∈ as := ht.2 ▸ List.mem_append_right t List.mem_cons_self
        have habove := h.of_append.above hb
        have hframe : a.base ≤ a.frame := Nat.le_add_right _ _
        omega
  · cases t with
    | nil =>
        cases ht
        omega
    | cons e t =>
        rw [List.cons_append, List.cons.injEq] at ht
        exact ⟨t, ht.2⟩

lemma eq_of_mem_records (h : Stack P rs (front ++ a :: as)) {front' : List Activation}
    (hsplit : front ++ a :: as = front' ++ b :: bs) (ha : r ∈ a.records) (hb : r ∈ b.records) :
    a = b ∧ as = bs := by
  -- a call further up was called above this one
  have hapart : ∀ {x y : Activation} {top back : List Activation}, Stack P rs (top ++ x :: back) →
      y ∈ top → r ∈ x.records → r ∉ y.records := by
    intro x y top back hstack hy hx hmem
    have hlt := hstack.apart hy
    obtain ⟨i, hi, rfl⟩ := Activation.mem_records.mp hx
    obtain ⟨j, hj, heq⟩ := Activation.mem_records.mp hmem
    rw [Activation.frame, recordSize] at hlt
    rw [recordSize] at heq
    omega
  rcases List.append_eq_append_iff.mp hsplit with ⟨t, rfl, ht⟩ | ⟨t, rfl, ht⟩
  · cases t with
    | nil =>
        cases ht
        exact ⟨rfl, rfl⟩
    | cons e t =>
        rw [List.cons_append, List.cons.injEq] at ht
        obtain ⟨rfl, rfl⟩ := ht
        exact absurd ha (hapart (hsplit ▸ h) (List.mem_append_right _ List.mem_cons_self) hb)
  · cases t with
    | nil =>
        cases ht
        exact ⟨rfl, rfl⟩
    | cons e t =>
        rw [List.cons_append, List.cons.injEq] at ht
        obtain ⟨rfl, rfl⟩ := ht
        exact absurd hb (hapart h (List.mem_append_right _ List.mem_cons_self) ha)

/-- The innermost call may have laid other records, if its return record stands
above them; what lies below stays. -/
lemma relift (hint : P.fieldCount P.intClass = 0) (h : Stack P rs (a :: as)) {n : Nat}
    (hkeeps : rs.Keeps P a.base rs') (hheld : Activation.Held P rs' { a with lifts := n }) :
    Stack P rs' ({ a with lifts := n } :: as) := by
  -- all other return records lie below the register at which the call was called
  have hrest : ∀ {bs : List Activation}, Stack P rs bs →
      (∀ b ∈ bs, b.frame + recordSize ≤ a.base) → Stack P rs' bs := by
    intro bs hbs hbelow
    induction hbs with
    | root hbase hcaller hpos hb =>
        exact .root hbase hcaller hpos (hb.keeps hint hkeeps (hbelow _ List.mem_cons_self))
    | call hcaller hbase hb _ ih =>
        exact .call hcaller hbase (hb.keeps hint hkeeps (hbelow _ List.mem_cons_self))
          (ih fun b hb => hbelow b (List.mem_cons_of_mem _ hb))
  cases h with
  | root hbase hcaller hpos _ => exact .root hbase hcaller hpos hheld
  | call hcaller hbase hb htail =>
      exact .call hcaller hbase hheld (hrest htail fun b hb =>
        (Stack.call hcaller hbase ‹_› htail).above hb)

lemma keeps (hint : P.fieldCount P.intClass = 0) (h : Stack P rs (a :: as))
    (hkeeps : rs.Keeps P (a.frame + recordSize) rs') : Stack P rs' (a :: as) := by
  have hframe : a.base ≤ a.frame := Nat.le_add_right _ _
  exact h.relift (n := a.lifts) hint (hkeeps.mono (by omega))
    (h.held.keeps hint hkeeps (Nat.le_refl _))

lemma records_below (h : Stack P rs (a :: as)) (hr : r ∈ allRecords (a :: as)) :
    recordSize ≤ r ∧ r + recordSize ≤ a.frame := by
  obtain ⟨b, hb, hr⟩ := mem_allRecords.mp hr
  obtain ⟨i, hi, rfl⟩ := Activation.mem_records.mp hr
  obtain ⟨before, after, hsplit⟩ := List.append_of_mem hb
  have hlow := (hsplit ▸ h : Stack P rs (before ++ b :: after)).of_append.low
  have hbelow : b.frame ≤ a.frame := by
    rcases List.mem_cons.mp hb with rfl | hb
    · exact Nat.le_refl _
    · have habove := h.above hb
      have hframe : a.base ≤ a.frame := Nat.le_add_right _ _
      omega
  rw [Activation.frame] at hbelow
  rw [recordSize] at *
  omega

/-- The records of the calls below end below the register at which the innermost one
was called. -/
lemma records_apart (h : Stack P rs (a :: as)) (hr : r ∈ allRecords as) :
    r + 2 * recordSize ≤ a.base := by
  cases as with
  | nil => cases hr
  | cons b bs =>
      have habove := h.above List.mem_cons_self
      cases h with
      | call _ _ _ h =>
          have hbelow := h.records_below hr
          omega

lemma exists_of_record (hr : r ∈ allRecords as) : ∃ front b bs i,
    as = front ++ b :: bs ∧ i < b.lifts ∧ r = b.base + recordSize * i := by
  obtain ⟨b, hb, hr⟩ := mem_allRecords.mp hr
  obtain ⟨i, hi, rfl⟩ := Activation.mem_records.mp hr
  obtain ⟨front, bs, rfl⟩ := List.append_of_mem hb
  exact ⟨front, b, bs, i, rfl, hi, rfl⟩

/-- A record right above another one belongs to the same call. -/
lemma next_record_iff (h : Stack P rs (front ++ b :: bs)) {i : Nat} (hi : i < b.lifts) :
    b.base + recordSize * i + recordSize ∈ allRecords (front ++ b :: bs) ↔ i + 1 < b.lifts := by
  rw [allRecords_append, allRecords_cons, List.mem_append, List.mem_append]
  constructor
  · rintro (hr | hr | hr)
    · obtain ⟨a, ha, hr⟩ := mem_allRecords.mp hr
      obtain ⟨j, -, hj⟩ := Activation.mem_records.mp hr
      have hapart := h.apart ha
      rw [Activation.frame] at hapart
      rw [recordSize] at *
      omega
    · obtain ⟨j, hj, heq⟩ := Activation.mem_records.mp hr
      rw [recordSize] at heq
      omega
    · have hapart := h.of_append.records_apart hr
      rw [recordSize] at hapart
      omega
  · intro hlt
    exact .inr (.inl (Activation.mem_records.mpr ⟨i + 1, hlt, by rw [Nat.mul_add, Nat.mul_one]; omega⟩))

/-- No record stands across the end of another one. -/
lemma not_across (h : Stack P rs as) (hr : r ∈ allRecords as) :
    r + recordSize + 1 ∉ allRecords as := by
  obtain ⟨front, b, bs, i, rfl, hi, rfl⟩ := exists_of_record hr
  rw [allRecords_append, allRecords_cons, List.mem_append, List.mem_append]
  rintro (hr | hr | hr)
  · obtain ⟨a, ha, hr⟩ := mem_allRecords.mp hr
    obtain ⟨j, -, hj⟩ := Activation.mem_records.mp hr
    have hapart := h.apart ha
    rw [Activation.frame] at hapart
    rw [recordSize] at *
    omega
  · obtain ⟨j, -, heq⟩ := Activation.mem_records.mp hr
    rw [recordSize] at heq
    omega
  · have hapart := h.of_append.records_apart hr
    rw [recordSize] at hapart
    omega

/-- A record with none right above it is the last one that a call has laid. -/
lemma exists_last (h : Stack P rs as) (hr : r ∈ allRecords as)
    (hlast : r + recordSize ∉ allRecords as) :
    ∃ front b bs, as = front ++ b :: bs ∧ r ∈ b.records ∧ b.frame = r + recordSize := by
  obtain ⟨front, b, bs, i, rfl, hi, rfl⟩ := exists_of_record hr
  rw [h.next_record_iff hi] at hlast
  refine ⟨front, b, bs, rfl, Activation.mem_records.mpr ⟨i, hi, rfl⟩, ?_⟩
  rw [Activation.frame, show b.lifts = i + 1 by omega, Nat.mul_add, Nat.mul_one, Nat.add_assoc]

end Stack

/-! ### Links -/

namespace Context.Links

variable {P : Program} {rs rs' : Registers} {ctx r : Nat} {chain front back : List Nat}

lemma eq_headD (h : Links P rs ctx chain) : ctx = chain.headD 0 := by
  cases h <;> rfl

/-- If the records end below a register, then so does the innermost one. -/
lemma start {n : Nat} (h : Links P rs ctx chain) (hn : ∀ r ∈ chain, r + recordSize ≤ n) :
    ctx = 0 ∨ ctx + recordSize ≤ n := by
  cases h with
  | nil => exact .inl rfl
  | cons => exact .inr (hn _ List.mem_cons_self)

lemma keeps (hint : P.fieldCount P.intClass = 0) {n : Nat} (h : Links P rs ctx chain)
    (hkeeps : rs.Keeps P n rs') (hn : ∀ r ∈ chain, r < n) : Links P rs' ctx chain := by
  induction h with
  | nil => exact .nil
  | @cons r p chain hp _ ih =>
      have hlt := parent_lt hp
      have hsize := (parent_eq_ok.mp hp).1
      have hparent := parent_of_alike hint hp (hkeeps.cell r (hn r List.mem_cons_self))
        (hkeeps.size ▸ hsize) (Nat.sub_le _ _)
      rw [Nat.sub_sub_self (Nat.le_of_lt hlt)] at hparent
      exact .cons hparent (ih fun r hr => hn r (List.mem_cons_of_mem _ hr))

/-- **Unwinding drops the records that do not end below the frame.** -/
lemma unwind (h : Links P rs ctx (front ++ back)) (frame : Nat)
    (hfront : ∀ r ∈ front, frame < r + recordSize) (hback : ∀ r ∈ back, r + recordSize ≤ frame) :
    ∃ c, Context.unwind P rs frame ctx = .ok c ∧ Links P rs c back := by
  induction front generalizing ctx with
  | nil =>
      refine ⟨ctx, ?_, h⟩
      rw [unwind_eq, if_pos]
      cases h with
      | nil => exact .inl rfl
      | cons => exact .inr (hback _ List.mem_cons_self)
  | cons d front ih =>
      cases h with
      | cons hp h =>
          have hlt := parent_lt hp
          have hdrop := hfront d List.mem_cons_self
          rw [unwind_eq, if_neg (by omega), hp]
          exact ih h fun r hr => hfront r (List.mem_cons_of_mem _ hr)

/-- Links that lead to a record through higher ones start at or above it. -/
lemma le_start {source : Nat} {seg rest : List Nat} (h : Links P rs ctx (seg ++ source :: rest))
    (hseg : ∀ r ∈ seg, source < r) : source ≤ ctx := by
  cases seg with
  | nil =>
      cases h with
      | cons => exact Nat.le_refl _
  | cons d seg =>
      cases h with
      | cons => exact Nat.le_of_lt (hseg _ List.mem_cons_self)

/-- Registers that hold links alike, laid down elsewhere, hold the moved links. -/
lemma move (hint : P.fieldCount P.intClass = 0) {source target : Nat} {seg rest chain : List Nat}
    (h : Links P rs ctx (seg ++ source :: rest)) (hseg : ∀ r ∈ seg, source < r)
    (hcell : ∀ r ∈ seg, (rs.cell r).Alike P (rs'.cell (r - source + target)) ∧
      r - source + target < rs'.size) (hchain : Links P rs' target chain) :
    Links P rs' (ctx - source + target) (seg.map (· - source + target) ++ chain) := by
  induction seg generalizing ctx with
  | nil =>
      cases h with
      | cons =>
          rw [Nat.sub_self, Nat.zero_add]
          exact hchain
  | cons d seg ih =>
      cases h with
      | @cons _ p _ hp h =>
          have hseg' : ∀ r ∈ seg, source < r := fun r hr => hseg r (List.mem_cons_of_mem _ hr)
          have hmoved := ih h hseg' fun r hr => hcell r (List.mem_cons_of_mem _ hr)
          have hnext := h.le_start hseg'
          obtain ⟨halike, hsize⟩ := hcell d List.mem_cons_self
          have hsource := hseg d List.mem_cons_self
          have hlt := parent_lt hp
          have hparent := parent_of_alike hint hp halike hsize (by omega)
          rw [show d - source + target - (d - p) = p - source + target by omega] at hparent
          exact .cons hparent hmoved

end Context.Links

/-- The records of the thread, the innermost one first. -/
def Machine.records (P : Program) (m : Machine) : List Nat :=
  Context.recordsFrom P m.thread.registers m.thread.context m.thread.context

lemma Context.Links.records_eq {P : Program} {m : Machine} {chain : List Nat}
    (h : Links P m.thread.registers m.thread.context chain) : m.records P = chain :=
  (h.eq_recordsFrom (Nat.le_refl _)).symm

/-! ### Threads that run a call -/

namespace Machine

/-- The thread runs the innermost one of the calls, and its chain of records is made
of those that the calls have laid. Depths are integers of the machine, so registers
are numbered below their bound. -/
structure Stacked (P : Program) (m : Machine) (a : Activation) (as : List Activation) : Prop where
  stack : Stack P m.thread.registers (a :: as)
  frame : m.thread.frame = a.frame
  frameEnd : recordSize ≤ m.thread.frameEnd
  links : Context.Links P m.thread.registers m.thread.context (allRecords (a :: as))
  size : m.thread.registers.size ≤ 2 ^ 31

/-- The thread runs the innermost one of the calls, or has come to its end if there
is none. -/
def Stands (P : Program) (m : Machine) : List Activation → Prop
  | [] => m.thread.pos = Thread.halt ∧ m.thread.frame = recordSize ∧ m.thread.context = 0
  | a :: as => m.Stacked P a as

/-- The machine that a call has left: the thread is back in the frame of its caller,
with the records that the others have laid. -/
def returned (m : Machine) (a : Activation) (as : List Activation) : Machine :=
  ⟨m.image, { m.thread with
    pos := a.pos, frame := a.caller, frameEnd := max (a.frame - a.caller) recordSize
    context := Activation.innermost as }, m.transfer⟩

end Machine

namespace Machine.Stacked

variable {P : Program} {m m' : Machine} {a : Activation} {as : List Activation}

lemma context (h : m.Stacked P a as) :
    m.thread.context = 0 ∨ m.thread.context + recordSize ≤ m.thread.frame := by
  rw [h.frame]
  exact h.links.start fun r hr => (h.stack.records_below hr).2

lemma records_eq (h : m.Stacked P a as) : m.records P = allRecords (a :: as) :=
  h.links.records_eq

lemma readInt (h : m.Stacked P a as) :
    Context.readInt P m.thread.registers m.thread.frame =
      .ok (Int32.ofNat (a.frame - a.caller)) := by
  rw [readInt_eq_ok, h.frame]
  have hroom := h.stack.held.room
  exact ⟨by omega, h.stack.held.depth⟩

/-- The calls stay if the registers of the frame stay, but for those above its return
record. -/
lemma calm (hint : P.fieldCount P.intClass = 0) (h : m.Stacked P a as)
    (hcontext : m'.thread.context = m.thread.context) (hframe : m'.thread.frame = m.thread.frame)
    (hend : recordSize ≤ m'.thread.frameEnd)
    (hkeeps : m.thread.registers.Keeps P (m.thread.frame + recordSize) m'.thread.registers) :
    m'.Stacked P a as where
  stack := h.stack.keeps hint (h.frame ▸ hkeeps)
  frame := hframe.trans h.frame
  frameEnd := hend
  links := by
    rw [hcontext]
    refine h.links.keeps hint hkeeps fun r hr => ?_
    have hbelow := (h.stack.records_below hr).2
    rw [← h.frame] at hbelow
    rw [recordSize] at *
    omega
  size := hkeeps.size ▸ h.size

/-- The calls depend on the thread only, and neither on its value register nor on its
position. -/
lemma of_thread (h : m.Stacked P a as) (hregisters : m'.thread.registers = m.thread.registers)
    (hcontext : m'.thread.context = m.thread.context) (hframe : m'.thread.frame = m.thread.frame)
    (hend : m'.thread.frameEnd = m.thread.frameEnd) : m'.Stacked P a as where
  stack := hregisters ▸ h.stack
  frame := hframe.trans h.frame
  frameEnd := hend ▸ h.frameEnd
  links := by
    rw [hregisters, hcontext]
    exact h.links
  size := hregisters ▸ h.size

/-- Unwinding to the caller drops the records that the innermost call has laid. -/
lemma unwind_caller (h : m.Stacked P a as) :
    Context.unwind P m.thread.registers a.caller m.thread.context =
        .ok (Activation.innermost as) ∧
      Context.Links P m.thread.registers (Activation.innermost as) (allRecords as) := by
  have hcaller := h.stack.caller.2
  have hlinks := h.links
  rw [allRecords_cons] at hlinks
  obtain ⟨c, hc, hback⟩ := hlinks.unwind a.caller
    (fun r hr => by
      obtain ⟨i, -, rfl⟩ := Activation.mem_records.mp hr
      rw [recordSize]
      omega)
    (fun r hr => by
      cases h.stack with
      | root => cases hr
      | call heq _ _ htail =>
          rw [heq]
          exact (htail.records_below hr).2)
  rw [Activation.innermost, ← hback.eq_headD]
  exact ⟨hc, hback⟩

/-- **A call in progress can be left**: the thread goes back to its caller, and keeps
the records that the others have laid. -/
lemma returnValue (h : m.Stacked P a as) :
    Machine.returnValue P m = .ok () (m.returned a as) ∧ (m.returned a as).Stands P as := by
  obtain ⟨hunwind, hback⟩ := h.unwind_caller
  have hcaller := h.stack.caller.2
  have hframe : a.base ≤ a.frame := Nat.le_add_right _ _
  have hroom := h.stack.held.room
  have hsize := h.size
  refine ⟨?_, ?_⟩
  · have hdepth : (Int32.ofNat (a.frame - a.caller)).toInt = ((a.frame - a.caller : Nat) : Int) :=
      Int32.toInt_ofNat_of_lt (by omega)
    have heq : a.frame - (((a.frame - a.caller : Nat) : Int)).toNat = a.caller := by omega
    simp only [Machine.returnValue, Machine.frame, Machine.readInt, bind_eq_ok, read_eq_ok,
      query_eq_ok, register_eq_ok]
    refine ⟨_, m, ⟨rfl, rfl⟩, _, m, ⟨h.readInt, rfl⟩, _, m, ⟨?_, rfl, rfl⟩, ?_⟩
    · rw [h.frame]
      exact hroom
    · rw [hdepth, h.frame, if_pos (by omega)]
      simp only [bind_eq_ok, query_eq_ok, updateThread_eq_ok]
      refine ⟨Activation.innermost as, m, ⟨?_, rfl⟩, ?_⟩
      · rw [heq]
        exact hunwind
      · rw [heq, h.stack.held.target, returned]
        rfl
  · cases h.stack with
    | root _ hcaller hpos _ => exact ⟨hpos, hcaller, rfl⟩
    | call heq _ _ htail => exact ⟨htail, heq, Nat.le_max_right _ _, hback, h.size⟩

lemma ret (h : m.Stacked P a as) (hm : m.transfer = none) (v : Value) :
    Machine.ret P v m = .ok ()
        (returned ⟨m.image, { m.thread with value := v }, some .returned⟩ a as) ∧
      (returned ⟨m.image, { m.thread with value := v }, some .returned⟩ a as).Stands P as := by
  have h' : Stacked P ⟨m.image, { m.thread with value := v }, some .returned⟩ a as :=
    h.of_thread rfl rfl rfl rfl
  obtain ⟨hreturn, hstands⟩ := h'.returnValue
  exact ⟨(ret_eq hm v).trans hreturn, hstands⟩

/-! ### Laying a record -/

/-- **A call lays a record** under its return record. -/
lemma lift (hint : P.fieldCount P.intClass = 0) (h : m.Stacked P a as) {depth : Int32}
    (hdepth : Context.readInt P m.thread.registers m.thread.frame = .ok depth)
    (hroom : m.thread.frame + recordSize + 1 < m.thread.registers.size) (mark : Value)
    (hcontext : m'.thread.context = m.thread.frame)
    (hframe : m'.thread.frame = m.thread.frame + recordSize)
    (hend : recordSize ≤ m'.thread.frameEnd)
    (hkeeps : (laid P m.thread depth mark).Keeps P (m.thread.frame + 2 * recordSize)
      m'.thread.registers) : m'.Stacked P { a with lifts := a.lifts + 1 } as := by
  obtain ⟨hlow, hcaller⟩ := h.stack.caller
  have hbase : a.base ≤ a.frame := Nat.le_add_right _ _
  have hsize := h.size
  have hinner := h.context
  have hlifted := a.frame_lifted
  cases hdepth.symm.trans h.readInt
  have hlaid := (same_laid P m.thread (Int32.ofNat (a.frame - a.caller)) mark).keeps P
  obtain ⟨hlink, -, hdepth', htarget⟩ := cells_laid (P := P) hroom
    (Int32.ofNat (a.frame - a.caller)) mark
  rw [h.frame] at hroom hcontext hframe hkeeps hinner hlaid hlink hdepth' htarget
  rw [recordSize] at hroom hinner hlow
  have hheld : Activation.Held P (laid P m.thread (Int32.ofNat (a.frame - a.caller)) mark)
      { a with lifts := a.lifts + 1 } := by
    refine ⟨?_, ?_, ?_⟩ <;> rw [hlifted]
    · rw [hlaid.size, recordSize]
      omega
    · rw [hdepth', Program.nat, ← Int32.ofNat_add, ← Nat.sub_add_comm (hcaller.trans hbase)]
    · rw [htarget, h.stack.held.target]
  have hstack := h.stack.relift (n := a.lifts + 1) hint (hlaid.mono hbase) hheld
  refine ⟨hstack.keeps hint ?_, ?_, hend, ?_, ?_⟩
  · rw [hlifted]
    exact hkeeps.mono (by omega)
  · rw [hlifted]
    exact hframe
  · rw [hcontext]
    have hbelow : ∀ r ∈ allRecords (a :: as), r < a.frame := fun r hr => by
      have hlt := (h.stack.records_below hr).2
      rw [recordSize] at hlt
      omega
    have hlinks := h.links.keeps hint hlaid hbelow
    have hparent : Context.parent P (laid P m.thread (Int32.ofNat (a.frame - a.caller)) mark)
        a.frame = .ok m.thread.context := by
      rw [Context.parent_eq_ok, hlink, Program.signed_nat (by omega), hlaid.size]
      exact ⟨by omega, rfl, by omega, by omega, by omega⟩
    refine Context.Links.keeps hint (.cons hparent hlinks) hkeeps fun r hr => ?_
    rcases List.mem_cons.mp hr with heq | hr
    · have hpos : 0 < 2 * recordSize := by decide
      exact heq ▸ Nat.lt_add_of_pos_right hpos
    · exact Nat.lt_of_lt_of_le (hbelow r hr) (Nat.le_add_right _ _)
  · rw [hkeeps.size, hlaid.size]
    exact hsize

/-! ### Going back to a record -/

/-- **The thread may go back to the last record that a call has laid**, right below
the return record of the call. -/
lemma refocus (h : m.Stacked P a as) {front bs : List Activation} {b : Activation}
    (hsplit : a :: as = front ++ b :: bs) {r : Nat} (hr : r ∈ b.records)
    (hframe : b.frame = r + recordSize) : (m.refocused r).Stacked P b bs := by
  obtain ⟨i, hi, rfl⟩ := Activation.mem_records.mp hr
  obtain ⟨above, habove⟩ := Activation.exists_allRecords front bs hi
  have hlifts : b.lifts = i + 1 := by
    rw [Activation.frame, recordSize] at hframe
    omega
  have hlinks := h.links
  rw [hsplit, habove] at hlinks
  refine ⟨?_, hframe.symm, h.frameEnd, ?_, h.size⟩
  · exact (hsplit ▸ h.stack : Stack P _ (front ++ b :: bs)).of_append
  · rw [allRecords_cons, Activation.records, hlifts]
    exact hlinks.of_append

/-- **The thread may go back to before a call laid a record**, if the return record of
the call takes its place. -/
lemma cut (hint : P.fieldCount P.intClass = 0) (h : m.Stacked P a as)
    {front bs : List Activation} {b : Activation} (hsplit : a :: as = front ++ b :: bs) {i : Nat}
    (hi : i < b.lifts) (hframe : m'.thread.frame = b.base + recordSize * i)
    (hend : recordSize ≤ m'.thread.frameEnd)
    (hcontext : Context.parent P m.thread.registers (b.base + recordSize * i) =
      .ok m'.thread.context)
    (hkeeps : m.thread.registers.Keeps P (b.base + recordSize * i) m'.thread.registers)
    (hheld : Activation.Held P m'.thread.registers { b with lifts := i }) :
    m'.Stacked P { b with lifts := i } bs := by
  obtain ⟨above, habove⟩ := Activation.exists_allRecords front bs hi
  have hlinks := h.links
  rw [hsplit, habove] at hlinks
  obtain ⟨p, hp, hback⟩ := hlinks.exists_parent
  cases hp.symm.trans hcontext
  have hstack : Stack P m.thread.registers (b :: bs) :=
    (hsplit ▸ h.stack : Stack P _ (front ++ b :: bs)).of_append
  have hstack' := hstack.relift hint (hkeeps.mono (Nat.le_add_right _ _)) hheld
  refine ⟨hstack', hframe, hend, hback.keeps hint hkeeps fun r hr => ?_, hkeeps.size ▸ h.size⟩
  have hbelow := (hstack'.records_below hr).2
  rw [Activation.frame, recordSize] at hbelow
  rw [recordSize]
  dsimp only at hbelow
  omega

end Machine.Stacked

end EffectMachine
