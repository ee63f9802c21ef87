/-
Chains of context records.

Every context record leads to the enclosing one, and the last one to register 0.
A synthetic record serves a record further down its chain, and shields whatever
lies between the two: effects that its handler triggers pass over it. Shields
are nested. That makes the records from a synthetic one down to the one it
serves a whole that can be laid onto other registers.

* `Record`, `Record.Fits`, `Nested`: records, and lists of records whose shields
  are nested, the innermost first;
* `Context.Chain`: the records that registers hold from a register on;
* `Registers.Keeps`, `Registers.Same`: registers below an end stay alike, or as they
  are;
* `Context.Chain.keeps`: a chain does not change while the registers below its end
  stay alike;
* `Context.Chain.exists_unwind`, `Context.Chain.exists_synthetic`: **walks along a
  chain stay on it**;
* `Nested.move`, `Context.Chain.move`: **the records of a continuation can be
  laid onto other registers**.
-/
import EffectMachine.Proofs.ContextWalks

namespace EffectMachine

/-! ### Registers that are kept -/

/-- The registers below an end have stayed alike. -/
structure Registers.Keeps (P : Program) (n : Nat) (rs rs' : Registers) : Prop where
  size : rs'.size = rs.size
  cell : ∀ i < n, (rs.cell i).Alike P (rs'.cell i)

namespace Registers.Keeps

variable {P : Program} {n k : Nat} {rs rs' rs'' : Registers}

lemma refl (P : Program) (n : Nat) (rs : Registers) : Keeps P n rs rs :=
  ⟨rfl, fun _ _ => .refl _⟩

lemma trans (h : Keeps P n rs rs') (h' : Keeps P n rs' rs'') : Keeps P n rs rs'' :=
  ⟨h'.size.trans h.size, fun i hi => (h.cell i hi).trans (h'.cell i hi)⟩

lemma mono (h : Keeps P n rs rs') (hk : k ≤ n) : Keeps P k rs rs' :=
  ⟨h.size, fun i hi => h.cell i (Nat.lt_of_lt_of_le hi hk)⟩

lemma set (h : Keeps P n rs rs') {i : Nat} (hi : n ≤ i) (v : Value) :
    Keeps P n rs (rs'.setIfInBounds i v) := by
  refine ⟨by rw [Array.size_setIfInBounds, h.size], fun j hj => ?_⟩
  rw [Cells.cell_setIfInBounds, if_neg (by omega)]
  exact h.cell j hj

end Registers.Keeps

/-- The registers below an end are as they were. -/
structure Registers.Same (n : Nat) (rs rs' : Registers) : Prop where
  size : rs'.size = rs.size
  cell : ∀ i < n, rs'.cell i = rs.cell i

namespace Registers.Same

variable {n : Nat} {rs rs' : Registers}

lemma refl (n : Nat) (rs : Registers) : Same n rs rs := ⟨rfl, fun _ _ => rfl⟩

lemma keeps (h : Same n rs rs') (P : Program) : rs.Keeps P n rs' :=
  ⟨h.size, fun i hi => h.cell i hi ▸ .refl _⟩

lemma set (h : Same n rs rs') {i : Nat} (hi : n ≤ i) (v : Value) :
    Same n rs (rs'.setIfInBounds i v) := by
  refine ⟨by rw [Array.size_setIfInBounds, h.size], fun j hj => ?_⟩
  rw [Cells.cell_setIfInBounds, if_neg (by omega)]
  exact h.cell j hj

lemma overwrite (h : Same n rs rs') {start : Nat} (hstart : n ≤ start) (vs : List Value) :
    Same n rs (Cells.overwrite rs' start vs) := by
  refine ⟨by rw [Cells.size_overwrite, h.size], fun j hj => ?_⟩
  rw [Cells.cell_overwrite, if_neg (by omega)]
  exact h.cell j hj

end Registers.Same

/-! ### Reading a record -/

namespace Context

variable {P : Program} {rs rs' : Registers} {ctx c p n : Nat}

/-- The distance to the enclosing record is a positive integer, and not too
large. -/
lemma parent_eq_ok :
    parent P rs ctx = .ok p ↔ ctx < rs.size ∧ (rs.cell ctx).tag = P.intClass ∧
      0 < (rs.cell ctx).signed.toInt ∧ (rs.cell ctx).signed.toInt ≤ ctx ∧
      p = ctx - (rs.cell ctx).signed.toInt.toNat := by
  rw [parent, readInt]
  by_cases hsize : ctx < rs.size
  · rw [Registers.get_of_lt hsize]
    dsimp only
    by_cases htag : (rs.cell ctx).tag = P.intClass
    · rw [if_pos htag]
      dsimp only
      constructor
      · intro h
        split at h
        · rename_i hd
          cases h
          exact ⟨hsize, htag, hd.1, hd.2, rfl⟩
        · cases h
      · rintro ⟨-, -, hpos, hle, rfl⟩
        rw [if_pos ⟨hpos, hle⟩]
    · rw [if_neg htag]
      constructor
      · intro h
        cases h
      · rintro ⟨-, h, -⟩
        exact absurd h htag
  · rw [Registers.get_of_le (by omega)]
    constructor
    · intro h
      cases h
    · rintro ⟨h, -⟩
      exact absurd h hsize

/-- The distance to the record that is served is the data of the marker. -/
lemma handling_eq_ok :
    handling rs ctx = .ok c ↔ ctx + 1 < rs.size ∧
      recordSize ≤ (rs.cell (ctx + 1)).data.toNat ∧ (rs.cell (ctx + 1)).data.toNat < ctx ∧
      c = ctx - (rs.cell (ctx + 1)).data.toNat := by
  rw [handling]
  by_cases hsize : ctx + 1 < rs.size
  · rw [Registers.get_of_lt hsize]
    dsimp only
    constructor
    · intro h
      split at h
      · rename_i hd
        cases h
        exact ⟨hsize, hd.1, hd.2, rfl⟩
      · cases h
    · rintro ⟨-, hpos, hlt, rfl⟩
      rw [if_pos ⟨hpos, hlt⟩]
  · rw [Registers.get_of_le (by omega)]
    constructor
    · intro h
      cases h
    · rintro ⟨h, -⟩
      exact absurd h hsize

/-- A record whose registers stay alike, wherever they come to lie, leads as far
down as before. -/
lemma parent_of_alike (hint : P.fieldCount P.intClass = 0) {ctx' : Nat}
    (h : parent P rs ctx = .ok p) (halike : (rs.cell ctx).Alike P (rs'.cell ctx'))
    (hsize : ctx' < rs'.size) (hle : ctx - p ≤ ctx') :
    parent P rs' ctx' = .ok (ctx' - (ctx - p)) := by
  obtain ⟨-, htag, hpos, hle', rfl⟩ := parent_eq_ok.mp h
  rw [parent_eq_ok, ← halike.2 (htag ▸ hint)]
  refine ⟨hsize, htag, hpos, by omega, by omega⟩

/-- A synthetic record whose registers stay alike serves a record as far down as
before. -/
lemma handling_of_alike (hempty : P.fieldCount .empty = 0) {ctx' : Nat}
    (h : handling rs ctx = .ok c) (htag : (rs.cell (ctx + 1)).tag = .empty)
    (halike : (rs.cell (ctx + 1)).Alike P (rs'.cell (ctx' + 1))) (hsize : ctx' + 1 < rs'.size)
    (hlt : ctx - c < ctx') : handling rs' ctx' = .ok (ctx' - (ctx - c)) := by
  obtain ⟨-, hpos, hlt', rfl⟩ := handling_eq_ok.mp h
  rw [handling_eq_ok, ← halike.2 (htag ▸ hempty)]
  exact ⟨hsize, hpos, by omega, by omega⟩

end Context

/-! ### Records whose shields are nested -/

/-- A context record: the register at which it stands and, if it is synthetic,
the register of the record that it serves. -/
structure Record where
  pos : Nat
  serves : Option Nat
deriving DecidableEq

/-- A record can stand above others: it does not reach into them, it serves one
of them that is not synthetic, and the shields of the others do not cross its
own. -/
structure Record.Fits (e : Record) (es : List Record) : Prop where
  low : recordSize ≤ e.pos
  above : ∀ d ∈ es, d.pos + recordSize ≤ e.pos
  served : ∀ c, e.serves = some c → ⟨c, none⟩ ∈ es
  apart : ∀ c, e.serves = some c → ∀ d ∈ es, ∀ b, d.serves = some b → d.pos < c ∨ c < b

/-- A record that is not synthetic has to be above the others. -/
lemma Record.Fits.of_plain {pos : Nat} {es : List Record} (hlow : recordSize ≤ pos)
    (habove : ∀ d ∈ es, d.pos + recordSize ≤ pos) : Record.Fits ⟨pos, none⟩ es :=
  ⟨hlow, habove, (fun _ hc => by cases hc), (fun _ hc => by cases hc)⟩

/-- A synthetic record has to serve one over which no shield lies. -/
lemma Record.Fits.of_serving {pos c : Nat} {es : List Record} (hlow : recordSize ≤ pos)
    (habove : ∀ d ∈ es, d.pos + recordSize ≤ pos) (hserved : ⟨c, none⟩ ∈ es)
    (hapart : ∀ d ∈ es, ∀ b, d.serves = some b → d.pos < c ∨ c < b) :
    Record.Fits ⟨pos, some c⟩ es := by
  refine ⟨hlow, habove, fun b hb => ?_, fun b hb => ?_⟩
  · cases hb
    exact hserved
  · cases hb
    exact hapart

/-- Records whose shields are nested, the innermost first. -/
inductive Nested : List Record → Prop
  | nil : Nested []
  | cons {e : Record} {es : List Record} : e.Fits es → Nested es → Nested (e :: es)

namespace Nested

variable {e d : Record} {es front back : List Record}

lemma of_append (h : Nested (front ++ back)) : Nested back := by
  induction front with
  | nil => exact h
  | cons e front ih =>
      cases h with
      | cons _ h => exact ih h

lemma fits (h : Nested (front ++ e :: back)) : e.Fits back := by
  cases h.of_append with
  | cons hfits _ => exact hfits

lemma above (h : Nested (front ++ back)) (he : e ∈ front) (hd : d ∈ back) :
    d.pos + recordSize ≤ e.pos := by
  obtain ⟨before, after, rfl⟩ := List.append_of_mem he
  rw [List.append_assoc, List.cons_append] at h
  exact h.fits.above d (List.mem_append_right _ hd)

/-- Records between a synthetic one and the one it serves serve records between
the two. -/
lemma lt_served {s b c : Nat} (h : Nested (front ++ ⟨s, some c⟩ :: (es ++ ⟨c, none⟩ :: back)))
    (hd : d ∈ es) (hb : d.serves = some b) : c < b := by
  have habove : c + recordSize ≤ d.pos := by
    cases h.of_append with
    | cons _ htail => exact htail.above hd List.mem_cons_self
  rw [recordSize] at habove
  rcases h.fits.apart c rfl d (List.mem_append_left _ hd) b hb with hlt | hlt
  · omega
  · exact hlt

/-- The records from a synthetic one down to the one it serves stand between the
two, and serve none further down. -/
lemma segment {s c : Nat} (h : Nested (front ++ ⟨s, some c⟩ :: (es ++ ⟨c, none⟩ :: back)))
    (hd : d ∈ ⟨s, some c⟩ :: es) :
    c + recordSize ≤ d.pos ∧ d.pos ≤ s ∧ ∀ b, d.serves = some b → c ≤ b := by
  have hmem : ⟨c, none⟩ ∈ es ++ ⟨c, none⟩ :: back := List.mem_append_right _ List.mem_cons_self
  rcases List.mem_cons.mp hd with rfl | hd
  · refine ⟨h.fits.above _ hmem, Nat.le_refl s, fun b hb => ?_⟩
    cases hb
    exact Nat.le_refl c
  · refine ⟨?_, ?_, fun b hb => Nat.le_of_lt (h.lt_served hd hb)⟩
    · cases h.of_append with
      | cons _ htail => exact htail.above hd List.mem_cons_self
    · exact Nat.le_trans (Nat.le_add_right _ _) (h.fits.above d (List.mem_append_left _ hd))

lemma low (h : Nested es) (he : e ∈ es) : recordSize ≤ e.pos := by
  obtain ⟨before, after, rfl⟩ := List.append_of_mem he
  exact h.fits.low

end Nested

/-! ### Chains -/

/-- The handler register of a record marks it as synthetic or not, and leads a
synthetic one to the record that it serves. -/
structure Record.Held (rs : Registers) (e : Record) : Prop where
  room : e.pos + 1 < rs.size
  plain : e.serves = none → (rs.cell (e.pos + 1)).tag ≠ .empty
  synthetic : ∀ c, e.serves = some c →
    (rs.cell (e.pos + 1)).tag = .empty ∧ Context.handling rs e.pos = .ok c

lemma Record.Held.of_plain {rs : Registers} {pos : Nat} (hroom : pos + 1 < rs.size)
    (htag : (rs.cell (pos + 1)).tag ≠ .empty) : Record.Held rs ⟨pos, none⟩ :=
  ⟨hroom, fun _ => htag, fun _ hc => by cases hc⟩

lemma Record.Held.of_serving {rs : Registers} {pos c : Nat} (hroom : pos + 1 < rs.size)
    (htag : (rs.cell (pos + 1)).tag = .empty) (hhandling : Context.handling rs pos = .ok c) :
    Record.Held rs ⟨pos, some c⟩ := by
  refine ⟨hroom, (fun hc => by cases hc), fun b hb => ?_⟩
  cases hb
  exact ⟨htag, hhandling⟩

namespace Context

variable {P : Program} {rs rs' : Registers} {ctx c p n frame : Nat} {e d : Record}
  {es front back : List Record}

/-- The registers hold the records, each one leading to the next, from the
register `ctx` on. -/
inductive Chain (P : Program) (rs : Registers) : Nat → List Record → Prop
  | nil : Chain P rs 0 []
  | cons {e : Record} {p : Nat} {es : List Record} : parent P rs e.pos = .ok p → e.Held rs →
      Chain P rs p es → Chain P rs e.pos (e :: es)

namespace Chain

/-- A chain stands at its innermost record, and goes on from the one that
encloses it. -/
lemma uncons (h : Chain P rs ctx (e :: es)) :
    ctx = e.pos ∧ e.Held rs ∧ ∃ p, parent P rs e.pos = .ok p ∧ Chain P rs p es := by
  cases h with
  | cons hp hheld h => exact ⟨rfl, hheld, _, hp, h⟩

/-- Only register 0 starts an empty chain. -/
lemma eq_zero_iff (h : Chain P rs ctx es) : ctx = 0 ↔ es = [] := by
  cases h with
  | nil => exact ⟨fun _ => rfl, fun _ => rfl⟩
  | cons hp =>
      have hlt := parent_lt hp
      exact ⟨fun h => by omega, fun h => by cases h⟩

lemma of_append (h : Chain P rs ctx (front ++ e :: back)) : Chain P rs e.pos (e :: back) := by
  induction front generalizing ctx with
  | nil =>
      rw [List.nil_append] at h
      obtain ⟨rfl, -⟩ := h.uncons
      exact h
  | cons d front ih =>
      cases h with
      | cons _ _ h => exact ih h

lemma held (h : Chain P rs ctx es) (he : e ∈ es) : e.Held rs := by
  obtain ⟨front, back, rfl⟩ := List.append_of_mem he
  exact h.of_append.uncons.2.1

/-- A chain goes on from the record that encloses one of its records. -/
lemma exists_parent (h : Chain P rs ctx (front ++ e :: back)) :
    ∃ p, parent P rs e.pos = .ok p ∧ Chain P rs p back :=
  h.of_append.uncons.2.2

lemma keeps (hint : P.fieldCount P.intClass = 0) (hempty : P.fieldCount .empty = 0)
    (h : Chain P rs ctx es) (hkeeps : rs.Keeps P n rs') (hn : ctx = 0 ∨ ctx + recordSize ≤ n) :
    Chain P rs' ctx es := by
  induction h with
  | nil => exact .nil
  | @cons e p es hp hheld _ ih =>
      have hlt := parent_lt hp
      rw [recordSize] at *
      have hcell := hkeeps.cell e.pos (by omega)
      have hcell' := hkeeps.cell (e.pos + 1) (by omega)
      have hroom : e.pos + 1 < rs'.size := hkeeps.size ▸ hheld.room
      have hparent := parent_of_alike hint hp hcell (by omega) (by omega)
      rw [Nat.sub_sub_self (Nat.le_of_lt hlt)] at hparent
      refine .cons hparent ⟨hroom, fun hnone => ?_, fun c hc => ?_⟩ (ih (by omega))
      · rw [← hcell'.1]
        exact hheld.plain hnone
      · obtain ⟨htag, hhandling⟩ := hheld.synthetic c hc
        have hspec := handling_spec hhandling
        rw [recordSize] at hspec
        have hserved := handling_of_alike hempty hhandling htag hcell' hroom (by omega)
        rw [Nat.sub_sub_self (by omega)] at hserved
        exact ⟨hcell'.1 ▸ htag, hserved⟩

/-! ### Walks -/

/-- Unwinding ends on the chain. -/
lemma exists_unwind (h : Chain P rs ctx es) (frame : Nat) :
    ∃ c front back, es = front ++ back ∧ unwind P rs frame ctx = .ok c ∧ Chain P rs c back ∧
      (c = 0 ∨ c + recordSize ≤ frame) := by
  induction h with
  | nil => exact ⟨0, [], [], rfl, by rw [unwind_eq, if_pos (.inl rfl)], .nil, .inl rfl⟩
  | @cons e p es hp hheld h ih =>
      rw [unwind_eq]
      split
      · rename_i hend
        exact ⟨e.pos, [], e :: es, rfl, rfl, .cons hp hheld h, hend⟩
      · obtain ⟨c, front, back, rfl, hc, hback, hend⟩ := ih
        rw [hp]
        exact ⟨c, e :: front, back, rfl, hc, hback, hend⟩

/-- The innermost synthetic record is one of the chain, if there is any. -/
lemma exists_synthetic (h : Chain P rs ctx es) :
    synthetic P rs ctx = .error .notInHandler ∨
      ∃ front s c back, es = front ++ ⟨s, some c⟩ :: back ∧ synthetic P rs ctx = .ok s := by
  induction h with
  | nil => exact .inl (by rw [synthetic_eq, if_pos rfl])
  | @cons e p es hp hheld h ih =>
      have hlt := parent_lt hp
      rw [synthetic_eq, if_neg (by omega), Registers.get_of_lt hheld.room]
      dsimp only [Except.bind]
      obtain ⟨s, serves⟩ := e
      cases serves with
      | some c =>
          rw [if_pos (hheld.synthetic c rfl).1]
          exact .inr ⟨[], s, c, es, rfl, rfl⟩
      | none =>
          rw [if_neg (hheld.plain rfl), hp]
          refine ih.imp_right ?_
          rintro ⟨front, t, c, back, rfl, ht⟩
          exact ⟨⟨s, none⟩ :: front, t, c, back, rfl, ht⟩

end Chain

end Context

/-! ### Moving records -/

/-- The record as it is when the registers from `source` on have been laid down
from `target` on. -/
def Record.move (source target : Nat) (e : Record) : Record :=
  ⟨e.pos - source + target, e.serves.map (· - source + target)⟩

lemma Record.serves_move {source target b : Nat} {e : Record}
    (h : (e.move source target).serves = some b) :
    ∃ c, e.serves = some c ∧ b = c - source + target := by
  obtain ⟨c, hc, rfl⟩ := Option.map_eq_some_iff.mp h
  exact ⟨c, hc, rfl⟩

/-- Nested records that serve only each other and the one below them are nested
wherever they are laid. -/
lemma Nested.move {seg rest es : List Record} {source target : Nat}
    (h : Nested (seg ++ ⟨source, none⟩ :: rest))
    (hserves : ∀ e ∈ seg, ∀ b, e.serves = some b → source ≤ b)
    (hes : Nested (⟨target, none⟩ :: es)) :
    Nested (seg.map (Record.move source target) ++ ⟨target, none⟩ :: es) := by
  have hbelow : ∀ d ∈ es, d.pos + recordSize ≤ target := by
    cases hes with
    | cons hfits _ => exact hfits.above
  induction seg with
  | nil => exact hes
  | cons e seg ih =>
      obtain ⟨hfits, htail⟩ : e.Fits (seg ++ ⟨source, none⟩ :: rest) ∧
          Nested (seg ++ ⟨source, none⟩ :: rest) := by
        cases h with
        | cons hfits htail => exact ⟨hfits, htail⟩
      have hsource : source + recordSize ≤ e.pos :=
        hfits.above ⟨source, none⟩ (List.mem_append_right _ List.mem_cons_self)
      refine .cons ⟨?_, ?_, ?_, ?_⟩ (ih htail fun d hd => hserves d (List.mem_cons_of_mem _ hd))
      · dsimp only [Record.move]
        omega
      · intro d hd
        dsimp only [Record.move]
        rcases List.mem_append.mp hd with hd | hd
        · obtain ⟨d, hmem, rfl⟩ := List.mem_map.mp hd
          have habove := hfits.above d (List.mem_append_left _ hmem)
          have hsource' : source + recordSize ≤ d.pos := htail.above hmem List.mem_cons_self
          dsimp only [Record.move]
          omega
        · rcases List.mem_cons.mp hd with rfl | hd
          · dsimp only
            omega
          · have hlow := hbelow d hd
            omega
      · -- the record served is none of those that stay behind
        intro b hb
        obtain ⟨c, hc, rfl⟩ := Record.serves_move hb
        have hsource' := hserves e List.mem_cons_self c hc
        rcases List.mem_append.mp (hfits.served c hc) with hmem | hmem
        · exact List.mem_append_left _ (List.mem_map.mpr ⟨_, hmem, rfl⟩)
        · rcases List.mem_cons.mp hmem with heq | hmem
          · cases heq
            rw [Nat.sub_self, Nat.zero_add]
            exact List.mem_append_right _ List.mem_cons_self
          · have hlow : c + recordSize ≤ source := htail.fits.above _ hmem
            rw [recordSize] at hlow
            omega
      · intro b hb d hd b' hb'
        obtain ⟨c, hc, rfl⟩ := Record.serves_move hb
        have hsource' := hserves e List.mem_cons_self c hc
        rcases List.mem_append.mp hd with hd | hd
        · obtain ⟨d, hmem, rfl⟩ := List.mem_map.mp hd
          obtain ⟨c', hc', rfl⟩ := Record.serves_move hb'
          have hsource'' : source + recordSize ≤ d.pos := htail.above hmem List.mem_cons_self
          have hapart := hfits.apart c hc d (List.mem_append_left _ hmem) c' hc'
          dsimp only [Record.move]
          omega
        · rcases List.mem_cons.mp hd with rfl | hd
          · cases hb'
          · have hlow := hbelow d hd
            rw [recordSize] at hlow
            exact .inl (by omega)

/-- Registers that hold records alike, laid down elsewhere above a chain, hold
the chain of the moved records. -/
lemma Context.Chain.move {P : Program} (hint : P.fieldCount P.intClass = 0)
    (hempty : P.fieldCount .empty = 0) {rs rs' : Registers} {ctx source target : Nat}
    {seg rest es : List Record} (h : Chain P rs ctx (seg ++ ⟨source, none⟩ :: rest))
    (hn : Nested (seg ++ ⟨source, none⟩ :: rest))
    (hserves : ∀ e ∈ seg, ∀ b, e.serves = some b → source ≤ b) (htarget : 0 < target)
    (hcell : ∀ e ∈ seg, (rs.cell e.pos).Alike P (rs'.cell (e.pos - source + target)) ∧
      (rs.cell (e.pos + 1)).Alike P (rs'.cell (e.pos - source + target + 1)) ∧
      e.pos - source + target + 1 < rs'.size)
    (hes : Chain P rs' target es) :
    Chain P rs' (ctx - source + target) (seg.map (Record.move source target) ++ es) := by
  induction seg generalizing ctx with
  | nil =>
      obtain ⟨rfl, -⟩ := h.uncons
      rw [Nat.sub_self, Nat.zero_add]
      exact hes
  | cons e seg ih =>
      obtain ⟨rfl, hheld, p, hp, htail⟩ := Chain.uncons h
      have hpos : ∀ d ∈ e :: seg, source + recordSize ≤ d.pos := fun d hd =>
        hn.above hd List.mem_cons_self
      have hmoved := ih htail (by cases hn with | cons _ hn => exact hn)
        (fun d hd => hserves d (List.mem_cons_of_mem _ hd))
        (fun d hd => hcell d (List.mem_cons_of_mem _ hd))
      -- the next record, too, stands at or above the last one that is moved
      have hnext : source ≤ p := by
        cases seg with
        | nil =>
            rw [htail.uncons.1]
        | cons d seg =>
            have hd := hpos d (List.mem_cons_of_mem _ List.mem_cons_self)
            rw [(Chain.uncons htail).1]
            omega
      have hlt := parent_lt hp
      obtain ⟨hlink, hmark, hroom⟩ := hcell e List.mem_cons_self
      have hsource := hpos e List.mem_cons_self
      have hparent := parent_of_alike hint hp hlink (by omega) (by omega)
      rw [show e.pos - source + target - (e.pos - p) = p - source + target by omega] at hparent
      have hheld' : (e.move source target).Held rs' := by
        refine ⟨hroom, fun hnone => ?_, fun b hb => ?_⟩
        · rw [Record.move, ← hmark.1]
          exact hheld.plain (Option.map_eq_none_iff.mp hnone)
        · obtain ⟨c, hc, rfl⟩ := Record.serves_move hb
          obtain ⟨htag, hhandling⟩ := hheld.synthetic c hc
          have hspec := handling_spec hhandling
          have hsource' := hserves e List.mem_cons_self c hc
          rw [recordSize] at hspec
          have hserved := handling_of_alike hempty hhandling htag hmark hroom (by omega)
          rw [show e.pos - source + target - (e.pos - c) = c - source + target by omega]
            at hserved
          exact ⟨hmark.1 ▸ htag, hserved⟩
      exact .cons hparent hheld' hmoved

end EffectMachine
