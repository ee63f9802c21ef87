/-
Collection of arbitrary memory.

Nothing is assumed here of what the words of a heap hold: references may lead
outside it, overlap or be made up, and words may look like the markers that a
collection leaves. What a collection does then is compared with a collection
that trusts nothing (`Heap.collectChecked`). Each word that it reads or writes
is first looked for in the space it belongs to, and it has no result if the word
is not there. It is told sizes as machine words and adds them as such, so sums
wrap around. Its loop goes round for as long as there are copied words: it is
not told how often, and ends only because it finds them within the space.

* **One value.** `Collection.forward_checked`: the two tests that `forward`
  makes, of the offset against the words in use and of the size against the
  free ones, are all that its accesses need, if the sums do not wrap.
* **The loop.** `Collection.scanFrom_checked`: the cursor stays below what has
  been copied, and that within the space, so the loop ends by itself after at
  most as many rounds as the space has words.
* **The shape of a heap.** `Heap.Shaped` is all that is asked: the spaces have
  one size, and the words in use are words of the space. Every operation keeps
  it, also when it fails, so every heap that the operations build has it
  (`Heap.Reached.shaped`).
* **Sizes.** `Sizes.Fit` holds of the sizes that programs declare
  (`Program.sizes_fit`); wherever it fails there is a value for which the checked
  collection has no result (`Heap.collectChecked_eq_none`).
* `Heap.collection_safe_on_any_memory`: **the collection is the checked one**,
  and it changes neither the capacity nor, when it fails, what is in use.
-/
import EffectMachine.Program
import EffectMachine.Proofs.CollectionCopy
import EffectMachine.Proofs.Relocation

namespace EffectMachine

/-- The faults that a collection can have. -/
def Fault.OfCollection (e : Fault) : Prop :=
  (∃ cls offset, e = .invalidReference cls offset) ∨
    ∃ requested available, e = .outOfMemory requested available

/-- What a computation leaves: a state with the property, and if it fails, one
of the faults that a collection can have. -/
def Fault.Ends {σ α : Type} (Q : σ → Prop) : EStateM.Result Fault σ α → Prop
  | .ok _ s => Q s
  | .error e s => e.OfCollection ∧ Q s

/-- The state that a computation leaves, whether or not it fails. -/
def Fault.left {σ α : Type} : EStateM.Result Fault σ α → σ
  | .ok _ s => s
  | .error _ s => s

lemma Fault.Ends.left {σ α : Type} {Q : σ → Prop} {r : EStateM.Result Fault σ α}
    (h : Fault.Ends Q r) : Q (Fault.left r) := by
  cases r with
  | ok _ s => exact h
  | error e s => exact h.2

/-! ### Machine words -/

/-- The numbers of fields of classes, as machine words of 64 bits. -/
abbrev Sizes := ClassId → UInt64

/-- The sum of two machine words, which wraps around. -/
def addWords (a b : Nat) : Nat := (a + b) % 2 ^ 64

lemma addWords_of_lt {a b : Nat} (h : a + b < 2 ^ 64) : addWords a b = a + b := Nat.mod_eq_of_lt h

namespace Sizes

/-- The same numbers, without a limit. -/
def layout (W : Sizes) : Layout := fun c => (W c).toNat

/-- The sum of a size and an offset, which has 32 bits, is never too large for a word. -/
def Fit (W : Sizes) : Prop := ∀ c, (W c).toNat + 2 ^ 32 ≤ 2 ^ 64

end Sizes

namespace Program

lemma fieldCount_lt (P : Program) (c : ClassId) : P.fieldCount c < 2 ^ 32 := by
  rw [fieldCount]
  cases hlength : c.arrayLength? with
  | some length =>
      rw [ClassId.arrayLength?] at hlength
      split at hlength
      · cases hlength
        have hle := c.code.le_toInt
        dsimp only
        omega
      · cases hlength
  | none =>
      dsimp only
      split
      · decide
      · split
        · decide
        · exact UInt32.toNat_lt _

/-- The sizes that the classes of a program have. -/
def sizes (P : Program) : Sizes := fun c => UInt64.ofNat (P.fieldCount c)

lemma layout_sizes (P : Program) : P.sizes.layout = P.fieldCount := by
  funext c
  have hlt := P.fieldCount_lt c
  rw [Sizes.layout, sizes, UInt64.toNat_ofNat']
  omega

lemma sizes_fit (P : Program) : P.sizes.Fit := by
  intro c
  have hlt := P.fieldCount_lt c
  have heq : (P.sizes c).toNat = P.fieldCount c := congrFun P.layout_sizes c
  omega

end Program

/-! ### Checked access -/

namespace Cells

/-- The content of a cell, if it is one of the first `limit`. -/
def fetch? (s : Cells) (limit index : Nat) : Option Value :=
  if index < limit then s[index]? else none

/-- The cells with one of the first `limit` replaced. -/
def store? (s : Cells) (limit index : Nat) (v : Value) : Option Cells :=
  if index < limit ∧ index < s.size then some (s.setIfInBounds index v) else none

/-- The cells with the `count` ones from `start` on replaced by those from
`offset` on among the first `limit` of `source`. -/
def copy? (s : Cells) (start : Nat) (source : Cells) (limit offset : Nat) : Nat → Option Cells
  | 0 => some s
  | count + 1 => do
    let v ← source.fetch? limit offset
    let s ← s.store? s.size start v
    copy? s (start + 1) source limit (offset + 1) count

/-- The number of cells from `start` up to `stop`, if these are among the first `limit`. -/
def span? (limit start stop : Nat) : Option Nat :=
  if start ≤ stop ∧ stop ≤ limit then some (stop - start) else none

variable {s source : Cells} {limit start offset index : Nat}

lemma span?_eq {count : Nat} (h : start + count ≤ limit) :
    span? limit start (start + count) = some count := by
  rw [span?, if_pos ⟨by omega, h⟩, Nat.add_sub_cancel_left]

lemma fetch?_eq (hlimit : limit ≤ s.size) (h : index < limit) :
    s.fetch? limit index = some (s.cell index) := by
  have hin : index < s.size := by omega
  rw [fetch?, if_pos h, cell_eq_getD, Array.getElem?_eq_getElem hin, Option.getD_some]

lemma store?_eq (hlimit : limit ≤ s.size) (h : index < limit) (v : Value) :
    s.store? limit index v = some (s.setIfInBounds index v) :=
  if_pos ⟨h, by omega⟩

lemma copy?_eq {count : Nat} (hlimit : limit ≤ source.size) (hoffset : offset + count ≤ limit)
    (hstart : start + count ≤ s.size) :
    s.copy? start source limit offset count = some (s.copyFrom start source offset count) := by
  induction count generalizing s start offset with
  | zero => rfl
  | succ count ih =>
    rw [copy?, fetch?_eq hlimit (by omega), Option.bind_eq_bind, Option.bind_some,
      store?_eq (Nat.le_refl _) (by omega), Option.bind_eq_bind, Option.bind_some,
      ih (by omega) (by rw [Array.size_setIfInBounds]; omega), copyFrom]

lemma size_of_store? {s' : Cells} {v : Value} (h : s.store? limit index v = some s') :
    s'.size = s.size := by
  rw [store?] at h
  split at h
  · cases h
    exact Array.size_setIfInBounds
  · cases h

lemma size_of_copy? {s' : Cells} {count : Nat}
    (h : s.copy? start source limit offset count = some s') : s'.size = s.size := by
  induction count generalizing s start offset with
  | zero =>
    cases h
    rfl
  | succ count ih =>
    obtain ⟨v, -, h⟩ := Option.bind_eq_some_iff.mp h
    obtain ⟨s₁, hstore, h⟩ := Option.bind_eq_some_iff.mp h
    rw [ih h, size_of_store? hstore]

end Cells

/-! ### Checked collection -/

namespace Collection

variable {L : Layout} {W : Sizes} {c : Collection} {n : Nat}

/-- The new place of a value, every access being checked and sums wrapping around. -/
def forwardChecked (W : Sizes) (v : Value) (c : Collection) :
    Option (EStateM.Result Fault Collection Value) :=
  let size := (W v.tag).toNat
  let sourceEnd := addWords v.offset size
  let targetEnd := addWords c.top size
  if size = 0 then some (.ok v c)
  else if c.limit < sourceEnd then some (.error (.invalidReference v.tag v.data) c)
  else do
    let head ← c.source.fetch? c.limit v.offset
    if head.tag = .forwarded then some (.ok ⟨v.tag, head.data⟩ c)
    else if c.target.size < targetEnd then
      -- The room that is reported is a difference of natural numbers.
      if c.top ≤ c.target.size then
        some (.error (.outOfMemory size (c.target.size - c.top)) c)
      else none
    else do
      let room ← Cells.span? c.target.size c.top targetEnd
      let count ← Cells.span? c.limit v.offset sourceEnd
      if room = count then do
        let target ← c.target.copy? c.top c.source c.limit v.offset count
        let source ← c.source.store? c.limit v.offset ⟨.forwarded, UInt32.ofNat c.top⟩
        some (.ok ⟨v.tag, UInt32.ofNat c.top⟩ ⟨source, c.limit, target, targetEnd⟩)
      else none

/-- The new places of a list of values, every access being checked. -/
def forwardAllChecked (W : Sizes) (moved : List Value) :
    List Value → Collection → Option (EStateM.Result Fault (Collection × List Value) Unit)
  | [], c => some (.ok () (c, moved.reverse))
  | v :: vs, c =>
    (forwardChecked W v c).bind fun
      | .ok v' c => forwardAllChecked W (v' :: moved) vs c
      | .error e c => some (.error e (c, moved.reverseAux (v :: vs)))

/-- Forwards the copied word at `cursor`, every access being checked. -/
def roundChecked (W : Sizes) (cursor : Nat) (c : Collection) :
    Option (EStateM.Result Fault Collection Unit) :=
  (c.target.fetch? c.target.size cursor).bind fun v =>
    (forwardChecked W v c).bind fun
      | .ok v' c =>
        (c.target.store? c.target.size cursor v').bind fun target =>
          some (.ok () { c with target := target })
      | .error e c => some (.error e c)

lemma target_size_of_forwardChecked {v v' : Value} {c' : Collection}
    (h : forwardChecked W v c = some (.ok v' c')) : c'.target.size = c.target.size := by
  rw [forwardChecked] at h
  split at h
  · cases h
    rfl
  split at h
  · cases h
  obtain ⟨head, -, h⟩ := Option.bind_eq_some_iff.mp h
  split at h
  · cases h
    rfl
  split at h
  · split at h <;> cases h
  · obtain ⟨room, -, h⟩ := Option.bind_eq_some_iff.mp h
    obtain ⟨count, -, h⟩ := Option.bind_eq_some_iff.mp h
    split at h
    · obtain ⟨target, hcopy, h⟩ := Option.bind_eq_some_iff.mp h
      obtain ⟨source, -, h⟩ := Option.bind_eq_some_iff.mp h
      cases h
      exact Cells.size_of_copy? hcopy
    · cases h

/-- A round finds its word in the target, and leaves the target its size. -/
lemma lt_of_roundChecked {cursor : Nat} {c' : Collection}
    (h : roundChecked W cursor c = some (.ok () c')) :
    cursor < c.target.size ∧ c'.target.size = c.target.size := by
  obtain ⟨v, hv, h⟩ := Option.bind_eq_some_iff.mp h
  obtain ⟨r, hr, h⟩ := Option.bind_eq_some_iff.mp h
  have hlt : cursor < c.target.size := by
    by_contra hlt
    rw [Cells.fetch?, if_neg hlt] at hv
    cases hv
  cases r with
  | error e c₁ => cases h
  | ok v' c₁ =>
    obtain ⟨target, hstore, h⟩ := Option.bind_eq_some_iff.mp h
    cases h
    exact ⟨hlt, (Cells.size_of_store? hstore).trans (target_size_of_forwardChecked hr)⟩

/-- Forwards the copied words from `cursor` on for as long as there are any,
every access being checked. No bound is set to the number of rounds: that there
is one is seen from the words, which lie within the target. -/
def scanChecked (W : Sizes) (cursor : Nat) (c : Collection) :
    Option (EStateM.Result Fault Collection Unit) :=
  if cursor < c.top then
    match hround : roundChecked W cursor c with
    | some (.ok () c') => scanChecked W (cursor + 1) c'
    | some (.error e c') => some (.error e c')
    | none => none
  else some (.ok () c)
termination_by c.target.size - cursor
decreasing_by
  obtain ⟨hlt, hsize⟩ := lt_of_roundChecked hround
  omega

lemma scanChecked_of_ok {cursor : Nat} {c' : Collection} (hcursor : cursor < c.top)
    (h : roundChecked W cursor c = some (.ok () c')) :
    scanChecked W cursor c = scanChecked W (cursor + 1) c' := by
  rw [scanChecked, if_pos hcursor]
  split <;> simp_all

lemma scanChecked_of_error {cursor : Nat} {e : Fault} {c' : Collection} (hcursor : cursor < c.top)
    (h : roundChecked W cursor c = some (.error e c')) :
    scanChecked W cursor c = some (.error e c') := by
  rw [scanChecked, if_pos hcursor]
  split <;> simp_all

/-- A collection between spaces of `n` words: what was in use and what has
been copied are within them. -/
structure Within (n : Nat) (c : Collection) : Prop where
  source_size : c.source.size = n
  target_size : c.target.size = n
  limit_le : c.limit ≤ n
  top_le : c.top ≤ n

lemma Within.move (hc : c.Within n) {offset size : Nat} (hroom : c.top + size ≤ n) :
    (c.move offset size).Within n where
  source_size := by rw [source_move, Array.size_setIfInBounds, hc.source_size]
  target_size := by rw [target_move, Cells.size_copyFrom, hc.target_size]
  limit_le := hc.limit_le
  top_le := by rw [top_move]; exact hroom

lemma forward_within (hc : c.Within n) (v : Value) : Fault.Ends (Within n) (forward L v c) := by
  unfold forward
  by_cases hsize : L v.tag = 0
  · simp only [if_pos hsize]
    exact hc
  by_cases hout : c.limit < v.offset + L v.tag
  · simp only [if_neg hsize, if_pos hout]
    exact ⟨.inl ⟨_, _, rfl⟩, hc⟩
  by_cases hhead : (c.source.cell v.offset).tag = .forwarded
  · simp only [if_neg hsize, if_neg hout, if_pos hhead]
    exact hc
  by_cases hfull : c.target.size < c.top + L v.tag
  · simp only [if_neg hsize, if_neg hout, if_neg hhead, if_pos hfull]
    exact ⟨.inr ⟨_, _, rfl⟩, hc⟩
  simp only [if_neg hsize, if_neg hout, if_neg hhead, if_neg hfull]
  exact hc.move (by rw [← hc.target_size]; exact Nat.le_of_not_lt hfull)

/-- The tests of `forward` cover its accesses. -/
lemma forward_checked (hW : W.Fit) (hn : n < 2 ^ 63) (hc : c.Within n) (v : Value) :
    forwardChecked W v c = some (forward W.layout v c) := by
  have hlimit : c.limit ≤ c.source.size := by rw [hc.source_size]; exact hc.limit_le
  have htop : c.top ≤ c.target.size := by rw [hc.target_size]; exact hc.top_le
  have hlimit_le := hc.limit_le
  have htop_le := hc.top_le
  have hsource : addWords v.offset (W v.tag).toNat = v.offset + (W v.tag).toNat := by
    have hfit := hW v.tag
    have hoffset : v.offset < 2 ^ 32 := v.data.toNat_lt
    exact addWords_of_lt (by omega)
  unfold forwardChecked forward
  dsimp only [Sizes.layout]
  rw [hsource]
  by_cases hsize : (W v.tag).toNat = 0
  · simp only [if_pos hsize]
  by_cases hout : c.limit < v.offset + (W v.tag).toNat
  · simp only [if_neg hsize, if_pos hout]
  -- The object is no larger than the space, so its end in the target is no sum that wraps.
  have htarget : addWords c.top (W v.tag).toNat = c.top + (W v.tag).toNat :=
    addWords_of_lt (by omega)
  have hoffset : v.offset < c.limit := by omega
  simp only [if_neg hsize, if_neg hout, htarget, Cells.fetch?_eq hlimit hoffset,
    Option.bind_eq_bind, Option.bind_some]
  by_cases hhead : (c.source.cell v.offset).tag = .forwarded
  · simp only [if_pos hhead]
  by_cases hfull : c.target.size < c.top + (W v.tag).toNat
  · simp only [if_neg hhead, if_pos hfull, if_pos htop]
  simp only [if_neg hhead, if_neg hfull, Cells.span?_eq (Nat.le_of_not_lt hfull),
    Cells.span?_eq (Nat.le_of_not_lt hout), Option.bind_some, if_true,
    Cells.copy?_eq hlimit (Nat.le_of_not_lt hout) (Nat.le_of_not_lt hfull),
    Cells.store?_eq hlimit hoffset]
  rfl

lemma forwardFrom_within (hc : c.Within n) (vs moved : List Value) :
    Fault.Ends (fun s => s.1.Within n) (forwardFrom L moved vs c) := by
  induction vs generalizing moved c with
  | nil => exact hc
  | cons v vs ih =>
    have hends := forward_within (L := L) hc v
    rw [forwardFrom]
    cases hv : forward L v c with
    | ok v' c' =>
      rw [hv] at hends
      exact ih hends (v' :: moved)
    | error e c' =>
      rw [hv] at hends
      exact hends

lemma forwardFrom_checked (hW : W.Fit) (hn : n < 2 ^ 63) (hc : c.Within n)
    (vs moved : List Value) :
    forwardAllChecked W moved vs c = some (forwardFrom W.layout moved vs c) := by
  induction vs generalizing moved c with
  | nil => rfl
  | cons v vs ih =>
    have hends := forward_within (L := W.layout) hc v
    rw [forwardAllChecked, forwardFrom, forward_checked hW hn hc, Option.bind_some]
    cases hv : forward W.layout v c with
    | ok v' c' =>
      rw [hv] at hends
      exact ih hends (v' :: moved)
    | error e c' => rfl

/-- A round of the loop leaves the collection within the spaces. -/
lemma Within.set (hc : c.Within n) (cursor : Nat) (v : Value) :
    Within n { c with target := c.target.setIfInBounds cursor v } :=
  ⟨hc.source_size, by rw [Array.size_setIfInBounds]; exact hc.target_size, hc.limit_le, hc.top_le⟩

lemma scanFrom_within {fuel cursor : Nat} (hc : c.Within n) :
    Fault.Ends (Within n) (scanFrom L fuel cursor c) := by
  induction fuel generalizing cursor c with
  | zero => exact hc
  | succ fuel ih =>
    rw [scanFrom]
    by_cases hcursor : cursor < c.top
    · have hends := forward_within (L := L) hc (c.target.cell cursor)
      rw [if_pos hcursor]
      cases hv : forward L (c.target.cell cursor) c with
      | ok v' c' =>
        rw [hv] at hends
        exact ih (Within.set hends cursor v')
      | error e c' =>
        rw [hv] at hends
        exact hends
    · rw [if_neg hcursor]
      exact hc

/-- The loop ends within `fuel` rounds if the cursor is no further than that
from the end of the space: each round moves the cursor on by one, and it never
gets past what has been copied. -/
lemma scanFrom_checked {fuel cursor : Nat} (hW : W.Fit) (hn : n < 2 ^ 63) (hc : c.Within n)
    (hfuel : n ≤ cursor + fuel) :
    scanChecked W cursor c = some (scanFrom W.layout fuel cursor c) := by
  induction fuel generalizing cursor c with
  | zero =>
    have hend : ¬ cursor < c.top := by have := hc.top_le; omega
    rw [scanChecked, if_neg hend, scanFrom]
  | succ fuel ih =>
    by_cases hcursor : cursor < c.top
    · have hin : cursor < c.target.size := by
        rw [hc.target_size]
        exact Nat.lt_of_lt_of_le hcursor hc.top_le
      have hword := Cells.fetch?_eq (Nat.le_refl _) hin
      have hchecked := forward_checked hW hn hc (c.target.cell cursor)
      have hends := forward_within (L := W.layout) hc (c.target.cell cursor)
      rw [scanFrom, if_pos hcursor]
      cases hv : forward W.layout (c.target.cell cursor) c with
      | ok v' c' =>
        rw [hv] at hchecked hends
        have hstore : c'.target.store? c'.target.size cursor v' =
            some (c'.target.setIfInBounds cursor v') := by
          refine Cells.store?_eq (Nat.le_refl _) ?_ v'
          rwa [hends.target_size, ← hc.target_size]
        have hround : roundChecked W cursor c =
            some (.ok () { c' with target := c'.target.setIfInBounds cursor v' }) := by
          simp only [roundChecked, hword, hchecked, hstore, Option.bind_some]
        rw [scanChecked_of_ok hcursor hround]
        exact ih (Within.set hends cursor v') (by omega)
      | error e c' =>
        rw [hv] at hchecked
        have hround : roundChecked W cursor c = some (.error e c') := by
          simp only [roundChecked, hword, hchecked, Option.bind_some]
        exact scanChecked_of_error hcursor hround
    · rw [scanChecked, scanFrom, if_neg hcursor, if_neg hcursor]

end Collection

/-! ### The heap -/

namespace Heap

variable {ρ : Type} {h : Heap}

/-- The spaces of a heap have one size, and what is in use is within it. -/
structure Shaped (h : Heap) : Prop where
  top_le : h.top ≤ h.capacity
  back_size : h.back.size = h.capacity

instance (h : Heap) : Decidable h.Shaped :=
  decidable_of_iff (h.top ≤ h.capacity ∧ h.back.size = h.capacity)
    ⟨fun p => ⟨p.1, p.2⟩, fun p => ⟨p.1, p.2⟩⟩

lemma shaped_of_within {c : Collection} {n k : Nat} (hc : c.Within n) (hk : k ≤ n) (stats : Stats) :
    Shaped ⟨c.target, c.source, k, stats⟩ ∧ c.target.size = n :=
  ⟨⟨hk.trans_eq hc.target_size.symm, hc.source_size.trans hc.target_size.symm⟩, hc.target_size⟩

lemma Shaped.within_start {front back : Cells} {top : Nat} {stats : Stats}
    (hs : Shaped ⟨front, back, top, stats⟩) :
    Collection.Within front.size ⟨front, top, back, 0⟩ :=
  ⟨rfl, hs.back_size, hs.top_le, Nat.zero_le _⟩

/-- Copies what the roots and the pending values reach, every access being
checked and the loop going round for as long as there are words. -/
def collectChecked (W : Sizes) (R : Roots ρ) (pending : List Value) :
    Rooted ρ → Option (EStateM.Result Fault (Rooted ρ) (List Value))
  | (⟨front, back, top, stats⟩, holder) =>
    -- The words in use are taken as a part of the space.
    if top ≤ front.size then
      (Collection.forwardAllChecked W [] (R.get holder) ⟨front, top, back, 0⟩).bind fun
        | .error e (c, roots) =>
          some (.error e (⟨c.target, c.source, top, stats⟩, R.set holder roots))
        | .ok _ (c, roots) =>
          (Collection.forwardAllChecked W [] pending c).bind fun
            | .error e (c, _) =>
              some (.error e (⟨c.target, c.source, top, stats⟩, R.set holder roots))
            | .ok _ (c, pending) =>
              (Collection.scanChecked W 0 c).bind fun
                | .error e c =>
                  some (.error e (⟨c.target, c.source, top, stats⟩, R.set holder roots))
                | .ok _ c =>
                  some (.ok pending
                    (⟨c.target, c.source, c.top, stats.recordCollection top c.top⟩,
                      R.set holder roots))
    else none

/-- Whatever the words hold, what is left has the shape and the capacity that the
heap had, and after a fault also the words in use and the statistics. -/
lemma collectWith_ends (hs : h.Shaped) (L : Layout) (R : Roots ρ) (holder : ρ)
    (pending : List Value) :
    Fault.Ends (fun s => s.1.Shaped ∧ s.1.capacity = h.capacity)
        (collectWith L R pending (h, holder)) ∧
      ∀ e s, collectWith L R pending (h, holder) = .error e s →
        s.1.top = h.top ∧ s.1.stats = h.stats := by
  obtain ⟨front, back, top, stats⟩ := h
  have htop : top ≤ front.size := hs.top_le
  have hstart := hs.within_start
  -- A fault may end each of the three stages, and leaves the same each time.
  have hfault {e : Fault} {c : Collection} {x : ρ}
      {r : EStateM.Result Fault (Rooted ρ) (List Value)}
      (hends : e.OfCollection ∧ c.Within front.size)
      (hr : r = .error e (⟨c.target, c.source, top, stats⟩, x)) :
      Fault.Ends (fun s => s.1.Shaped ∧ s.1.capacity = front.size) r ∧
        ∀ e' s', r = .error e' s' → s'.1.top = top ∧ s'.1.stats = stats := by
    subst hr
    refine ⟨⟨hends.1, shaped_of_within hends.2 htop stats⟩, ?_⟩
    rintro e' s' ⟨⟩
    exact ⟨rfl, rfl⟩
  have hends := Collection.forwardFrom_within (L := L) hstart (R.get holder) []
  simp only [collectWith, Collection.forwardAll]
  cases hr : Collection.forwardFrom L [] (R.get holder) ⟨front, top, back, 0⟩ with
  | error e s =>
    rw [hr] at hends
    exact hfault hends rfl
  | ok _ s =>
    obtain ⟨c, roots⟩ := s
    rw [hr] at hends
    have hends := Collection.forwardFrom_within (L := L) hends pending []
    dsimp only
    cases hp : Collection.forwardFrom L [] pending c with
    | error e s =>
      rw [hp] at hends
      exact hfault hends rfl
    | ok _ s =>
      obtain ⟨c', pending'⟩ := s
      rw [hp] at hends
      have hends : Fault.Ends (Collection.Within front.size)
          (Collection.scanFrom L c'.target.size 0 c') := Collection.scanFrom_within hends
      simp only [Collection.scan]
      cases hc : Collection.scanFrom L c'.target.size 0 c' with
      | error e s =>
        rw [hc] at hends
        exact hfault hends rfl
      | ok _ s =>
        rw [hc] at hends
        refine ⟨shaped_of_within hends hends.top_le _, ?_⟩
        rintro e' s' ⟨⟩

/-- Whatever the words hold, the checked collection has a result, and it is the
collection's own. -/
lemma collectWith_checked {W : Sizes} (hW : W.Fit) (hs : h.Shaped) (hn : h.capacity < 2 ^ 63)
    (R : Roots ρ) (holder : ρ) (pending : List Value) :
    collectChecked W R pending (h, holder) =
      some (collectWith W.layout R pending (h, holder)) := by
  obtain ⟨front, back, top, stats⟩ := h
  have htop : top ≤ front.size := hs.top_le
  have hstart := hs.within_start
  have hends := Collection.forwardFrom_within (L := W.layout) hstart (R.get holder) []
  simp only [collectChecked, if_pos htop, collectWith, Collection.forwardAll,
    Collection.forwardFrom_checked hW hn hstart, Option.bind_some]
  cases hr : Collection.forwardFrom W.layout [] (R.get holder) ⟨front, top, back, 0⟩ with
  | error e s => rfl
  | ok _ s =>
    obtain ⟨c, roots⟩ := s
    rw [hr] at hends
    have hends' := Collection.forwardFrom_within (L := W.layout) hends pending []
    simp only [Collection.forwardFrom_checked hW hn hends, Option.bind_some]
    cases hp : Collection.forwardFrom W.layout [] pending c with
    | error e s => rfl
    | ok _ s =>
      obtain ⟨c', pending'⟩ := s
      rw [hp] at hends'
      have hfuel : front.size ≤ 0 + c'.target.size := by rw [Nat.zero_add, hends'.target_size]
      simp only [Collection.scanFrom_checked hW hn hends' hfuel, Option.bind_some, Collection.scan]
      cases Collection.scanFrom W.layout c'.target.size 0 c' <;> rfl

/-- Where sizes do not fit, a value can be made up for which the checked collection has no
result: the sum of its offset and its size wraps around to no words at all. -/
lemma collectChecked_eq_none {W : Sizes} (hW : ¬W.Fit) (words : Nat) :
    ∃ v, collectChecked W .list [] (fresh words, [v]) = none := by
  obtain ⟨c, hc⟩ := not_forall.mp hW
  have hlt := (W c).toNat_lt
  have hoffset : (2 ^ 64 - (W c).toNat) % 2 ^ 32 = 2 ^ 64 - (W c).toNat := by omega
  refine ⟨⟨c, UInt32.ofNat (2 ^ 64 - (W c).toNat)⟩, ?_⟩
  have hsum : addWords (Value.offset ⟨c, UInt32.ofNat (2 ^ 64 - (W c).toNat)⟩) (W c).toNat = 0 := by
    rw [Value.offset, UInt32.toNat_ofNat', hoffset, addWords]
    omega
  have hpos : (W c).toNat ≠ 0 := by omega
  have hfetch : ∀ (s : Cells) (i : Nat), s.fetch? 0 i = none := fun s i =>
    if_neg (Nat.not_lt_zero i)
  simp only [collectChecked, fresh, Nat.zero_le, if_true, Roots.list,
    Collection.forwardAllChecked, Collection.forwardChecked, hpos, if_false, hsum,
    Nat.lt_irrefl, hfetch, Option.bind_eq_bind, Option.bind_none]

/-! ### Heaps that the operations build -/

lemma shaped_fresh (words : Nat) : (fresh words).Shaped :=
  ⟨Nat.zero_le _, rfl⟩

lemma Shaped.write (hs : h.Shaped) (index : Nat) (v : Value) : (h.write index v).Shaped := by
  have hsize : (h.write index v).capacity = h.capacity := Array.size_setIfInBounds
  exact ⟨hs.top_le.trans_eq hsize.symm, hs.back_size.trans hsize.symm⟩

lemma Shaped.bump (hs : h.Shaped) (cls : ClassId) {fields : List Value}
    (hroom : fields.length ≤ h.available) : (h.bump cls fields).2.Shaped := by
  have hsize : (h.bump cls fields).2.capacity = h.capacity := Cells.size_overwrite _ _ _
  have htop := hs.top_le
  refine ⟨?_, hs.back_size.trans hsize.symm⟩
  rw [hsize, top_bump]
  rw [available] at hroom
  omega

lemma Shaped.setField (hs : h.Shaped) (v : Value) (index : Nat) (w : Value) :
    (Fault.left (Heap.setField v index w h)).Shaped := by
  unfold Heap.setField
  cases h.slot v index with
  | ok i => exact hs.write i w
  | error e => exact hs

lemma Shaped.collectWith (hs : h.Shaped) (L : Layout) (R : Roots ρ) (holder : ρ)
    (pending : List Value) :
    (Fault.left (Heap.collectWith L R pending (h, holder))).1.Shaped :=
  (collectWith_ends hs L R holder pending).1.left.1

lemma Shaped.alloc (hs : h.Shaped) (L : Layout) (R : Roots ρ) (holder : ρ) (cls : ClassId)
    (fields : List Value) : (Fault.left (Heap.alloc L R cls fields (h, holder))).1.Shaped := by
  have hcollect := hs.collectWith L R holder fields
  rcases Nat.eq_zero_or_pos fields.length with hzero | hpos
  · rw [alloc_of_length_zero hzero]
    exact hs
  by_cases hroom : fields.length ≤ h.available
  · rw [alloc_of_room hpos hroom]
    exact hs.bump cls hroom
  cases hc : Heap.collectWith L R fields (h, holder) with
  | error e s =>
    rw [hc] at hcollect
    rw [alloc_of_collectWith_error hpos hroom hc]
    exact hcollect
  | ok fields' s =>
    obtain ⟨h', holder'⟩ := s
    rw [hc] at hcollect
    -- The fields after the collection are as many as before.
    have hlen : fields.length = fields'.length :=
      (collectWith_forwarded? hs.top_le hc).2.2.1.length_eq
    rw [alloc_of_collectWith hpos hroom hc]
    split
    · rename_i hfits
      exact Shaped.bump hcollect cls (hlen ▸ hfits)
    · exact hcollect

/-- A collection from the roots alone leaves what one without pending values
does. -/
lemma left_collect (L : Layout) (R : Roots ρ) (s : Rooted ρ) :
    Fault.left (Heap.collect L R s) = Fault.left (Heap.collectWith L R [] s) := by
  simp only [Heap.collect, bind, EStateM.bind]
  cases Heap.collectWith L R [] s with
  | ok _ s => rfl
  | error e s => rfl

/-- The heaps that allocations, writes and collections build from a fresh one,
each with any layout, roots and values, and whether or not it fails. -/
inductive Reached : Heap → Prop
  | fresh (words : Nat) : Reached (Heap.fresh words)
  | alloc {h : Heap} (hr : Reached h) {ρ : Type} (L : Layout) (R : Roots ρ) (holder : ρ)
      (cls : ClassId) (fields : List Value) :
      Reached (Fault.left (Heap.alloc L R cls fields (h, holder))).1
  | setField {h : Heap} (hr : Reached h) (v : Value) (index : Nat) (w : Value) :
      Reached (Fault.left (Heap.setField v index w h))
  | collect {h : Heap} (hr : Reached h) {ρ : Type} (L : Layout) (R : Roots ρ) (holder : ρ) :
      Reached (Fault.left (Heap.collect L R (h, holder))).1

/-- Every heap that the operations build has the shape that a collection needs. -/
theorem Reached.shaped (hr : h.Reached) : h.Shaped := by
  induction hr with
  | fresh words => exact shaped_fresh words
  | alloc _ L R holder cls fields ih => exact ih.alloc L R holder cls fields
  | setField _ v index w ih => exact ih.setField v index w
  | collect _ L R holder ih =>
    rw [left_collect]
    exact ih.collectWith L R holder []

/-! ### Any memory -/

/-- **A collection is safe whatever the words of the heap hold.** Of sizes that fit,
roots, pending values and a heap about which only the sizes of its spaces are
known, the collection does what the checked one does: no word outside the words
in use of the one space and the words of the other is read or written, no sum wraps
around, and the loop comes to its end by itself. The collection succeeds or has one
of two faults; the capacity stays, and a fault leaves the number of words in use and
the statistics. The sizes that a program declares fit; of others nothing like this
holds. -/
theorem collection_safe_on_any_memory (W : Sizes) (hW : W.Fit) (R : Roots ρ) (h : Heap)
    (hs : h.Shaped) (hn : h.capacity < 2 ^ 63) (holder : ρ) (pending : List Value) :
    collectChecked W R pending (h, holder) =
      some (Heap.collectWith W.layout R pending (h, holder)) ∧
    (∀ pending' h' holder',
      Heap.collectWith W.layout R pending (h, holder) = .ok pending' (h', holder') →
      h'.top ≤ h'.capacity ∧ h'.capacity = h.capacity ∧ h'.back.size = h.back.size) ∧
    (∀ e h' holder', Heap.collectWith W.layout R pending (h, holder) = .error e (h', holder') →
      ((∃ cls offset, e = .invalidReference cls offset) ∨
        ∃ requested available, e = .outOfMemory requested available) ∧
      h'.capacity = h.capacity ∧ h'.back.size = h.back.size ∧ h'.top = h.top ∧
        h'.stats = h.stats) ∧
    (∀ P : Program, P.sizes.Fit ∧ P.sizes.layout = P.fieldCount) ∧
    ∀ W' : Sizes, ¬W'.Fit → ∀ words, ∃ v,
      collectChecked W' .list [] (fresh words, [v]) = none := by
  obtain ⟨hends, hfault⟩ := collectWith_ends hs W.layout R holder pending
  refine ⟨collectWith_checked hW hs hn R holder pending, fun pending' h' holder' hok => ?_,
    fun e h' holder' herror => ?_, fun P => ⟨P.sizes_fit, P.layout_sizes⟩,
    fun W' hW' words => collectChecked_eq_none hW' words⟩
  · rw [hok] at hends
    obtain ⟨hshape, hcapacity⟩ := hends
    exact ⟨hshape.top_le, hcapacity, by rw [hshape.back_size, hs.back_size, hcapacity]⟩
  · have hleft := hfault e _ herror
    rw [herror] at hends
    obtain ⟨hkind, hshape, hcapacity⟩ := hends
    exact ⟨hkind, hcapacity, by rw [hshape.back_size, hs.back_size, hcapacity], hleft⟩

/-- Objects of two words, and everything else inline. -/
def pairSizes : Sizes := fun c => if c = ⟨1⟩ then 2 else 0

/-- Four words that are three overlapping pairs, the last with a marker that no
collection has left. -/
def overlappingPairs : Heap where
  front := #[⟨⟨1⟩, 1⟩, ⟨⟨1⟩, 2⟩, ⟨⟨1⟩, 0⟩, ⟨.forwarded, 9⟩, .nil, .nil]
  back := Cells.fresh 6
  top := 4
  stats := {}

/-- From the first pair all three are copied, and six words are then in use
where four were; from the last word there is no pair to copy. -/
theorem collection_safe_on_any_memory_overlapping :
    pairSizes.Fit ∧ overlappingPairs.Shaped ∧
    (∃ h' holder', collectChecked pairSizes .list [] (overlappingPairs, [⟨⟨1⟩, 0⟩]) =
        some (.ok [] (h', holder')) ∧ h'.top = 6 ∧ h'.top ≤ h'.capacity ∧
      h'.capacity = overlappingPairs.capacity) ∧
    ∃ h' holder', collectChecked pairSizes .list [⟨⟨1⟩, 3⟩] (overlappingPairs, [⟨⟨1⟩, 2⟩]) =
        some (.error (.invalidReference ⟨1⟩ 3) (h', holder')) ∧
      h'.capacity = overlappingPairs.capacity ∧ h'.top = 4 := by
  have hW : pairSizes.Fit := fun c => by
    unfold pairSizes
    split <;> decide
  have hs : overlappingPairs.Shaped := by decide
  obtain ⟨hchecked, hok, -⟩ :=
    collection_safe_on_any_memory pairSizes hW .list overlappingPairs hs (by decide) [⟨⟨1⟩, 0⟩] []
  obtain ⟨hchecked', -, herror, -⟩ :=
    collection_safe_on_any_memory pairSizes hW .list overlappingPairs hs (by decide) [⟨⟨1⟩, 2⟩]
      [⟨⟨1⟩, 3⟩]
  have hrun : Heap.collectWith pairSizes.layout .list [] (overlappingPairs, [⟨⟨1⟩, 0⟩]) =
      .ok [] (⟨_, _, 6, _⟩, [⟨⟨1⟩, 0⟩]) := rfl
  have hrun' : Heap.collectWith pairSizes.layout .list [⟨⟨1⟩, 3⟩]
      (overlappingPairs, [⟨⟨1⟩, 2⟩]) =
      .error (.invalidReference ⟨1⟩ 3) (⟨_, _, 4, _⟩, [⟨⟨1⟩, 0⟩]) := rfl
  obtain ⟨htop, hcapacity, -⟩ := hok _ _ _ hrun
  obtain ⟨-, hcapacity', -, -, -⟩ := herror _ _ _ hrun'
  exact ⟨hW, hs, ⟨_, _, hchecked.trans (congrArg some hrun), rfl, htop, hcapacity⟩,
    _, _, hchecked'.trans (congrArg some hrun'), hcapacity', rfl⟩

/-- Objects of one word, and a class with as many fields as a machine word can count. -/
def hugeSizes : Sizes := fun c =>
  if c = ⟨1⟩ then 1 else if c = ⟨2⟩ then UInt64.ofNat (2 ^ 64 - 1) else 0

/-- Two words in use of four, both inline. -/
def twoWords : Heap := ⟨Cells.fresh 4, Cells.fresh 4, 2, {}⟩

/-- After the first word has been copied, the huge object seems to end where the words
begin, in both spaces: both tests let it pass, and there are no words to copy. -/
theorem collection_stops_on_huge_class :
    twoWords.Shaped ∧ ¬hugeSizes.Fit ∧
      collectChecked hugeSizes .list [] (twoWords, [⟨⟨1⟩, 0⟩, ⟨⟨2⟩, 1⟩]) = none :=
  ⟨by decide, fun h => absurd (h ⟨2⟩) (by decide +kernel), by decide +kernel⟩

end Heap

end EffectMachine
