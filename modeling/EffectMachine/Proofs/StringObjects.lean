/-
Strings on the heap.

A string is an object whose first field is an array of the bytes of its text.
Making one takes two allocations, and the array is held by nothing but the
pending fields of the second; either may collect.

* `Program.HoldsText`: what a program has to be like for its strings to last;
* `Image.Spells`: the elements of the array of a string, and that they are
  integers; `Image.asString_eq_ok_iff`: the text of a string depends on them only;
* `Image.Spells.moved`, `Image.Spells.setField`: collections and writes to other
  objects leave them as they are;
* `Image.Later`, `Image.Later.spells`: one further operation on an image in which
  the string stays held, and **every sequence of them**;
* `Image.allocString_round_trips`: **a string that has been made has its text**,
  then and as long as it is held.
-/
import EffectMachine.Proofs.MovedValues
import EffectMachine.Proofs.SoundMachines
import EffectMachine.Proofs.Utf8RoundTrip

namespace EffectMachine

/-- What a traversal succeeds on succeeds one by one. -/
lemma exists_of_mapM_eq_ok {ε α β : Type} {f : α → Except ε β} {xs : List α} {ys : List β}
    (h : xs.mapM f = .ok ys) : ∀ x ∈ xs, ∃ y, f x = .ok y := by
  induction xs generalizing ys with
  | nil =>
    intro x hx
    cases hx
  | cons x xs ih =>
    rw [List.mapM_cons] at h
    cases hx : f x with
    | error e =>
      rw [hx] at h
      cases h
    | ok y =>
      cases hxs : xs.mapM f with
      | error e =>
        rw [hx] at h
        simp only [bind, Except.bind, hxs] at h
        cases h
      | ok ys' =>
        intro z hz
        rcases List.mem_cons.mp hz with rfl | hz
        · exact ⟨y, hx⟩
        · exact ih hxs z hz

/-! ### Programs with strings -/

namespace Program

variable {P : Program}

/-- Unset fields and integers are inline, and neither integers nor strings are of
the class of the marker of collections. The identifiers of arrays of `2 ^ 31`
elements and more wrap around to classes of the table, so none of these has so
many fields. -/
structure HoldsText (P : Program) : Prop where
  unset : P.fieldCount .empty = 0
  int : P.fieldCount P.intClass = 0
  int_ne : P.intClass ≠ .forwarded
  string_ne : P.builtins.get? .string ≠ some .forwarded
  short : ∀ decl ∈ P.classes, decl.fieldCount.toNat < 2 ^ 31

/-- Linked programs are like this, if integers are inline and no class of the
table has too many fields. -/
lemma Linked.holdsText (hP : P.Linked) (hint : P.fieldCount P.intClass = 0)
    (hshort : ∀ decl ∈ P.classes, decl.fieldCount.toNat < 2 ^ 31) : P.HoldsText where
  unset := hP.empty
  int := hint
  int_ne := hP.int_ne
  string_ne h := (hP.builtins .string .forwarded h).ne_forwarded hP.classes rfl
  short := hshort

/-- Only arrays have so many fields. -/
lemma HoldsText.fieldCount_lt (hP : P.HoldsText) {c : ClassId} (hc : c.arrayLength? = none) :
    P.fieldCount c < 2 ^ 31 := by
  rw [fieldCount, hc]
  dsimp only
  split
  · decide
  · split
    · decide
    · rename_i decl hdecl
      exact hP.short decl (Array.mem_of_getElem? hdecl)

/-- An array that can be allocated has a class that gives its length. -/
lemma HoldsText.arrayLength? (hP : P.HoldsText) {n : Nat} (hn : n = P.fieldCount (.array n)) :
    (ClassId.array n).arrayLength? = some n := by
  cases hlength : (ClassId.array n).arrayLength? with
  | some length =>
    rw [fieldCount, hlength] at hn
    exact congrArg some hn.symm
  | none =>
    have hsmall : n < 2 ^ 31 := hn ▸ hP.fieldCount_lt hlength
    rcases Nat.eq_zero_or_pos n with rfl | hpos
    · exact absurd hlength (by decide)
    · rw [ClassId.arrayLength?_array hpos hsmall hn] at hlength
      cases hlength

/-- The byte that a value denotes, if it is an integer. -/
def byteOf (P : Program) (v : Value) : Except Fault UInt8 :=
  return (← P.intValue v).toUInt32.toUInt8

/-- The text that the elements of an array spell. -/
def textOf (P : Program) (elements : List Value) : Except Fault String := do
  let bytes ← elements.mapM P.byteOf
  match Utf8.decode bytes with
  | .ok text => .ok text
  | .error e => .error (.typeError (.notText e))

/-- The bytes of a text, as integers. -/
def byteValues (P : Program) (text : String) : List Value :=
  (Utf8.encode text).map fun b => P.nat b.toNat

/-- A byte is read back from its integer. -/
lemma byteOf_nat (P : Program) (b : UInt8) : P.byteOf (P.nat b.toNat) = .ok b := by
  have hword : (Int32.ofNat b.toNat).toUInt32 = b.toUInt32 := UInt32.ofNat_uInt8ToNat b
  rw [byteOf, intValue, nat, int, if_pos rfl]
  simp only [bind, Except.bind, pure, Except.pure, Value.signed, hword,
    UInt32.toUInt32_toInt32, UInt8.toUInt8_toUInt32]

lemma tag_of_byteOf {v : Value} {b : UInt8} (h : P.byteOf v = .ok b) : v.tag = P.intClass := by
  by_contra htag
  rw [byteOf, intValue, if_neg htag] at h
  cases h

lemma textOf_byteValues (P : Program) (text : String) :
    P.textOf (P.byteValues text) = .ok text := by
  have hbytes : ∀ bytes : List UInt8,
      (bytes.map fun b => P.nat b.toNat).mapM P.byteOf = .ok bytes := by
    intro bytes
    induction bytes with
    | nil => rfl
    | cons b bytes ih =>
      rw [List.map_cons, List.mapM_cons, byteOf_nat, ih]
      rfl
  rw [textOf, byteValues, hbytes]
  simp only [bind, Except.bind, Utf8.decode_encode]

/-- Elements that spell a text are integers. -/
lemma tag_of_textOf {elements : List Value} {text : String}
    (h : P.textOf elements = .ok text) : ∀ e ∈ elements, e.tag = P.intClass := by
  rw [textOf] at h
  cases hbytes : elements.mapM P.byteOf with
  | error _ =>
    rw [hbytes] at h
    cases h
  | ok bytes =>
    intro e he
    obtain ⟨b, hb⟩ := exists_of_mapM_eq_ok hbytes e he
    exact tag_of_byteOf hb

end Program

/-! ### What a string holds -/

namespace Heap

variable {L : Layout} {h h' : Heap} {vs : List Value} {place : Nat → Nat}

/-- Inline fields of an object are the same where it is kept. -/
lemma Keeps.fields_eq (hk : h.Keeps L h' vs place) (hroom : h.top ≤ h.front.size)
    (hroom' : h'.top ≤ h'.front.size) {v w : Value} (hmoved : v.MovedBy L place w)
    (hreach : 0 < L v.tag → h.front.Reaches L vs v.object) {ws : List Value}
    (hfields : h.fields v (L v.tag) = .ok ws) (hinline : ∀ u ∈ ws, L u.tag = 0) :
    h'.fields w (L v.tag) = .ok ws := by
  obtain ⟨-, hlen, hwords⟩ := (fields_eq_ok hroom).mp hfields
  rw [fields_eq_ok hroom']
  rcases Nat.eq_zero_or_pos (L v.tag) with hzero | hpos
  · exact ⟨.inl hzero, hlen, fun i hi => absurd hi (by omega)⟩
  have hoffset : w.offset = place v.offset := hmoved.offset hpos
  refine ⟨.inr (hoffset ▸ hk.within _ (hreach hpos)), hlen, fun i hi => ?_⟩
  have hword := hk.fields _ (hreach hpos) i hi
  have hsame := hword.inline (hinline _ (List.mem_of_getElem? (hwords i hi)))
  rw [hwords i hi, hoffset]
  exact congrArg some hsame.symm

end Heap

namespace Image

variable {P : Program} {ρ : Type} {R : Roots ρ} {p p' : Image} {holder holder' : ρ}
  {v v' w : Value} {elements : List Value} {text : String}

/-- The value is a string, and these are the elements of its array, which are
integers. -/
structure Spells (P : Program) (p : Image) (v : Value) (elements : List Value) : Prop where
  tag : P.builtins.get? .string = some v.tag
  array : ∃ a, p.field P v 0 = .ok a ∧ p.asArray a = .ok elements
  ints : ∀ e ∈ elements, e.tag = P.intClass

/-- The text of a string is what the elements of its array spell. -/
lemma asString_eq {a : Value} (htag : P.builtins.get? .string = some v.tag)
    (ha : p.field P v 0 = .ok a) (helements : p.asArray a = .ok elements) :
    p.asString P v = P.textOf elements := by
  rw [asString, if_pos htag, ha]
  simp only [bind, Except.bind, helements]
  rfl

lemma asString_eq_ok_iff :
    p.asString P v = .ok text ↔
      ∃ elements, p.Spells P v elements ∧ P.textOf elements = .ok text := by
  constructor
  · intro h
    by_cases htag : P.builtins.get? .string = some v.tag
    · cases ha : p.field P v 0 with
      | error e =>
        rw [asString, if_pos htag, ha] at h
        cases h
      | ok a =>
        cases helements : p.asArray a with
        | error e =>
          rw [asString, if_pos htag, ha] at h
          simp only [bind, Except.bind, helements] at h
          cases h
        | ok elements =>
          rw [asString_eq htag ha helements] at h
          exact ⟨elements, ⟨htag, ⟨a, ha, helements⟩, Program.tag_of_textOf h⟩, h⟩
    · rw [asString, if_neg htag] at h
      cases h
  · rintro ⟨elements, ⟨htag, ⟨a, ha, helements⟩, -⟩, htext⟩
    rw [asString_eq htag ha helements, htext]

lemma asArray_eq_ok :
    p.asArray v = .ok elements ↔
      v.tag.arrayLength? = some (P.fieldCount v.tag) ∧
        p.heap.fields v (P.fieldCount v.tag) = .ok elements := by
  rw [asArray]
  cases hlength : v.tag.arrayLength? with
  | some length =>
    have hcount : P.fieldCount v.tag = length := by rw [Program.fieldCount, hlength]
    rw [hcount]
    simp
  | none => simp

/-- An array of integers has the same elements where it is kept. -/
lemma asArray_moved {vs : List Value} {place : Nat → Nat}
    (hk : p.heap.Keeps P.fieldCount p'.heap vs place) (hroom : p.heap.top ≤ p.heap.front.size)
    (hroom' : p'.heap.top ≤ p'.heap.front.size) (hmoved : v.MovedBy P.fieldCount place w)
    (hreach : 0 < P.fieldCount v.tag → p.heap.front.Reaches P.fieldCount vs v.object)
    (helements : p.asArray v = .ok elements)
    (hinline : ∀ e ∈ elements, P.fieldCount e.tag = 0) : p'.asArray w = .ok elements := by
  rw [asArray_eq_ok (P := P)] at helements ⊢
  rw [hmoved.tag]
  exact ⟨helements.1, hk.fields_eq hroom hroom' hmoved hreach helements.2 hinline⟩

namespace Spells

lemma of_heap_eq (hs : p.Spells P v elements) (hheap : p'.heap = p.heap) :
    p'.Spells P v elements := by
  obtain ⟨a, ha, helements⟩ := hs.array
  refine ⟨hs.tag, ⟨a, ?_, ?_⟩, hs.ints⟩
  · rw [field_eq_ok] at ha ⊢
    rwa [hheap]
  · rw [asArray_eq_ok (P := P)] at helements ⊢
    rwa [hheap]

/-- **Where a string is kept it spells the same.** -/
lemma moved {vs : List Value} {place : Nat → Nat} (hs : p.Spells P v elements)
    (hint : P.fieldCount P.intClass = 0) (hk : p.heap.Keeps P.fieldCount p'.heap vs place)
    (hroom : p.heap.top ≤ p.heap.front.size) (hroom' : p'.heap.top ≤ p'.heap.front.size)
    (hv : v ∈ vs) (hmoved : v.MovedBy P.fieldCount place w) : p'.Spells P w elements := by
  obtain ⟨a, ha, helements⟩ := hs.array
  obtain ⟨hpos, -, rfl⟩ := field_eq_ok.mp ha
  -- The string is reached as a value held, and the array through its first field.
  have hreach : p.heap.front.Reaches P.fieldCount vs v.object := .root hv hpos
  have hfield := hk.fields _ hreach 0 hpos
  have hoffset : w.offset = place v.offset := hmoved.offset hpos
  have hend := hk.within _ hreach
  refine ⟨hmoved.tag ▸ hs.tag, ⟨p'.heap.front.cell (w.offset + 0), ?_, ?_⟩, hs.ints⟩
  · refine field_eq_ok.mpr ⟨by rwa [hmoved.tag], ?_, rfl⟩
    have hend' : place v.offset + P.fieldCount v.tag ≤ p'.heap.top := hend
    omega
  · rw [hoffset]
    refine asArray_moved hk hroom hroom' hfield (fun hpos' => .field hreach hpos hpos')
      helements fun e he => ?_
    rw [hs.ints e he]
    exact hint

/-- Writing to an object other than the string and its array leaves what it
spells. -/
lemma setField {u x : Value} {i : Nat} (hs : p.Spells P v elements) (hvalid : p.Valid P [u, v])
    (hu : u ≠ v) (harray : p.field P v 0 ≠ .ok u) :
    (Fault.left (Image.setField P u i x p)).Spells P v elements := by
  rcases left_setField P u i x p with hsame | ⟨hi, hwrite⟩
  · rwa [hsame]
  obtain ⟨a, ha, helements⟩ := hs.array
  have hua : u ≠ a := by
    rintro rfl
    exact harray ha
  -- No word of the string and none of the array is the word that is written.
  have hvalid' : p.Valid P ([u, v] ++ [a]) := hvalid.field ha
  have hcell : ∀ {w : Value} {j : Nat}, w ∈ [u, v] ++ [a] → u ≠ w → j < P.fieldCount w.tag →
      (p.heap.write (u.offset + i) x).front.cell (w.offset + j) =
        p.heap.front.cell (w.offset + j) := by
    intro w j hw hne hj
    rw [Heap.write, Cells.cell_setIfInBounds, if_neg]
    exact fun h => hvalid'.apart (by simp) hw hne hi hj h.1
  have hroom : p.heap.top ≤ p.heap.front.size := hvalid.room
  have hroom' : p.heap.top ≤ (p.heap.write (u.offset + i) x).front.size := by
    rw [Heap.write, Array.size_setIfInBounds]
    exact hroom
  rw [hwrite]
  refine ⟨hs.tag, ⟨a, ?_, ?_⟩, hs.ints⟩
  · obtain ⟨hpos, hend, hword⟩ := field_eq_ok.mp ha
    refine field_eq_ok.mpr ⟨hpos, hend, ?_⟩
    rw [hcell (by simp) hu hpos, ← hword]
  · rw [asArray_eq_ok (P := P)] at helements ⊢
    obtain ⟨hlength, hfields⟩ := helements
    obtain ⟨hend, hlen, hwords⟩ := (Heap.fields_eq_ok hroom).mp hfields
    refine ⟨hlength, (Heap.fields_eq_ok hroom').mpr ⟨hend, hlen, fun j hj => ?_⟩⟩
    rw [hcell (by simp) hua hj]
    exact hwords j hj

end Spells

/-! ### Later -/

/-- One operation on an image after which a value that is held has become
another, with any roots and any fields that are valid. Allocations and
collections, whether or not they succeed, leave in a global or a root what the
value has become there; writes to other objects than the value and what its
first field names leave it. -/
inductive Later (P : Program) : Image × Value → Image × Value → Prop
  | alloc {p p' : Image} {v v' : Value} {ρ : Type} (R : Roots ρ) (holder holder' : ρ)
      (cls : ClassId) (fields : List Value) (i : Nat)
      (hvalid : p.Valid P (R.get holder ++ fields))
      (hleft : Fault.left (Image.alloc P R cls fields (p, holder)) = (p', holder'))
      (hv : (p.globals.toList ++ R.get holder)[i]? = some v)
      (hv' : (p'.globals.toList ++ R.get holder')[i]? = some v') : Later P (p, v) (p', v')
  | collect {p p' : Image} {v v' : Value} {ρ : Type} (R : Roots ρ) (holder holder' : ρ) (i : Nat)
      (hvalid : p.Valid P (R.get holder))
      (hleft : Fault.left (Image.collect P R (p, holder)) = (p', holder'))
      (hv : (p.globals.toList ++ R.get holder)[i]? = some v)
      (hv' : (p'.globals.toList ++ R.get holder')[i]? = some v') : Later P (p, v) (p', v')
  | setField {p : Image} {v : Value} (u x : Value) (index : Nat) (hvalid : p.Valid P [u, v])
      (hu : u ≠ v) (harray : p.field P v 0 ≠ .ok u) :
      Later P (p, v) (Fault.left (Image.setField P u index x p), v)
  | setGlobal {p : Image} {v : Value} (index : UInt32) (x : Value) :
      Later P (p, v) (Fault.left (Image.setGlobal index x p), v)

/-- What is left of a string that is held spells what it did. -/
lemma Leaves.spells {pending : List Value} {place : Nat → Nat} {i : Nat}
    (hl : Leaves P R pending (p, holder) (p', holder') place)
    (hroom : p.heap.top ≤ p.heap.front.size) (hint : P.fieldCount P.intClass = 0)
    (hv : (p.globals.toList ++ R.get holder)[i]? = some v)
    (hv' : (p'.globals.toList ++ R.get holder')[i]? = some v') (hs : p.Spells P v elements) :
    p'.Spells P v' elements := by
  obtain ⟨hi, hget⟩ := List.getElem?_eq_some_iff.mp hv
  obtain ⟨hi', hget'⟩ := List.getElem?_eq_some_iff.mp hv'
  have hmoved : v.MovedBy P.fieldCount place v' := by
    rw [← hget, ← hget']
    exact (List.forall₂_iff_get.mp hl.moved).2 i hi hi'
  exact hs.moved hint hl.keeps hroom hl.valid.room
    (List.mem_append_left _ (List.mem_of_getElem? hv)) hmoved

/-- One operation later, a string that is held spells what it did. -/
lemma Later.spells {s s' : Image × Value} (hlater : Later P s s')
    (hint : P.fieldCount P.intClass = 0) (hs : s.1.Spells P s.2 elements) :
    s'.1.Spells P s'.2 elements := by
  cases hlater with
  | alloc R holder holder' cls fields i hvalid hleft hv hv' =>
    obtain ⟨place, hl, -⟩ := alloc_leaves hvalid cls
    rw [hleft] at hl
    exact hl.spells hvalid.room hint hv hv' hs
  | collect R holder holder' i hvalid hleft hv hv' =>
    obtain ⟨place, hl⟩ := collect_leaves hvalid
    rw [hleft] at hl
    exact hl.spells hvalid.room hint hv hv' hs
  | setField u x index hvalid hu harray => exact hs.setField hvalid hu harray
  | setGlobal index x =>
    refine hs.of_heap_eq ?_
    rw [Image.setGlobal]
    split <;> rfl

/-- Any number of operations later, a string that is held spells what it did. -/
lemma spells_of_run {s s' : Image × Value} (hrun : Relation.ReflTransGen (Later P) s s')
    (hint : P.fieldCount P.intClass = 0) (hs : s.1.Spells P s.2 elements) :
    s'.1.Spells P s'.2 elements := by
  induction hrun with
  | refl => exact hs
  | tail _ hlater ih => exact hlater.spells hint ih

/-! ### New strings -/

/-- Making a string fails at once, fails with the allocation of the array, or comes to
the allocation of the string. -/
lemma allocString_cases (P : Program) (R : Roots ρ) (text : String) (s : Rooted ρ) :
    (∃ e, allocString P R text s = .error e s) ∨
    (∃ e s₁, alloc P R (.array (P.byteValues text).length) (P.byteValues text) s = .error e s₁ ∧
      allocString P R text s = .error e s₁) ∨
    ∃ cls array s₁, P.builtins.get? .string = some cls ∧ 0 < P.fieldCount cls ∧
      alloc P R (.array (P.byteValues text).length) (P.byteValues text) s = .ok array s₁ ∧
      allocString P R text s =
        alloc P R cls (array :: List.replicate (P.fieldCount cls - 1) .nil) s₁ := by
  rw [allocString]
  cases hcls : P.builtins.get? .string with
  | none =>
    simp only [Program.builtin, hcls, Action.ofExcept, bind, EStateM.bind]
    exact .inl ⟨_, rfl⟩
  | some cls =>
    simp only [Program.builtin, hcls, Action.ofExcept, bind, EStateM.bind]
    by_cases hcount : P.fieldCount cls = 0
    · rw [if_pos hcount]
      exact .inl ⟨_, rfl⟩
    · rw [if_neg hcount]
      simp only [EStateM.bind]
      have hbytes : (Utf8.encode text).map (fun b => P.nat b.toNat) = P.byteValues text := rfl
      rw [hbytes]
      cases harray : allocArray P R (P.byteValues text) s with
      | error e s₁ => exact .inr (.inl ⟨e, s₁, harray, rfl⟩)
      | ok array s₁ =>
        exact .inr (.inr ⟨cls, array, s₁, rfl, Nat.pos_of_ne_zero hcount, harray, rfl⟩)

/-- A string is made by two allocations. -/
lemma allocString_eq_ok {s s' : Rooted ρ} (h : allocString P R text s = .ok v s') :
    ∃ cls array s₁, P.builtins.get? .string = some cls ∧ 0 < P.fieldCount cls ∧
      alloc P R (.array (P.byteValues text).length) (P.byteValues text) s = .ok array s₁ ∧
      alloc P R cls (array :: List.replicate (P.fieldCount cls - 1) .nil) s₁ = .ok v s' := by
  rcases allocString_cases P R text s with ⟨e, he⟩ | ⟨e, s₁, -, he⟩ |
    ⟨cls, array, s₁, hcls, hpos, harray, heq⟩
  · rw [he] at h
    cases h
  · rw [he] at h
    cases h
  · exact ⟨cls, array, s₁, hcls, hpos, harray, heq ▸ h⟩

lemma eq_of_movedBy_inline {L : Layout} {place : Nat → Nat} {us ws : List Value}
    (h : List.Forall₂ (Value.MovedBy L place) us ws) (hinline : ∀ u ∈ us, L u.tag = 0) :
    ws = us := by
  induction h with
  | nil => rfl
  | cons hd _ ih =>
    rw [hd.inline (hinline _ List.mem_cons_self),
      ih fun u hu => hinline u (List.mem_cons_of_mem _ hu)]

/-- An array that has been made has its elements, if they are inline. -/
lemma asArray_alloc (hP : P.HoldsText) (hvalid : p.Valid P (R.get holder))
    (hinline : ∀ e ∈ elements, e.tag ≠ .forwarded ∧ P.fieldCount e.tag = 0)
    (hrun : alloc P R (.array elements.length) elements (p, holder) = .ok v (p', holder')) :
    p'.asArray v = .ok elements ∧ p'.Valid P (R.get holder' ++ [v]) ∧
      ∃ place, Leaves P R elements (p, holder) (p', holder') place := by
  obtain ⟨place, hl, hstored⟩ := alloc_leaves (hvalid.append_inline hinline)
    (.array elements.length)
  obtain ⟨hlen, htag, hnew, fields', hmoved, hfields⟩ := hstored v _ hrun
  rw [hrun] at hl
  have hlength := hP.arrayLength? hlen
  have hcls : ClassId.array elements.length ≠ .forwarded := by
    intro heq
    have hnone : ClassId.forwarded.arrayLength? = none := by decide
    rw [heq, hnone] at hlength
    cases hlength
  refine ⟨?_, hnew hcls, place, hl⟩
  rw [asArray_eq_ok (P := P), htag, ← hlen]
  refine ⟨hlength, ?_⟩
  rw [hfields, eq_of_movedBy_inline hmoved fun e he => (hinline e he).2]

/-- A string that has been made spells its text, is valid beside the roots, and
what was reached before is kept. -/
lemma allocString_spells (hP : P.HoldsText) (hvalid : p.Valid P (R.get holder))
    (hrun : allocString P R text (p, holder) = .ok v (p', holder')) :
    p'.Spells P v (P.byteValues text) ∧ p'.Valid P (R.get holder' ++ [v]) ∧
      ∃ place, p.heap.Moved P.fieldCount p'.heap (p.globals.toList ++ R.get holder)
        (p'.globals.toList ++ R.get holder') place := by
  obtain ⟨cls, array, ⟨p₁, holder₁⟩, hcls, hpos, hrun₁, hrun₂⟩ := allocString_eq_ok hrun
  have htags : ∀ e ∈ P.byteValues text, e.tag = P.intClass := by
    intro e he
    obtain ⟨b, -, rfl⟩ := List.mem_map.mp he
    rfl
  have hinline : ∀ e ∈ P.byteValues text, P.fieldCount e.tag = 0 := fun e he => by
    rw [htags e he]
    exact hP.int
  -- First the array: its elements are inline, so they are what they were.
  obtain ⟨harray, hvalid₁, place₁, hl₁⟩ := asArray_alloc hP hvalid
    (fun e he => ⟨by rw [htags e he]; exact hP.int_ne, hinline e he⟩) hrun₁
  -- Then the string, the array being one of its pending fields.
  have hnil : ∀ u ∈ List.replicate (P.fieldCount cls - 1) Value.nil,
      u.tag ≠ .forwarded ∧ P.fieldCount u.tag = 0 := by
    intro u hu
    rw [List.eq_of_mem_replicate hu]
    exact ⟨by decide, hP.unset⟩
  have hvalid₂ := hvalid₁.append_inline hnil
  rw [List.append_assoc, List.singleton_append] at hvalid₂
  obtain ⟨place₂, hl₂, hstored⟩ := alloc_leaves hvalid₂ cls
  obtain ⟨hlen, htag, hnew, fields', hmoved, hfields⟩ := hstored v _ hrun₂
  rw [hrun₂] at hl₂
  have hvalid' : p'.Valid P (R.get holder' ++ [v]) :=
    hnew fun heq => hP.string_ne (heq ▸ hcls)
  cases hmoved with
  | @cons _ array' _ rest' hhead hrest =>
    refine ⟨⟨htag ▸ hcls, ⟨array', ?_, ?_⟩, htags⟩, hvalid', place₂ ∘ place₁, ?_⟩
    · obtain ⟨hend, -, hwords⟩ := (Heap.fields_eq_ok hvalid'.room).mp hfields
      have hfirst := hwords 0 (by simp)
      rw [List.getElem?_cons_zero, Option.some.injEq] at hfirst
      refine field_eq_ok.mpr ⟨by rwa [htag], ?_, hfirst⟩
      rw [hlen] at hend
      omega
    · refine asArray_moved hl₂.keeps hvalid₁.room hvalid'.room hhead (fun hpos' => ?_) harray
        hinline
      exact .root (List.mem_append_right _ List.mem_cons_self) hpos'
    · have hm₁ : p.heap.Moved P.fieldCount p₁.heap (p.globals.toList ++ R.get holder)
          (p₁.globals.toList ++ R.get holder₁) place₁ :=
        ⟨hl₁.keeps.mono (List.subset_append_left _ _), hl₁.moved⟩
      exact hm₁.trans ⟨hl₂.keeps.mono (List.subset_append_left _ _), hl₂.moved⟩

/-- **A string that has been made has its text, and keeps it.** Let the program
be one whose strings can last, and the heap, the globals and the roots be valid.
A text for which there is room becomes a string with that text, whether or not a
collection had to make the room, for the array or for the string. It is the text
of the string after any sequence of allocations, collections and writes in which
the string stays held and neither it nor its array is written. And what was
reached before is kept, the globals and the roots being moved with it, and valid
beside the string. -/
theorem allocString_round_trips (P : Program) (hP : P.HoldsText) (R : Roots ρ) (p : Image)
    (holder : ρ) (hvalid : p.Valid P (R.get holder)) (text : String) (v : Value) (p' : Image)
    (holder' : ρ) (hrun : allocString P R text (p, holder) = .ok v (p', holder')) :
    p'.asString P v = .ok text ∧
    (∀ q u, Relation.ReflTransGen (Later P) (p', v) (q, u) → q.asString P u = .ok text) ∧
    (∃ place, p.heap.Moved P.fieldCount p'.heap (p.globals.toList ++ R.get holder)
      (p'.globals.toList ++ R.get holder') place) ∧
    p'.Valid P (R.get holder' ++ [v]) := by
  obtain ⟨hspells, hvalid', hmoved⟩ := allocString_spells hP hvalid hrun
  have htext := P.textOf_byteValues text
  refine ⟨asString_eq_ok_iff.mpr ⟨_, hspells, htext⟩, fun q u hlater => ?_, hmoved, hvalid'⟩
  exact asString_eq_ok_iff.mpr ⟨_, spells_of_run hlater hP.int hspells, htext⟩

/-- A program with strings of two fields and boxes, in which objects of the class
of unset values have so many fields, and integers are of the given class. -/
def boxProgram (unset : UInt32) (int : ClassId) : Program where
  classes := #[⟨"Empty", .user, unset⟩, ⟨"Int", .int, 0⟩, ⟨"String", .string, 2⟩,
    ⟨"Box", .user, 1⟩]
  builtins := { int := int, string := ⟨2⟩ }

/-- A heap of seven words with an array of two integers, a box that holds it, and
another box. -/
def boxImage : Image where
  globals := #[]
  heap :=
    { front := #[⟨⟨1⟩, 1⟩, ⟨⟨1⟩, 2⟩, ⟨.array 2, 0⟩, ⟨⟨1⟩, 0⟩, .nil, .nil, .nil]
      back := Cells.fresh 7
      top := 4
      stats := {} }
  journal := {}

/-- The first box is valid, also if unset values have a field. -/
lemma valid_boxImage {unset : UInt32} (hunset : unset = 0 ∨ unset = 1) :
    boxImage.Valid (boxProgram unset ⟨1⟩) [⟨⟨3⟩, 2⟩] := by
  have hwords : ∀ i < 4, (boxImage.heap.front.cell i).tag ≠ .forwarded ∧
      (0 < (boxProgram unset ⟨1⟩).fieldCount (boxImage.heap.front.cell i).tag →
        (boxImage.heap.front.cell i).object ∈
          Layout.objects (boxProgram unset ⟨1⟩).fieldCount [.array 2, ⟨3⟩, ⟨3⟩]) := by
    rcases hunset with rfl | rfl <;> decide
  have hroot : (2, ⟨3⟩) ∈ Layout.objects (boxProgram unset ⟨1⟩).fieldCount
      [.array 2, ⟨3⟩, ⟨3⟩] := by
    rcases hunset with rfl | rfl <;> decide
  have hpos : ∀ c ∈ ([.array 2, ⟨3⟩, ⟨3⟩] : List ClassId),
      0 < (boxProgram unset ⟨1⟩).fieldCount c := by
    rcases hunset with rfl | rfl <;> decide
  refine ⟨_, ⟨hpos, rfl, by decide, by decide, by decide, fun i hi => ?_⟩, fun v hv => ?_⟩
  · exact ⟨(hwords i hi).1, (hwords i hi).2⟩
  · rw [List.mem_singleton.mp hv]
    exact ⟨by decide, fun _ => hroot⟩

/-- The room for the string is made by a collection, which moves the array of its
bytes; and a second collection moves both. -/
theorem allocString_round_trips_twice :
    ∃ v p' holder', allocString (boxProgram 0 ⟨1⟩) .list "xy" (boxImage, [⟨⟨3⟩, 2⟩]) =
        .ok v (p', holder') ∧ p'.heap.stats.collections = 1 ∧
      p'.asString (boxProgram 0 ⟨1⟩) v = .ok "xy" ∧
      ∃ q u, collect (boxProgram 0 ⟨1⟩) .list (p', [v]) = .ok () (q, [u]) ∧ u ≠ v ∧
        q.asString (boxProgram 0 ⟨1⟩) u = .ok "xy" := by
  have hP : (boxProgram 0 ⟨1⟩).HoldsText :=
    ⟨by decide, by decide, by decide, by decide, by decide⟩
  have hrun : allocString (boxProgram 0 ⟨1⟩) .list "xy" (boxImage, [⟨⟨3⟩, 2⟩]) =
      .ok ⟨⟨2⟩, 5⟩ (⟨#[], ⟨_, _, 7, _⟩, _⟩, [⟨⟨3⟩, 0⟩]) := rfl
  obtain ⟨htext, hlater, -, hvalid⟩ := allocString_round_trips (boxProgram 0 ⟨1⟩) hP .list boxImage
    [⟨⟨3⟩, 2⟩] (valid_boxImage (.inl rfl)) "xy" _ _ _ hrun
  -- The second collection is from the string alone, which moves to the first words.
  refine ⟨_, _, _, hrun, rfl, htext, ⟨#[], ⟨_, _, 4, _⟩, _⟩, ⟨⟨2⟩, 0⟩, rfl, by decide,
    hlater _ _ (.single ?_)⟩
  exact .collect .list [⟨⟨2⟩, 5⟩] [⟨⟨2⟩, 0⟩] 0 (hvalid.mono (List.subset_append_right _ _)) rfl rfl
    rfl

/-- Where unset values have a field, an unset field of a string is taken for an
object at the first word: the array in the box loses its second element when a
string is made. And where integers are of the class of the marker, the first byte
of a string is taken for it: the text is lost in the first collection. -/
theorem allocString_mistakes_values :
    ((boxProgram 1 ⟨1⟩).fieldCount (boxProgram 1 ⟨1⟩).intClass = 0 ∧
      0 < (boxProgram 1 ⟨1⟩).fieldCount ⟨2⟩ ∧
      boxImage.Valid (boxProgram 1 ⟨1⟩) [⟨⟨3⟩, 2⟩] ∧
      boxImage.field (boxProgram 1 ⟨1⟩) ⟨⟨3⟩, 2⟩ 0 = .ok ⟨.array 2, 0⟩ ∧
      boxImage.field (boxProgram 1 ⟨1⟩) ⟨.array 2, 0⟩ 1 = .ok ⟨⟨1⟩, 2⟩ ∧
      ∃ v p', allocString (boxProgram 1 ⟨1⟩) .list "xy" (boxImage, [⟨⟨3⟩, 2⟩]) =
          .ok v (p', [⟨⟨3⟩, 0⟩]) ∧
        p'.field (boxProgram 1 ⟨1⟩) ⟨⟨3⟩, 0⟩ 0 = .ok ⟨.array 2, 3⟩ ∧
        p'.field (boxProgram 1 ⟨1⟩) ⟨.array 2, 3⟩ 1 = .ok ⟨.array 2, 1⟩) ∧
    (boxProgram 0 .forwarded).fieldCount (boxProgram 0 .forwarded).intClass = 0 ∧
      ∃ v p' q u, allocString (boxProgram 0 .forwarded) .list "ab"
          (Image.fresh (boxProgram 0 .forwarded) ⟨16, 16⟩ {}, []) = .ok v (p', []) ∧
        p'.asString (boxProgram 0 .forwarded) v = .ok "ab" ∧
        collect (boxProgram 0 .forwarded) .list (p', [v]) = .ok () (q, [u]) ∧
        q.asString (boxProgram 0 .forwarded) u = .error (.invalidReference (.array 2) 97) :=
  ⟨⟨by decide, by decide, valid_boxImage (.inr rfl), rfl, rfl,
      ⟨⟨2⟩, 4⟩, ⟨#[], ⟨_, _, 6, _⟩, _⟩, rfl, rfl, rfl⟩,
    by decide, ⟨⟨2⟩, 2⟩, ⟨#[], ⟨_, _, 4, _⟩, _⟩, ⟨#[], ⟨_, _, 2, _⟩, _⟩, ⟨⟨2⟩, 0⟩, rfl, rfl, rfl,
    rfl⟩

end Image

end EffectMachine
