/-
What a linked program promises.

The identifier of a class is its position in the table, so a table that is not
too long has no entry for the marker that a collection leaves in objects it has
moved, and the classes that the machine itself makes values of are in the table.

* `Program.Knows`: classes of the table, and array classes;
* `Program.Linked`: the promise, and `link_linked`: **linking keeps it**;
* `Program.Plain`: what running relies on. Integers, booleans and the unset
  value are inline, and the machine makes no object of the marker's class.
-/
import EffectMachine.Link
import EffectMachine.Scalar
import Mathlib.Algebra.Order.Ring.Nat
import Mathlib.Tactic.Common

namespace EffectMachine

/-- A class has the position that its identifier has been made of. -/
lemma ClassId.index?_ofIndex {i : Nat} (hi : i < 2 ^ 31) : (ofIndex i).index? = some i := by
  have hint : (Int32.ofNat i).toInt = i := Int32.toInt_ofNat_of_lt hi
  have hle : (0 : Int32) ≤ Int32.ofNat i := by
    rw [Int32.le_iff_toInt_le, hint]
    exact Int.natCast_nonneg i
  rw [index?, ofIndex, if_pos hle, hint, Int.toNat_natCast]

namespace Program

/-- The class is one of the table, or an array class. -/
def Knows (P : Program) (c : ClassId) : Prop :=
  c.isArray = true ∨ c.index?.any (· < P.classes.size) = true

instance (P : Program) (c : ClassId) : Decidable (P.Knows c) := inferInstanceAs (Decidable (_ ∨ _))

/-- A class that is known is not the marker of a collection, unless the table is
so long that it has an entry for it. -/
lemma Knows.ne_forwarded {P : Program} (hclasses : P.classes.size < 2 ^ 31) {c : ClassId}
    (hc : P.Knows c) : c ≠ .forwarded := by
  rintro rfl
  rcases hc with hc | hc
  · exact absurd hc (by decide)
  · have hindex : ClassId.forwarded.index? = some (2 ^ 31 - 1) := by decide
    rw [hindex, Option.any_some, decide_eq_true_eq] at hc
    omega

/-- No object has the class that marks what a collection has moved. -/
lemma fieldCount_forwarded {P : Program} (hclasses : P.classes.size < 2 ^ 31) :
    P.fieldCount .forwarded = 0 := by
  have hnone : P.classes[2 ^ 31 - 1]? = none := Array.getElem?_eq_none (by omega)
  have hlength : ClassId.forwarded.arrayLength? = none := by decide
  have hindex : ClassId.forwarded.index? = some (2 ^ 31 - 1) := by decide
  rw [fieldCount, hlength]
  dsimp only
  rw [hindex]
  dsimp only
  rw [hnone]

lemma array_ne_forwarded {P : Program} (hforwarded : P.fieldCount .forwarded = 0) {n : Nat}
    (hn : n = P.fieldCount (.array n)) : ClassId.array n ≠ .forwarded := by
  intro heq
  rw [heq, hforwarded] at hn
  rw [hn] at heq
  exact absurd heq (by decide)

lemma knows_ofIndex {P : Program} (hclasses : P.classes.size < 2 ^ 31) {i : Nat}
    (hi : i < P.classes.size) : P.Knows (.ofIndex i) := by
  right
  rw [ClassId.index?_ofIndex (hi.trans hclasses), Option.any_some, decide_eq_true_eq]
  exact hi

/-- The promise of a linked program: its classes can be told from the marker of
a collection, unset values have no fields, and the builtin table names classes
that are known. -/
structure Linked (P : Program) : Prop where
  classes : P.classes.size < 2 ^ 31
  empty : P.fieldCount .empty = 0
  builtins : ∀ kind c, P.builtins.get? kind = some c → P.Knows c

end Program

/-! ### Linking -/

/-- An entry that has been set is there, and the others stay as they are. -/
lemma BuiltinTable.get?_set {t : BuiltinTable} {kind kind' : ClassKind} {c c' : ClassId}
    (h : (t.set kind c).get? kind' = some c') : c' = c ∨ t.get? kind' = some c' := by
  by_cases hkind : (t.set kind c).entry kind' = t.entry kind'
  · right
    rwa [get?, hkind, ← get?] at h
  · left
    have hentry : (t.set kind c).entry kind' = c := by
      cases kind <;> cases kind' <;> first | rfl | exact absurd rfl hkind
    rw [get?, hentry] at h
    split at h
    · cases h
    · exact (Option.some.inj h).symm

namespace Linker

/-- Every entry of the builtin table is a position of the class table. -/
lemma builtinTableFrom_position {decls : List ClassDecl} {index : Nat} {t t' : BuiltinTable}
    (h : builtinTableFrom index t decls = .ok t')
    (ht : ∀ kind c, t.get? kind = some c → ∃ i, i < index ∧ c = .ofIndex i) :
    ∀ kind c, t'.get? kind = some c → ∃ i, i < index + decls.length ∧ c = .ofIndex i := by
  induction decls generalizing index t with
  | nil =>
      cases h
      exact ht
  | cons decl rest ih =>
      have hlen : index + 1 + rest.length = index + (decl :: rest).length := by
        rw [List.length_cons]
        omega
      rw [← hlen]
      have hgrow : ∀ kind c, t.get? kind = some c → ∃ i, i < index + 1 ∧ c = .ofIndex i := by
        intro kind c hc
        obtain ⟨i, hi, rfl⟩ := ht kind c hc
        exact ⟨i, by omega, rfl⟩
      rw [builtinTableFrom] at h
      split at h
      · exact ih h hgrow
      · split at h
        · cases h
        · refine ih h fun kind c hc => ?_
          rcases BuiltinTable.get?_set hc with rfl | hc
          · exact ⟨index, by omega, rfl⟩
          · exact hgrow kind c hc

/-- A program has the classes that have been linked, with one for integers, and
its builtin table is that of its classes. -/
lemma classes_of_complete {entry : String} {l : Linker} {P : Program}
    (h : l.complete entry = .ok P) :
    P.classes = withIntClass l.classes ∧ builtinTable P.classes = .ok P.builtins := by
  rw [complete] at h
  split at h
  · cases h
  · split at h
    · cases h
    · dsimp only at h
      split at h
      · cases h
      · rename_i hbuiltins
        split at h
        · cases h
        · cases h
          exact ⟨rfl, hbuiltins⟩

@[simp] lemma classes_record (e : Entry) (l : Linker) : (l.record e).classes = l.classes := rfl

lemma classes_report (es : List Entry) (l : Linker) :
    (es.foldl (fun l e => l.record e) l).classes = l.classes := by
  induction es generalizing l with
  | nil => rfl
  | cons e es ih => rw [List.foldl_cons, ih, classes_record]

/-- The first class is the one of unset values, which has no fields. -/
def Reserves (l : Linker) : Prop := l.classes[0]? = some ⟨"Empty", .user, 0⟩

lemma classes_internMethods (names : List String) (l : Linker) :
    (internMethods names l).2.classes = l.classes := by
  induction names generalizing l with
  | nil => rfl
  | cons name names ih =>
      rw [internMethods]
      dsimp only
      rw [ih, internMethod]
      split <;> rfl

lemma classes_addImplementations {b : Bases} {p : Package} {is : List Implementation}
    {l l' : Linker} (h : addImplementations b p is l = .ok l') : l'.classes = l.classes := by
  induction is generalizing l with
  | nil =>
      cases h
      rfl
  | cons i is ih =>
      rw [addImplementations] at h
      split at h
      · cases h
      · rw [ih h]
        rfl

lemma classes_append {p : Package} {global : Nat} {l l' : Linker}
    (h : l.append p global = .ok l') : l'.classes = l.classes ++ p.classes := by
  rw [append] at h
  dsimp only at h
  split at h
  · cases h
  · split at h
    · cases h
    · rename_i himpl
      cases h
      dsimp only
      rw [classes_addImplementations himpl, classes_internMethods]

/-- Linking a package adds classes behind the others. -/
lemma Reserves.linkPackage {name : String} {p : Package} {l l' : Linker} (h : l.Reserves)
    (hl : l.linkPackage name p = .ok l') : l'.Reserves := by
  rw [Linker.linkPackage] at hl
  dsimp only at hl
  split at hl
  · cases hl
  · rename_i happend
    cases hl
    obtain ⟨hpos, -⟩ := Array.getElem?_eq_some_iff.mp h
    rw [Reserves, classes_record, classes_append happend]
    dsimp only [addImplementation]
    rw [Array.getElem?_append_left (by rw [Array.size_push]; omega), Array.getElem?_push,
      if_neg (by omega)]
    exact h

lemma get_bind {α : Type} (f : Linker → LinkM α) (l : Linker) : (get >>= f) l = f l l := rfl

lemma set_bind {α : Type} (f : PUnit → LinkM α) (l l' : Linker) :
    (set l' >>= f) l = f () l' := rfl

lemma exists_of_bind {α β : Type} {x : LinkM α} {f : α → LinkM β} {l l' : Linker} {b : β}
    (h : (x >>= f) l = .ok b l') : ∃ a l₁, x l = .ok a l₁ ∧ f a l₁ = .ok b l' := by
  simp only [bind, EStateM.bind] at h
  split at h
  · rename_i a l₁ hx
    exact ⟨a, l₁, hx, h⟩
  · cases h

lemma Reserves.forM {f : String → LinkM Unit}
    (hf : ∀ {name l l'}, Reserves l → f name l = .ok () l' → Reserves l') {names : List String}
    {l l' : Linker} (h : l.Reserves) (hl : names.forM f l = .ok () l') : l'.Reserves := by
  induction names generalizing l with
  | nil =>
      cases hl
      exact h
  | cons name names ih =>
      obtain ⟨_, _, hname, hl⟩ := exists_of_bind hl
      exact ih (hf h hname) hl

/-- Linking everything that a package imports adds classes behind the others. -/
lemma Reserves.importPackage {source : Source} {depth : Nat} {name : String} {l l' : Linker}
    (h : l.Reserves) (hl : Linker.importPackage source depth name l = .ok () l') : l'.Reserves := by
  induction depth generalizing name l l' with
  | zero =>
      rw [Linker.importPackage] at hl
      simp only [get_bind] at hl
      split at hl
      · cases hl
        exact h
      · split at hl <;> cases hl
  | succ depth ih =>
      rw [Linker.importPackage] at hl
      simp only [get_bind] at hl
      split at hl
      · cases hl
        exact h
      · split at hl
        · cases hl
        · rw [set_bind] at hl
          cases hload : source.load name with
          | error e =>
              rw [hload] at hl
              cases hl
          | ok p =>
              rw [hload] at hl
              have hentered : Reserves ((source.reports name).foldl (fun l e => l.record e)
                  (l.enter name)) := by
                rw [Reserves, classes_report]
                exact h
              obtain ⟨_, imported, himports, hl⟩ := exists_of_bind hl
              have himported := hentered.forM (fun h hl => ih h hl) himports
              rw [get_bind] at hl
              cases hlinked : imported.linkPackage name p with
              | error e =>
                  rw [hlinked] at hl
                  cases hl
              | ok linked =>
                  rw [hlinked] at hl
                  cases hl
                  exact himported.linkPackage hlinked

/-- A program whose first class is that of unset values has them inline. -/
lemma Reserves.fieldCount_empty {entry : String} {l : Linker} {P : Program} (h : l.Reserves)
    (hP : l.complete entry = .ok P) : P.fieldCount .empty = 0 := by
  obtain ⟨hpos, -⟩ := Array.getElem?_eq_some_iff.mp h
  have hfirst : P.classes[0]? = some ⟨"Empty", .user, 0⟩ := by
    rw [(classes_of_complete hP).1, withIntClass]
    split
    · exact h
    · rw [Array.getElem?_push, if_neg (by omega)]
      exact h
  have hlength : ClassId.empty.arrayLength? = none := by decide
  have hindex : ClassId.empty.index? = some 0 := by decide
  rw [Program.fieldCount, hlength]
  dsimp only
  rw [hindex]
  dsimp only
  rw [hfirst]
  rfl

end Linker

/-- **Linking keeps the promise**, for as many classes as identifiers can
tell apart. -/
theorem link_linked {source : Source} {entry : String} {journal journal' : Journal} {P : Program}
    (h : link source entry journal = .ok P journal') (hclasses : P.classes.size < 2 ^ 31) :
    P.Linked := by
  have hcomplete : ∃ l : Linker, l.Reserves ∧ l.complete entry = .ok P := by
    rw [link] at h
    split at h
    · cases h
    · rename_i l himport
      split at h
      · cases h
      · rename_i hP
        cases h
        exact ⟨l, Linker.Reserves.importPackage (by rfl) himport, hP⟩
  obtain ⟨l, hreserves, hl⟩ := hcomplete
  refine ⟨hclasses, hreserves.fieldCount_empty hl, fun kind c hc => ?_⟩
  have htable := (Linker.classes_of_complete hl).2
  rw [Linker.builtinTable] at htable
  have hempty : ∀ kind c, ({} : BuiltinTable).get? kind = some c → ∃ i, i < 0 ∧ c = .ofIndex i := by
    intro kind c hc
    cases kind <;> cases hc
  obtain ⟨i, hi, rfl⟩ := Linker.builtinTableFrom_position htable hempty kind c hc
  rw [Nat.zero_add, Array.length_toList] at hi
  exact Program.knows_ofIndex hclasses hi

/-! ### What running relies on -/

namespace Program

/-- Integers and booleans have no fields, as unset values have none in any
linked program. -/
structure InlineScalars (P : Program) : Prop where
  int : P.fieldCount P.intClass = 0
  truth : ∀ c, P.builtins.get? .truth = some c → P.fieldCount c = 0
  falsehood : ∀ c, P.builtins.get? .falsehood = some c → P.fieldCount c = 0

/-- What running relies on: values that the machine makes itself are inline, and
objects that it makes itself are not of the marker's class. -/
structure Plain (P : Program) : Prop where
  empty : P.fieldCount .empty = 0
  int : P.fieldCount P.intClass = 0
  int_ne : P.intClass ≠ .forwarded
  boolean : ∀ {b v}, P.boolean b = .ok v → P.fieldCount v.tag = 0 ∧ v.tag ≠ .forwarded
  continuation : ∀ {c}, P.builtin .continuation = .ok c → c ≠ .forwarded
  forwarded : P.fieldCount .forwarded = 0

lemma builtin_eq_ok {P : Program} {kind : ClassKind} {c : ClassId} :
    P.builtin kind = .ok c ↔ P.builtins.get? kind = some c := by
  rw [builtin]
  split
  · rename_i c' hc
    simp [hc]
  · rename_i hc
    simp [hc]

lemma Linked.int_ne {P : Program} (hP : P.Linked) : P.intClass ≠ .forwarded := by
  by_cases hint : P.intClass = .absent
  · rw [hint]
    decide
  · refine (hP.builtins .int P.intClass ?_).ne_forwarded hP.classes
    exact if_neg hint

/-- A linked program whose scalars are inline can be relied on. -/
lemma Linked.plain {P : Program} (hP : P.Linked) (hscalars : P.InlineScalars) : P.Plain where
  empty := hP.empty
  int := hscalars.int
  int_ne := hP.int_ne
  boolean {b v} hv := by
    rw [boolean] at hv
    split at hv
    · rename_i c hc
      cases hv
      rw [builtin_eq_ok] at hc
      refine ⟨?_, (hP.builtins _ c hc).ne_forwarded hP.classes⟩
      cases b with
      | true => exact hscalars.truth c hc
      | false => exact hscalars.falsehood c hc
    · cases hv
  continuation hc := (hP.builtins _ _ (builtin_eq_ok.mp hc)).ne_forwarded hP.classes
  forwarded := fieldCount_forwarded hP.classes

end Program

end EffectMachine
