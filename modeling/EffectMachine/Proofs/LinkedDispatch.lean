/-
Dispatch in linked programs.

Linking renumbers the classes, methods, natives and code positions of every package, makes
methods of one name one method, and packs the implementations of all methods into one table. What
dispatch finds in the end is what the packages declare.

* `Linker.builtinTable_get?`: the builtin table names the classes of their kinds;
* `Package.Covers.unique`: a class belongs to one package;
* `Linker.Completes.dispatch_iff`: what dispatch finds, said by the rows of the packages;
* `Program.Implements`: dispatch finds exactly what the packages declare;
* `link_dispatches`: **so it is in every linked program** whose tables are not too long.
-/
import EffectMachine.Proofs.LinkAcceptance

namespace EffectMachine

/-! ### The builtin table -/

namespace Linker

/-- The builtin table of further classes names them, beside those that it named before. -/
lemma builtinTableFrom_get? {decls : List ClassDecl} {index : Nat} {t t' : BuiltinTable}
    (h : builtinTableFrom index t decls = .ok t') (hsize : index + decls.length ≤ 2 ^ 31)
    {kind : ClassKind} {c : ClassId} :
    t'.get? kind = some c ↔ t.get? kind = some c ∨
      kind ≠ .user ∧ ∃ (k : Nat) (decl : ClassDecl), decls[k]? = some decl ∧ decl.kind = kind ∧
        c = .ofIndex (index + k) := by
  induction decls generalizing index t with
  | nil =>
      cases h
      simp
  | cons decl rest ih =>
      rw [List.length_cons] at hsize
      -- the first class is named, or is no builtin
      have hfirst : ∀ t₁ : BuiltinTable, builtinTableFrom (index + 1) t₁ rest = .ok t' →
          (t₁.get? kind = some c ↔ t.get? kind = some c ∨
            kind ≠ .user ∧ decl.kind = kind ∧ c = .ofIndex index) →
          (t'.get? kind = some c ↔ t.get? kind = some c ∨
            kind ≠ .user ∧ ∃ (k : Nat) (d : ClassDecl), (decl :: rest)[k]? = some d ∧
              d.kind = kind ∧ c = .ofIndex (index + k)) := by
        intro t₁ h₁ ht₁
        rw [ih h₁ (by omega), ht₁]
        constructor
        · rintro ((hget | ⟨hkind, heq, hc⟩) | ⟨hkind, k, d, hd, heq, hc⟩)
          · exact .inl hget
          · exact .inr ⟨hkind, 0, decl, rfl, heq, hc⟩
          · exact .inr ⟨hkind, k + 1, d, hd, heq, by rw [hc, Nat.add_assoc, Nat.add_comm 1]⟩
        · rintro (hget | ⟨hkind, k, d, hd, heq, hc⟩)
          · exact .inl (.inl hget)
          · cases k with
            | zero =>
                cases hd
                exact .inl (.inr ⟨hkind, heq, hc⟩)
            | succ k =>
                exact .inr ⟨hkind, k, d, hd, heq, by rw [hc, Nat.add_assoc, Nat.add_comm 1]⟩
      rw [builtinTableFrom] at h
      by_cases huser : decl.kind = .user
      · rw [if_pos huser] at h
        exact hfirst t h (or_iff_left fun hnamed =>
          hnamed.1 (hnamed.2.1.symm.trans huser)).symm
      · rw [if_neg huser] at h
        cases hget : t.get? decl.kind with
        | some first =>
            rw [hget] at h
            cases h
        | none =>
            rw [hget] at h
            refine hfirst _ h ?_
            rw [BuiltinTable.get?_set_eq huser (ClassId.ofIndex_ne_absent (by omega))]
            by_cases heq : decl.kind = kind
            · rw [if_pos heq, ← heq, hget]
              simp [huser, eq_comm]
            · rw [if_neg heq]
              simp [heq]

/-- **The builtin table names the classes of their kinds.** -/
lemma builtinTable_get? {classes : Array ClassDecl} {t : BuiltinTable}
    (h : builtinTable classes = .ok t) (hsize : classes.size ≤ 2 ^ 31) {kind : ClassKind}
    (hkind : kind ≠ .user) {c : ClassId} :
    t.get? kind = some c ↔ ∃ (k : Nat) (decl : ClassDecl), classes[k]? = some decl ∧
      decl.kind = kind ∧ c = .ofIndex k := by
  have hempty : ({} : BuiltinTable).get? kind = none := by cases kind <;> rfl
  rw [builtinTable] at h
  rw [builtinTableFrom_get? h (by rw [Nat.zero_add]; exact hsize), hempty]
  simp [hkind]

end Linker

/-! ### One place for each class -/

lemma ClassId.ofIndex_inj {i j : Nat} (hi : i < 2 ^ 31) (hj : j < 2 ^ 31)
    (h : ofIndex i = ofIndex j) : i = j := by
  have hint := toInt_ofIndex hi
  rw [h, toInt_ofIndex hj] at hint
  omega

lemma ClassId.isArray_ofIndex {i : Nat} (h : i < 2 ^ 31) : (ofIndex i).isArray = false := by
  have hint := toInt_ofIndex h
  rw [isArray, Bool.and_eq_false_iff, decide_eq_false_iff_not, Int32.lt_iff_toInt_lt]
  left
  rw [hint, Int32.toInt_zero]
  omega

/-- The places of classes of one package: one to initialise it, and those of its own. -/
def Package.Covers (p : Package) (before : List (String × Package)) (k : Nat) : Prop :=
  classBase before ≤ k ∧ k < classBase before + 1 + p.classes.size

/-- **A class belongs to one place in the list of packages.** -/
lemma Package.Covers.unique {front front' back back' : List (String × Package)}
    {x y : String × Package} {k : Nat} (hsplit : front ++ x :: back = front' ++ y :: back')
    (hx : x.2.Covers front k) (hy : y.2.Covers front' k) : front = front' ∧ x = y := by
  -- a place that comes later lies behind all classes of the package
  obtain ⟨hxle, hxlt⟩ := hx
  obtain ⟨hyle, hylt⟩ := hy
  rcases List.append_eq_append_iff.mp hsplit with ⟨t, rfl, ht⟩ | ⟨t, rfl, ht⟩
  · cases t with
    | nil =>
        cases ht
        exact ⟨(List.append_nil front).symm, rfl⟩
    | cons z t =>
        cases ht
        have hle := classBase_split_le front x t
        omega
  · cases t with
    | nil =>
        cases ht
        exact ⟨List.append_nil front', rfl⟩
    | cons z t =>
        cases ht
        have hle := classBase_split_le front' y t
        omega

/-- What is declared for a class is declared by the package of the class. -/
lemma mem_declaredRow_iff {ps front back : List (String × Package)} {x : String × Package}
    {k : Nat} {name : String} {m : MethodId} {i : Implementation} (hps : ∀ x ∈ ps, x.2.Valid)
    (hroom : classBase ps ≤ 2 ^ 31) (hsplit : ps = front ++ x :: back) (hk : x.2.Covers front k)
    (hlt : k < 2 ^ 31) (hcls : i.cls = .ofIndex k) :
    i ∈ declaredRow name m [] ps ↔ i ∈ x.2.declared front name m := by
  rw [mem_declaredRow]
  constructor
  · rintro ⟨front', y, back', hsplit', hi⟩
    rw [List.nil_append] at hi
    have hvalid : y.2.Valid :=
      hps y (hsplit' ▸ List.mem_append_right _ List.mem_cons_self)
    have hspace : classBase front' + 1 + y.2.classes.size ≤ 2 ^ 31 := by
      have hle := classBase_split_le front' y back'
      rw [← hsplit'] at hle
      omega
    obtain ⟨hle, hub⟩ := Package.bounds_of_mem_declared hvalid hspace hi
    rw [hcls, ClassId.toInt_ofIndex hlt] at hle hub
    have hy : y.2.Covers front' k := ⟨by omega, by omega⟩
    obtain ⟨rfl, rfl⟩ := hk.unique (hsplit.symm.trans hsplit') hy
    exact hi
  · intro hi
    exact ⟨front, x, back, hsplit, hi⟩

/-! ### Dispatch -/

namespace Program

/-- The names of the methods of a program. -/
def methodNames (P : Program) : List String := P.methods.toList.map (·.name)

lemma methodId?_eq_some_iff {P : Program} (hnodup : P.methodNames.Nodup) {name : String}
    {m : MethodId} : P.methodId? name = some m ↔
      ∃ r, P.methodNames[r]? = some name ∧ m = ⟨UInt32.ofNat r⟩ := by
  have hget : ∀ r : Nat, P.methodNames[r]? = (P.methods[r]?).map (·.name) := fun r => by
    rw [methodNames, List.getElem?_map, Array.getElem?_toList]
  rw [methodId?, Option.map_eq_some_iff]
  constructor
  · rintro ⟨r, hr, rfl⟩
    obtain ⟨hlt, hname, -⟩ := Array.findIdx?_eq_some_iff_getElem.mp hr
    refine ⟨r, ?_, rfl⟩
    rw [hget, Array.getElem?_eq_getElem hlt, Option.map_some]
    simpa using hname
  · rintro ⟨r, hr, rfl⟩
    refine ⟨r, ?_, rfl⟩
    have hname := hr
    rw [hget, Option.map_eq_some_iff] at hname
    obtain ⟨method, hmethod, hname⟩ := hname
    obtain ⟨hlt, rfl⟩ := Array.getElem?_eq_some_iff.mp hmethod
    refine Array.findIdx?_eq_some_iff_getElem.mpr ⟨hlt, by simpa using hname, ?_⟩
    intro k hk hsame
    have hkr : P.methodNames[k]? = some name := by
      rw [hget, Array.getElem?_eq_getElem (Nat.lt_trans hk hlt), Option.map_some]
      simpa using hsame
    have heq := (List.getElem?_inj (List.getElem?_eq_some_iff.mp hkr).1 hnodup).mp
      (hkr.trans hr.symm)
    omega

lemma dispatch_array {P : Program} {c owner : ClassId} (hc : c.isArray = true)
    (howner : P.builtins.get? .array = some owner) (hplain : owner.isArray = false)
    (m : MethodId) : P.dispatch c m = P.dispatch owner m := by
  have hclass : P.dispatchClass? c = P.dispatchClass? owner := by
    rw [dispatchClass?, dispatchClass?, hc, hplain, if_pos rfl, howner]
    rfl
  rw [dispatch, dispatch, hclass]

lemma dispatch_array_none {P : Program} {c : ClassId} (hc : c.isArray = true)
    (hnone : P.builtins.get? .array = none) (m : MethodId) : P.dispatch c m = none := by
  rw [dispatch, dispatchClass?, hc, if_pos rfl, hnone]
  rfl

/-- Dispatch finds exactly what packages declare, the packages being linked in a given order. A
package behind others has its classes behind `classBase`, the first of which initialises it. -/
structure Implements (P : Program) (ps : List (String × Package)) : Prop where
  /-- Methods are the one that enters closures and those that packages name. -/
  methods : ∀ name, (∃ m, P.methodId? name = some m) ↔
    name = "call" ∨ ∃ x ∈ ps, name ∈ x.2.methodNames
  /-- Methods of different names are different. -/
  apart : ∀ name name' m, P.methodId? name = some m → P.methodId? name' = some m → name = name'
  /-- Classes lie behind the base of their package. -/
  classes : ∀ front x back, ps = front ++ x :: back → ∀ j : Nat, j < x.2.classes.size →
    P.classes[classBase front + 1 + j]? = x.2.classes[j]?
  /-- Natives lie behind the base of their package. -/
  externals : ∀ front x back, ps = front ++ x :: back → ∀ j : Nat, j < x.2.externals.size →
    P.externals[externalBase front + j]? = x.2.externals[j]?
  /-- For a class of a package, dispatch finds what the package lists for it, and that only. -/
  declared : ∀ front x back, ps = front ++ x :: back → ∀ j : Nat, j < x.2.classes.size →
    ∀ name m, P.methodId? name = some m → ∀ i',
      P.dispatch (.ofIndex (classBase front + 1 + j)) m = some i' ↔
        ∃ i ∈ x.2.implementations, i.cls.code.toInt = (j : Int) ∧ x.2.methodName? i = some name ∧
          i' = ⟨.ofIndex (classBase front + 1 + j), m, i.kind,
            i.entry + UInt32.ofNat (entryBase front i.kind)⟩
  /-- The class on which the program starts implements the method that enters closures. -/
  programInit : ∀ m, P.dispatch .programInit m =
    if P.methodId? "call" = some m then some (Linker.starter ps) else none
  /-- So does the class that initialises a package. -/
  packageInit : ∀ front x back, ps = front ++ x :: back → ∀ m,
    P.dispatch (.ofIndex (classBase front)) m =
      if P.methodId? "call" = some m then some (initialiser front) else none
  empty : ∀ m, P.dispatch .empty m = none
  continuation : ∀ m, P.dispatch .continuation m = none
  /-- If there is no class for integers, one is added behind all others. -/
  int : (∀ x ∈ ps, ∀ c ∈ x.2.classes, c.kind ≠ .int) →
    P.classes[classBase ps]? = some ⟨"Int", .int, 0⟩ ∧
      ∀ m, P.dispatch (.ofIndex (classBase ps)) m = none
  /-- Arrays dispatch like the class that is declared for them. -/
  array : ∀ front x back, ps = front ++ x :: back → ∀ (j : Nat) (decl : ClassDecl),
    x.2.classes[j]? = some decl → decl.kind = .array → ∀ c, c.isArray = true → ∀ m,
      P.dispatch c m = P.dispatch (.ofIndex (classBase front + 1 + j)) m
  /-- Without such a class they implement nothing. -/
  noArray : (∀ x ∈ ps, ∀ c ∈ x.2.classes, c.kind ≠ .array) → ∀ c, c.isArray = true → ∀ m,
    P.dispatch c m = none

end Program

/-- The program that a state of the linker is completed to, the tables being of a length that
identifiers can tell apart. -/
structure Linker.Completes (l : Linker) (ps : List (String × Package)) (P : Program) : Prop where
  holds : l.Holds ps
  valid : ∀ x ∈ ps, x.2.Valid
  classes : P.classes = withIntClass l.classes
  externals : P.externals = l.externals
  builtins : builtinTable P.classes = .ok P.builtins
  table : DispatchTable.Exact l.finished ⟨P.methods, P.implementations⟩
  classes_le : P.classes.size ≤ 2 ^ 31
  methods_le : l.methods.size ≤ 2 ^ 32

namespace Linker.Completes

variable {l : Linker} {ps : List (String × Package)} {P : Program}

lemma classBase_le (h : l.Completes ps P) : classBase ps ≤ P.classes.size := by
  rw [h.classes, ← h.holds.size_classes]
  exact size_le_withIntClass l.classes

lemma methodNames_eq (h : l.Completes ps P) : P.methodNames = l.methodNames := by
  have hnames : P.methods.map (·.name) = l.finished.map (·.name) := h.table.names
  refine List.ext_getElem? fun r => ?_
  rw [Program.methodNames, ← Array.toList_map, hnames, Array.getElem?_toList, Array.getElem?_map,
    h.holds.getElem?_finished, Option.map_map, getElem?_methodNames]
  rfl

lemma nodup_methodNames (h : l.Completes ps P) : P.methodNames.Nodup :=
  h.methodNames_eq ▸ h.holds.nodup

/-- **What dispatch finds**, for classes other than those of arrays: what packages declare for the
method, and the code that starts the program. -/
lemma dispatch_iff (h : l.Completes ps P) {c : ClassId} (hc : c.isArray = false) {m : MethodId}
    {i : Implementation} : P.dispatch c m = some i ↔ ∃ name, P.methodId? name = some m ∧
      i.cls = c ∧ (i ∈ declaredRow name m [] ps ∨ name = callName ∧ i = starter ps) := by
  have hroom : classBase ps ≤ 2 ^ 31 := h.classBase_le.trans h.classes_le
  have hnumbered := h.holds.numbered_finished h.methods_le h.valid hroom
  rw [Program.dispatch_eq_some_iff h.table hnumbered hc]
  simp only [Program.methodId?_eq_some_iff h.nodup_methodNames, h.methodNames_eq]
  have hmem : ∀ {r : Nat} {row : MethodRow}, l.finished[r]? = some row →
      (i ∈ row.implementations ↔ i ∈ declaredRow row.name ⟨UInt32.ofNat r⟩ [] ps ∨
        row.name = callName ∧ i = starter ps) := by
    intro r row hrow
    rw [← Array.mem_toList_iff, (h.holds.finished_row h.methods_le hrow).2, List.mem_append]
    by_cases hcall : row.name = callName <;> simp [hcall]
  constructor
  · rintro ⟨row, hrow, hi, rfl⟩
    have hm : m = ⟨UInt32.ofNat m.index.toNat⟩ := by rw [UInt32.ofNat_toNat]
    refine ⟨row.name, ⟨_, (h.holds.finished_row h.methods_le hrow).1, hm⟩, rfl, ?_⟩
    have hi := (hmem hrow).mp hi
    rwa [← hm] at hi
  · rintro ⟨name, ⟨r, hr, rfl⟩, rfl, hi⟩
    obtain ⟨hlt, -⟩ := List.getElem?_eq_some_iff.mp hr
    rw [methodNames, List.length_map, Array.length_toList] at hlt
    have hindex : (UInt32.ofNat r).toNat = r :=
      UInt32.toNat_ofNat_of_lt' (Nat.lt_of_lt_of_le hlt h.methods_le)
    rw [getElem?_methodNames] at hr
    obtain ⟨old, hold, rfl⟩ := Option.map_eq_some_iff.mp hr
    have hrow := h.holds.getElem?_finished r
    rw [hold, Option.map_some] at hrow
    rw [hindex]
    exact ⟨_, hrow, (hmem hrow).mpr hi, rfl⟩

/-! ### The classes of the program -/

/-- Completing the program keeps classes where they are. -/
lemma getElem?_of_lt_classBase (h : l.Completes ps P) {k : Nat} (hk : k < classBase ps) :
    P.classes[k]? = l.classes[k]? := by
  have hsize : l.classes.size = classBase ps := h.holds.size_classes
  rw [h.classes, withIntClass]
  split
  · rfl
  · rw [Array.getElem?_push, if_neg (by omega)]

/-- The class that initialises a package lies at its base, and those of the package behind it. -/
lemma getElem?_classBase_add (h : l.Completes ps P) {front back : List (String × Package)}
    {x : String × Package} (hsplit : ps = front ++ x :: back) {j : Nat}
    (hj : j ≤ x.2.classes.size) : P.classes[classBase front + j]? =
      (⟨"PackageInit", .user, 0⟩ :: x.2.classes.toList)[j]? := by
  have hroom : classBase front + 1 + x.2.classes.size ≤ classBase ps :=
    hsplit ▸ classBase_split_le front x back
  have hlist : l.classes.toList = ([⟨"Empty", .user, 0⟩, ⟨"ProgramInit", .user, 0⟩,
      ⟨"Continuation", .continuation, 1⟩] ++ front.flatMap fun x =>
        ⟨"PackageInit", .user, 0⟩ :: x.2.classes.toList) ++
      (⟨"PackageInit", .user, 0⟩ :: x.2.classes.toList ++ back.flatMap fun x =>
        ⟨"PackageInit", .user, 0⟩ :: x.2.classes.toList) := by
    rw [h.holds.classes, hsplit]
    simp
  have hlength : ([⟨"Empty", .user, 0⟩, ⟨"ProgramInit", .user, 0⟩,
      ⟨"Continuation", .continuation, 1⟩] ++ front.flatMap fun x =>
        ⟨"PackageInit", .user, 0⟩ :: x.2.classes.toList : List ClassDecl).length =
      classBase front := by
    rw [classBase, List.length_append, List.length_flatMap]
    rfl
  rw [h.getElem?_of_lt_classBase (by omega), ← Array.getElem?_toList, hlist,
    List.getElem?_append_right (by omega), hlength, Nat.add_sub_cancel_left,
    List.getElem?_append_left (Nat.lt_succ_of_le hj)]

/-- The classes of a package lie behind the one that initialises it. -/
lemma getElem?_classes (h : l.Completes ps P) {front back : List (String × Package)}
    {x : String × Package} (hsplit : ps = front ++ x :: back) {j : Nat}
    (hj : j < x.2.classes.size) : P.classes[classBase front + 1 + j]? = x.2.classes[j]? := by
  rw [Nat.add_assoc, Nat.add_comm 1, h.getElem?_classBase_add hsplit hj, List.getElem?_cons_succ,
    Array.getElem?_toList]

lemma getElem?_externals (h : l.Completes ps P) {front back : List (String × Package)}
    {x : String × Package} (hsplit : ps = front ++ x :: back) {j : Nat}
    (hj : j < x.2.externals.size) : P.externals[externalBase front + j]? = x.2.externals[j]? := by
  have hlist : l.externals.toList = (front.flatMap fun x => x.2.externals.toList) ++
      (x.2.externals.toList ++ back.flatMap fun x => x.2.externals.toList) := by
    rw [h.holds.externals, hsplit]
    simp
  have hlength : (front.flatMap fun x => x.2.externals.toList).length = externalBase front := by
    rw [externalBase, List.length_flatMap]
    rfl
  rw [h.externals, ← Array.getElem?_toList, hlist, List.getElem?_append_right (by omega), hlength,
    Nat.add_sub_cancel_left, List.getElem?_append_left hj, Array.getElem?_toList]

/-- A class of a kind that is not reserved is that of a package. -/
lemma exists_of_mem_classes (h : l.Completes ps P) {decl : ClassDecl} (hdecl : decl ∈ l.classes)
    (huser : decl.kind ≠ .user) (hcontinuation : decl.kind ≠ .continuation) :
    ∃ x ∈ ps, decl ∈ x.2.classes := by
  rw [← Array.mem_toList_iff, h.holds.classes, List.mem_append, List.mem_flatMap] at hdecl
  rcases hdecl with hmem | ⟨x, hx, hmem⟩
  · simp only [List.mem_cons, List.not_mem_nil, or_false] at hmem
    rcases hmem with rfl | rfl | rfl
    · exact absurd rfl huser
    · exact absurd rfl huser
    · exact absurd rfl hcontinuation
  · rcases List.mem_cons.mp hmem with rfl | hmem
    · exact absurd rfl huser
    · exact ⟨x, hx, Array.mem_toList_iff.mp hmem⟩

/-- If no package declares a class for integers, one is added. -/
lemma classes_eq_push (h : l.Completes ps P)
    (hint : ∀ x ∈ ps, ∀ c ∈ x.2.classes, c.kind ≠ .int) :
    P.classes = l.classes.push ⟨"Int", .int, 0⟩ := by
  rw [h.classes, withIntClass, if_neg]
  rw [Array.any_eq_true']
  rintro ⟨decl, hdecl, hkind⟩
  rw [decide_eq_true_eq] at hkind
  obtain ⟨x, hx, hmem⟩ := h.exists_of_mem_classes hdecl (by simp [hkind]) (by simp [hkind])
  exact hint x hx decl hmem hkind

/-- A class of kind array stands for arrays. -/
lemma builtin_array (h : l.Completes ps P) {k : Nat} {decl : ClassDecl}
    (hdecl : P.classes[k]? = some decl) (hkind : decl.kind = .array) :
    P.builtins.get? .array = some (.ofIndex k) :=
  (builtinTable_get? h.builtins h.classes_le (by simp)).mpr ⟨k, decl, hdecl, hkind, rfl⟩

/-- If no package declares such a class, none does. -/
lemma builtin_array_none (h : l.Completes ps P)
    (harray : ∀ x ∈ ps, ∀ c ∈ x.2.classes, c.kind ≠ .array) :
    P.builtins.get? .array = none := by
  rw [Option.eq_none_iff_forall_ne_some]
  intro c hc
  obtain ⟨k, decl, hdecl, hkind, -⟩ :=
    (builtinTable_get? h.builtins h.classes_le (by simp)).mp hc
  have hmem := Array.mem_of_getElem? hdecl
  have hold : decl ∈ l.classes := by
    rw [h.classes, withIntClass] at hmem
    split at hmem
    · exact hmem
    · rcases Array.mem_push.mp hmem with hmem | rfl
      · exact hmem
      · exact absurd hkind (by simp)
  obtain ⟨x, hx, hmem⟩ := h.exists_of_mem_classes hold (by simp [hkind]) (by simp [hkind])
  exact harray x hx decl hmem hkind

/-! ### Dispatch for each class -/

lemma call_eq (h : l.Completes ps P) {m : MethodId} :
    P.methodId? callName = some m ↔ m = .call := by
  rw [Program.methodId?_eq_some_iff h.nodup_methodNames, h.methodNames_eq]
  constructor
  · rintro ⟨r, hr, rfl⟩
    obtain ⟨hlt, -⟩ := List.getElem?_eq_some_iff.mp hr
    cases (List.getElem?_inj hlt h.holds.nodup).mp (hr.trans h.holds.call.symm)
    rfl
  · rintro rfl
    exact ⟨0, h.holds.call, rfl⟩

/-- For reserved classes, and for those behind all packages, nothing but the start of the program
is found. -/
lemma dispatch_outside (h : l.Completes ps P) {k : Nat} (hk : k < 3 ∨ classBase ps ≤ k)
    (hlt : k < 2 ^ 31) {m : MethodId} {i : Implementation} :
    P.dispatch (.ofIndex k) m = some i ↔ m = .call ∧ k = 1 ∧ i = starter ps := by
  have hroom : classBase ps ≤ 2 ^ 31 := h.classBase_le.trans h.classes_le
  rw [h.dispatch_iff (ClassId.isArray_ofIndex hlt)]
  constructor
  · rintro ⟨name, hname, hcls, hi | ⟨rfl, rfl⟩⟩
    · have hbounds := bounds_of_mem_declaredRow h.valid (by simpa using hroom) hi
      have hbase : classBase ([] : List (String × Package)) = 3 := rfl
      rw [hcls, ClassId.toInt_ofIndex hlt, List.nil_append] at hbounds
      omega
    · exact ⟨h.call_eq.mp hname, ClassId.ofIndex_inj hlt (by omega) hcls.symm, rfl⟩
  · rintro ⟨rfl, rfl, rfl⟩
    exact ⟨callName, h.call_eq.mpr rfl, rfl, .inr ⟨rfl, rfl⟩⟩

/-- For the classes of a package, what the package declares is found. -/
lemma dispatch_inside (h : l.Completes ps P) {front back : List (String × Package)}
    {x : String × Package} (hsplit : ps = front ++ x :: back) {k : Nat}
    (hk : x.2.Covers front k) {m : MethodId} {i : Implementation} :
    P.dispatch (.ofIndex k) m = some i ↔ i.cls = .ofIndex k ∧
      ∃ name, P.methodId? name = some m ∧ i ∈ x.2.declared front name m := by
  have hroom : classBase ps ≤ 2 ^ 31 := h.classBase_le.trans h.classes_le
  have hlt : k < 2 ^ 31 := by
    have hle := classBase_split_le front x back
    rw [← hsplit] at hle
    have hub := hk.2
    omega
  have hbase : 3 ≤ k := Nat.le_trans (Nat.le_add_right 3 _) hk.1
  rw [h.dispatch_iff (ClassId.isArray_ofIndex hlt)]
  constructor
  · rintro ⟨name, hname, hcls, hi | ⟨rfl, rfl⟩⟩
    · exact ⟨hcls, name, hname, (mem_declaredRow_iff h.valid hroom hsplit hk hlt hcls).mp hi⟩
    · have hone : 1 = k := ClassId.ofIndex_inj (by omega) hlt hcls
      omega
  · rintro ⟨hcls, name, hname, hi⟩
    exact ⟨name, hname, hcls, .inl ((mem_declaredRow_iff h.valid hroom hsplit hk hlt hcls).mpr hi)⟩

lemma methodId?_inj (h : l.Completes ps P) {name name' : String} {m : MethodId}
    (hm : P.methodId? name = some m) (hm' : P.methodId? name' = some m) : name = name' := by
  rw [Program.methodId?_eq_some_iff h.nodup_methodNames, h.methodNames_eq] at hm hm'
  obtain ⟨r, hr, rfl⟩ := hm
  obtain ⟨r', hr', heq⟩ := hm'
  have hindex : ∀ {r : Nat} {name : String}, l.methodNames[r]? = some name →
      (UInt32.ofNat r).toNat = r := by
    intro r name hr
    obtain ⟨hlt, -⟩ := List.getElem?_eq_some_iff.mp hr
    rw [methodNames, List.length_map, Array.length_toList] at hlt
    exact UInt32.toNat_ofNat_of_lt' (Nat.lt_of_lt_of_le hlt h.methods_le)
  have hsame : r = r' := by
    rw [← hindex hr, ← hindex hr', MethodId.mk.inj heq]
  subst hsame
  exact Option.some.inj (hr.symm.trans hr')

lemma exists_methodId?_iff (h : l.Completes ps P) {name : String} :
    (∃ m, P.methodId? name = some m) ↔
      name = callName ∨ ∃ x ∈ ps, name ∈ x.2.methodNames := by
  rw [← h.holds.named, ← h.methodNames_eq]
  simp only [Program.methodId?_eq_some_iff h.nodup_methodNames]
  constructor
  · rintro ⟨-, r, hr, -⟩
    exact List.mem_of_getElem? hr
  · intro hmem
    obtain ⟨r, hr⟩ := List.mem_iff_getElem?.mp hmem
    exact ⟨_, r, hr, rfl⟩

/-- For a class of a package, dispatch finds what the package lists. -/
lemma dispatch_declared (h : l.Completes ps P) {front back : List (String × Package)}
    {x : String × Package} (hsplit : ps = front ++ x :: back) {j : Nat}
    (hj : j < x.2.classes.size) {name : String} {m : MethodId}
    (hname : P.methodId? name = some m) (i' : Implementation) :
    P.dispatch (.ofIndex (classBase front + 1 + j)) m = some i' ↔
      ∃ i ∈ x.2.implementations, i.cls.code.toInt = (j : Int) ∧ x.2.methodName? i = some name ∧
        i' = ⟨.ofIndex (classBase front + 1 + j), m, i.kind,
          i.entry + UInt32.ofNat (entryBase front i.kind)⟩ := by
  have hspace : classBase front + 1 + x.2.classes.size ≤ 2 ^ 31 := by
    have hle := classBase_split_le front x back
    rw [← hsplit] at hle
    exact hle.trans (h.classBase_le.trans h.classes_le)
  have hvalid : x.2.Valid := h.valid x (hsplit ▸ List.mem_append_right _ List.mem_cons_self)
  rw [h.dispatch_inside hsplit ⟨by omega, by omega⟩]
  constructor
  · rintro ⟨hcls, name', hname', hi⟩
    cases h.methodId?_inj hname hname'
    rcases Package.mem_declared.mp hi with ⟨-, rfl⟩ | ⟨i, hmem, hnames, rfl⟩
    · -- the class that initialises the package is none of its own
      have heq := ClassId.ofIndex_inj (by omega) (by omega) hcls
      omega
    · obtain ⟨hle, hlt⟩ := hvalid.cls i hmem
      have hk : i.cls.code.toInt = i.cls.code.toInt.toNat := (Int.toNat_of_nonneg hle).symm
      have heq := Package.cls_placed front m hk
      rw [hcls] at heq
      have hindex := ClassId.ofIndex_inj (by omega) (by omega) heq
      refine ⟨i, hmem, by omega, Package.names_iff.mp hnames, ?_⟩
      rw [← hcls]
      rfl
  · rintro ⟨i, hi, hindex, hmethod, rfl⟩
    have hplaced : Package.placed front m i = ⟨.ofIndex (classBase front + 1 + j), m, i.kind,
        i.entry + UInt32.ofNat (entryBase front i.kind)⟩ := by
      rw [← Package.cls_placed front m hindex]
      rfl
    exact ⟨rfl, name, hname,
      Package.mem_declared.mpr (.inr ⟨i, hi, Package.names_iff.mpr hmethod, hplaced⟩)⟩

/-- For the class that initialises a package, dispatch finds the code of the package. -/
lemma dispatch_initialiser (h : l.Completes ps P) {front back : List (String × Package)}
    {x : String × Package} (hsplit : ps = front ++ x :: back) {m : MethodId}
    {i : Implementation} : P.dispatch (.ofIndex (classBase front)) m = some i ↔
      m = .call ∧ i = initialiser front := by
  have hspace : classBase front + 1 + x.2.classes.size ≤ 2 ^ 31 := by
    have hle := classBase_split_le front x back
    rw [← hsplit] at hle
    exact hle.trans (h.classBase_le.trans h.classes_le)
  have hvalid : x.2.Valid := h.valid x (hsplit ▸ List.mem_append_right _ List.mem_cons_self)
  rw [h.dispatch_inside hsplit ⟨by omega, by omega⟩]
  constructor
  · rintro ⟨hcls, name, hname, hi⟩
    rcases Package.mem_declared.mp hi with ⟨rfl, rfl⟩ | ⟨j, hj, -, rfl⟩
    · exact ⟨h.call_eq.mp hname, rfl⟩
    · have hlies := Package.toInt_cls_placed (m := m) hvalid hspace hj
      have hbounds := (hvalid.cls j hj).1
      rw [hcls, ClassId.toInt_ofIndex (by omega)] at hlies
      omega
  · rintro ⟨rfl, rfl⟩
    exact ⟨rfl, callName, h.call_eq.mpr rfl, Package.mem_declared.mpr (.inl ⟨rfl, rfl⟩)⟩

/-- **Dispatch finds exactly what the packages declare.** -/
lemma implements (h : l.Completes ps P) : P.Implements ps where
  methods name := h.exists_methodId?_iff
  apart name name' m := h.methodId?_inj
  classes front x back hsplit j hj := h.getElem?_classes hsplit hj
  externals front x back hsplit j hj := h.getElem?_externals hsplit hj
  declared front x back hsplit j hj name m hname i' := h.dispatch_declared hsplit hj hname i'
  programInit m := by
    refine Option.ext fun i => ?_
    have hcall : P.methodId? "call" = some m ↔ m = .call := h.call_eq
    rw [Option.ite_none_right_eq_some, hcall, Option.some.injEq]
    refine (h.dispatch_outside (k := 1) (.inl (by omega)) (by omega)).trans ?_
    simp [eq_comm]
  packageInit front x back hsplit m := by
    refine Option.ext fun i => ?_
    have hcall : P.methodId? "call" = some m ↔ m = .call := h.call_eq
    rw [Option.ite_none_right_eq_some, hcall, Option.some.injEq, h.dispatch_initialiser hsplit,
      eq_comm (a := i)]
  empty m := by
    refine Option.eq_none_iff_forall_ne_some.mpr fun i hi => ?_
    have hone := (h.dispatch_outside (k := 0) (.inl (by omega)) (by omega)).mp hi
    omega
  continuation m := by
    refine Option.eq_none_iff_forall_ne_some.mpr fun i hi => ?_
    have hone := (h.dispatch_outside (k := 2) (.inl (by omega)) (by omega)).mp hi
    omega
  int hint := by
    have hclasses := h.classes_eq_push hint
    have hsize : P.classes.size = classBase ps + 1 := by
      rw [hclasses, Array.size_push, h.holds.size_classes]
    have hle := h.classes_le
    refine ⟨?_, fun m => Option.eq_none_iff_forall_ne_some.mpr fun i hi => ?_⟩
    · rw [hclasses, ← h.holds.size_classes, Array.getElem?_push_size]
    · have hone := (h.dispatch_outside (.inr (Nat.le_refl _)) (by omega)).mp hi
      have hbase : 3 ≤ classBase ps := Nat.le_add_right 3 _
      omega
  array front x back hsplit j decl hdecl hkind c hc m := by
    obtain ⟨hj, -⟩ := Array.getElem?_eq_some_iff.mp hdecl
    have hlinked := (h.getElem?_classes hsplit hj).trans hdecl
    obtain ⟨hlt, -⟩ := Array.getElem?_eq_some_iff.mp hlinked
    exact Program.dispatch_array hc (h.builtin_array hlinked hkind)
      (ClassId.isArray_ofIndex (Nat.lt_of_lt_of_le hlt h.classes_le)) m
  noArray harray c hc m := Program.dispatch_array_none hc (h.builtin_array_none harray) m

end Linker.Completes

/-- A program of tables that are not too long is completed from what the packages declare. -/
lemma Linker.Holds.completes {l : Linker} {ps : List (String × Package)} {entry : String}
    {P : Program} (h : l.Holds ps) (hvalid : ∀ x ∈ ps, x.2.Valid)
    (hcomplete : l.complete entry = .ok P) (hclasses : P.classes.size ≤ 2 ^ 31)
    (hmethods : P.methods.size ≤ 2 ^ 32) (htable : P.implementations.size ≤ 2 ^ 31) :
    l.Completes ps P := by
  obtain ⟨main, package, builtins, table, -, -, hbuiltins, hpack, rfl⟩ :=
    complete_eq_ok.mp hcomplete
  dsimp only at hclasses hmethods htable
  have hroom : classBase ps ≤ 2 ^ 31 :=
    h.size_classes ▸ (size_le_withIntClass l.classes).trans hclasses
  have hlength : l.methods.size ≤ 2 ^ 32 := by
    rwa [size_methods_of_pack hpack, finished, addImplementation, Array.size_modify] at hmethods
  exact
    { holds := h
      valid := hvalid
      classes := rfl
      externals := rfl
      builtins := hbuiltins
      table := pack_exact hpack (h.numbered_finished hlength hvalid hroom) htable
      classes_le := hclasses
      methods_le := hlength }

/-- **In a linked program, dispatch finds exactly what the packages of the closure declare**, if
no table is too long for its identifiers. -/
theorem link_dispatches (lib : Library) (entry : String) {journal journal' : Journal}
    {P : Program} (h : link lib.source entry journal = .ok P journal')
    (hclasses : P.classes.size ≤ 2 ^ 31) (hmethods : P.methods.size ≤ 2 ^ 32)
    (htable : P.implementations.size ≤ 2 ^ 31) :
    ∃ ps, lib.source.Ordered ps ∧ (∀ name p, lib.source.Member entry name p ↔ (name, p) ∈ ps) ∧
      P.Implements ps := by
  obtain ⟨l, himport, hcomplete, -⟩ := link_eq_ok.mp h
  obtain ⟨ps, hps, ho, hreached, hentry, hvalid⟩ := Linker.exists_closure himport
  have hcompletes := hps.completes hvalid hcomplete hclasses hmethods htable
  exact ⟨ps, ho, fun name p => ho.member_iff hentry hreached, hcompletes.implements⟩

/-- Two packages that implement a method of one name, linked. -/
theorem link_dispatches_two : ∃ P journal, link twoPackages.source "app" {} = .ok P journal ∧
    (P.classes.size ≤ 2 ^ 31 ∧ P.methods.size ≤ 2 ^ 32 ∧ P.implementations.size ≤ 2 ^ 31) ∧
    ∃ ps, twoPackages.source.Ordered ps ∧
      (∀ name p, twoPackages.source.Member "app" name p ↔ (name, p) ∈ ps) ∧ P.Implements ps := by
  have hprogram : (twoPackages.program? "app").any (fun P => decide (P.classes.size ≤ 2 ^ 31 ∧
      P.methods.size ≤ 2 ^ 32 ∧ P.implementations.size ≤ 2 ^ 31)) = true := by decide +kernel
  obtain ⟨P, hP, hsizes⟩ := (Option.any_eq_true _ _).mp hprogram
  obtain ⟨journal, hlink⟩ := Library.program?_eq_some.mp hP
  rw [decide_eq_true_eq] at hsizes
  exact ⟨P, journal, hlink, hsizes,
    link_dispatches twoPackages "app" hlink hsizes.1 hsizes.2.1 hsizes.2.2⟩

end EffectMachine
