/-
Completing a program.

When all packages have been linked, a program is completed if the main method is there, no two
classes are of one builtin kind, and no method is implemented twice for a class.

* `ClassDecl.Clash`: two classes of one builtin kind, and `exists_builtinTable_iff`: **the
  builtin table exists if and only if no two classes clash**;
* `Linker.finished`: the rows of the dispatch table, with the code that starts the program;
* `Linker.Holds.distinct_finished_iff`: **a row is distinct if and only if no package implements
  the method twice for a class**: classes of different packages lie apart;
* `Linker.complete_eq_ok`: what a completed program consists of, and
  `Linker.exists_complete_iff`: when there is one.
-/
import EffectMachine.Proofs.PackageLinking
import EffectMachine.Proofs.PackedTable

namespace EffectMachine

/-- Whether a relation holds nowhere between two elements of a list, said of their places. -/
lemma pairwise_not_iff {α : Type} {R : α → α → Prop} (hsymm : ∀ a b, R a b → R b a)
    {xs : List α} : xs.Pairwise (fun a b => ¬ R a b) ↔
      ∀ (i j : Nat) (a b : α), xs[i]? = some a → xs[j]? = some b → R a b → i = j := by
  rw [List.pairwise_iff_getElem]
  constructor
  · intro h i j a b hi hj hR
    obtain ⟨hilt, rfl⟩ := List.getElem?_eq_some_iff.mp hi
    obtain ⟨hjlt, rfl⟩ := List.getElem?_eq_some_iff.mp hj
    rcases Nat.lt_trichotomy i j with hlt | heq | hlt
    · exact absurd hR (h i j hilt hjlt hlt)
    · exact heq
    · exact absurd (hsymm _ _ hR) (h j i hjlt hilt hlt)
  · intro h i j hi hj hlt hR
    exact absurd (h i j _ _ (List.getElem?_eq_getElem hi) (List.getElem?_eq_getElem hj) hR)
      (Nat.ne_of_lt hlt)

/-! ### Builtin classes -/

/-- Two classes are of one builtin kind. -/
def ClassDecl.Clash (a b : ClassDecl) : Prop := a.kind = b.kind ∧ a.kind ≠ .user

lemma ClassDecl.Clash.symm {a b : ClassDecl} (h : a.Clash b) : b.Clash a :=
  ⟨h.1.symm, h.1 ▸ h.2⟩

lemma ClassId.toInt_ofIndex {i : Nat} (h : i < 2 ^ 31) : (ofIndex i).code.toInt = i :=
  Int32.toInt_ofNat_of_lt h

lemma ClassId.ofIndex_ne_absent {i : Nat} (h : i < 2 ^ 31) : ofIndex i ≠ absent := by
  intro heq
  have hint := toInt_ofIndex h
  rw [heq] at hint
  have hmin : absent.code.toInt = -2 ^ 31 := by decide
  omega

lemma BuiltinTable.get?_set_eq {t : BuiltinTable} {kind kind' : ClassKind} {c : ClassId}
    (hkind : kind ≠ .user) (hc : c ≠ .absent) :
    (t.set kind c).get? kind' = if kind = kind' then some c else t.get? kind' := by
  have hentry : (t.set kind c).entry kind' = if kind = kind' then c else t.entry kind' := by
    cases kind <;> cases kind' <;> first | rfl | exact absurd rfl hkind
  rw [get?, hentry]
  by_cases heq : kind = kind'
  · rw [if_pos heq, if_pos heq, if_neg hc]
  · rw [if_neg heq, if_neg heq, get?]

namespace Linker

/-- The table of further classes exists if none of them is of a builtin kind that has been taken,
and no two of them are of one kind. -/
lemma exists_builtinTableFrom_iff {index : Nat} {t : BuiltinTable} {decls : List ClassDecl}
    (h : index + decls.length ≤ 2 ^ 31 + 1) :
    (∃ t', builtinTableFrom index t decls = .ok t') ↔
      (∀ decl ∈ decls, decl.kind ≠ .user → t.get? decl.kind = none) ∧
        decls.Pairwise fun a b => ¬ a.Clash b := by
  induction decls generalizing index t with
  | nil => simp [builtinTableFrom]
  | cons decl rest ih =>
      rw [List.length_cons] at h
      rw [builtinTableFrom, List.forall_mem_cons, List.pairwise_cons]
      by_cases huser : decl.kind = .user
      · have hapart : ∀ b ∈ rest, ¬ decl.Clash b := fun b _ hclash => hclash.2 huser
        rw [if_pos huser, ih (by omega)]
        tauto
      · rw [if_neg huser]
        cases hget : t.get? decl.kind with
        | some first => simp [huser]
        | none =>
            dsimp only
            rw [ih (by omega)]
            -- an entry that is looked at later is that of an index in range
            have hset : ∀ b ∈ rest, (b.kind ≠ .user →
                (t.set decl.kind (.ofIndex index)).get? b.kind = none) ↔
                  (b.kind ≠ .user → t.get? b.kind = none) ∧ ¬ decl.Clash b := by
              intro b hb
              have hpos := List.length_pos_of_mem hb
              rw [BuiltinTable.get?_set_eq huser (ClassId.ofIndex_ne_absent (by omega)),
                ClassDecl.Clash]
              by_cases heq : decl.kind = b.kind
              · simp [← heq, huser]
              · simp [heq]
            rw [forall₂_congr hset, forall₂_and]
            tauto

/-- **The builtin table exists if and only if no two classes clash.** -/
lemma exists_builtinTable_iff {classes : Array ClassDecl} (h : classes.size ≤ 2 ^ 31 + 1) :
    (∃ t, builtinTable classes = .ok t) ↔ classes.toList.Pairwise fun a b => ¬ a.Clash b := by
  have hnone : ∀ decl ∈ classes.toList, decl.kind ≠ .user →
      ({} : BuiltinTable).get? decl.kind = none := by
    intro decl _ _
    cases decl.kind <;> rfl
  rw [builtinTable, exists_builtinTableFrom_iff (by rw [Nat.zero_add]; exact h)]
  exact and_iff_right hnone

lemma size_le_withIntClass (classes : Array ClassDecl) :
    classes.size ≤ (withIntClass classes).size := by
  rw [withIntClass]
  split
  · exact Nat.le_refl _
  · rw [Array.size_push]
    exact Nat.le_succ _

lemma pairwise_withIntClass {classes : Array ClassDecl} :
    ((withIntClass classes).toList.Pairwise fun a b => ¬ a.Clash b) ↔
      classes.toList.Pairwise fun a b => ¬ a.Clash b := by
  rw [withIntClass]
  split
  · rfl
  · rename_i hnone
    have hapart : ∀ a ∈ classes.toList, ¬ a.Clash ⟨"Int", .int, 0⟩ := by
      rintro a ha ⟨hkind, -⟩
      exact hnone (Array.any_eq_true'.mpr ⟨a, Array.mem_toList_iff.mp ha, by simpa using hkind⟩)
    rw [Array.toList_push, List.pairwise_append]
    refine ⟨fun h => h.1, fun h => ⟨h, List.pairwise_singleton _ _, fun a ha b hb => ?_⟩⟩
    cases List.mem_singleton.mp hb
    exact hapart a ha

end Linker

/-! ### Where classes come to lie -/

lemma classBase_concat (ps : List (String × Package)) (x : String × Package) :
    classBase (ps ++ [x]) = classBase ps + 1 + x.2.classes.size := by
  rw [classBase, classBase, List.map_append, List.sum_append]
  simp only [List.map_cons, List.map_nil, List.sum_singleton]
  omega

lemma classBase_le_append (ps qs : List (String × Package)) :
    classBase ps ≤ classBase (ps ++ qs) := by
  rw [classBase, classBase, List.map_append, List.sum_append]
  omega

/-- The classes of a package lie before those of the packages behind it. -/
lemma classBase_split_le (front : List (String × Package)) (x : String × Package)
    (back : List (String × Package)) :
    classBase front + 1 + x.2.classes.size ≤ classBase (front ++ x :: back) := by
  have hle := classBase_le_append (front ++ [x]) back
  rwa [classBase_concat, List.append_assoc, List.singleton_append] at hle

namespace Package

variable {p : Package} {before : List (String × Package)} {name : String} {m : MethodId}
  {i : Implementation}

lemma cls_placed (before : List (String × Package)) (m : MethodId) {k : Nat}
    (hk : i.cls.code.toInt = k) :
    (placed before m i).cls = .ofIndex (classBase before + 1 + k) := by
  have hcode : i.cls.code = Int32.ofNat k := by
    rw [← Int32.ofInt_toInt i.cls.code, hk, Int32.ofInt_eq_ofNat]
  rw [placed, ClassId.ofIndex, hcode, ← Int32.ofNat_add, Nat.add_comm]

lemma toInt_cls_placed (hp : p.Valid) (hroom : classBase before + 1 + p.classes.size ≤ 2 ^ 31)
    (hi : i ∈ p.implementations) :
    (placed before m i).cls.code.toInt = classBase before + 1 + i.cls.code.toInt := by
  obtain ⟨hle, hlt⟩ := hp.cls i hi
  have hk : i.cls.code.toInt = i.cls.code.toInt.toNat := (Int.toNat_of_nonneg hle).symm
  rw [cls_placed before m hk, ClassId.toInt_ofIndex (by omega)]
  omega

lemma mem_declared : i ∈ p.declared before name m ↔
    (name = Linker.callName ∧ i = initialiser before) ∨
      ∃ j ∈ p.implementations, p.names name j = true ∧ placed before m j = i := by
  rw [declared, List.mem_append]
  by_cases hcall : name = Linker.callName <;> simp [hcall, and_assoc]

/-- What a package declares is of classes between its base and the next one. -/
lemma bounds_of_mem_declared (hp : p.Valid)
    (hroom : classBase before + 1 + p.classes.size ≤ 2 ^ 31) (hi : i ∈ p.declared before name m) :
    classBase before ≤ i.cls.code.toInt ∧
      i.cls.code.toInt < classBase before + 1 + p.classes.size := by
  rcases mem_declared.mp hi with ⟨-, rfl⟩ | ⟨j, hj, -, rfl⟩
  · rw [initialiser, ClassId.toInt_ofIndex (by omega)]
    omega
  · obtain ⟨hle, hlt⟩ := hp.cls j hj
    rw [toInt_cls_placed hp hroom hj]
    omega

/-- The implementations that a package has of the method of a name are of different classes. -/
def DistinctFor (p : Package) (name : String) : Prop :=
  ((p.implementations.toList.filter (p.names name)).map (·.cls)).Nodup

lemma nodup_declared (hp : p.Valid) (hroom : classBase before + 1 + p.classes.size ≤ 2 ^ 31) :
    ((p.declared before name m).map (·.cls)).Nodup ↔ p.DistinctFor name := by
  have hshift : Function.Injective fun c : ClassId =>
      (⟨c.code + Int32.ofNat (classBase before + 1)⟩ : ClassId) := by
    intro c d heq
    exact congrArg ClassId.mk ((Int32.add_left_inj _).mp (congrArg ClassId.code heq))
  have hplaced : ((p.implementations.toList.filter (p.names name)).map (placed before m)).map
      (·.cls) = ((p.implementations.toList.filter (p.names name)).map (·.cls)).map
        fun c => ⟨c.code + Int32.ofNat (classBase before + 1)⟩ := by
    rw [List.map_map, List.map_map]
    rfl
  rw [declared, List.map_append, List.nodup_append, hplaced, List.nodup_map_iff hshift,
    ← DistinctFor]
  refine ⟨fun h => h.2.1, fun h => ⟨by split <;> simp, h, ?_⟩⟩
  -- the class that initialises the package lies before those of the package
  rintro a ha b hb rfl
  obtain ⟨j, hj, rfl⟩ := List.mem_map.mp ha
  obtain ⟨i, hi, heq⟩ := List.mem_map.mp hb
  obtain ⟨k, hk, rfl⟩ := List.mem_map.mp hi
  have hmem := Array.mem_toList_iff.mp (List.mem_filter.mp hk).1
  have hbounds := (hp.cls k hmem).1
  have hlies := toInt_cls_placed (m := m) hp hroom hmem
  split at hj
  · cases List.mem_singleton.mp hj
    have hcls : (placed before m k).cls = .ofIndex (classBase before) := heq
    rw [hcls, ClassId.toInt_ofIndex (by omega)] at hlies
    omega
  · cases hj

end Package

variable {name : String} {m : MethodId} {before ps : List (String × Package)}

lemma bounds_of_mem_declaredRow {i : Implementation} (hps : ∀ x ∈ ps, x.2.Valid)
    (hroom : classBase (before ++ ps) ≤ 2 ^ 31) (hi : i ∈ declaredRow name m before ps) :
    classBase before ≤ i.cls.code.toInt ∧ i.cls.code.toInt < classBase (before ++ ps) := by
  obtain ⟨front, x, back, rfl, hdeclared⟩ := mem_declaredRow.mp hi
  have hfront := classBase_le_append before front
  have hback := classBase_split_le (before ++ front) x back
  rw [List.append_assoc] at hback
  have hvalid := hps x (List.mem_append_right _ List.mem_cons_self)
  have hspace : classBase (before ++ front) + 1 + x.2.classes.size ≤ 2 ^ 31 := by omega
  have hbounds := Package.bounds_of_mem_declared hvalid hspace hdeclared
  omega

/-- A row is distinct if what each package adds to it is. -/
lemma nodup_declaredRow (hps : ∀ x ∈ ps, x.2.Valid) (hroom : classBase (before ++ ps) ≤ 2 ^ 31) :
    ((declaredRow name m before ps).map (·.cls)).Nodup ↔ ∀ x ∈ ps, x.2.DistinctFor name := by
  induction ps generalizing before with
  | nil => simp [declaredRow]
  | cons x ps ih =>
      rw [List.forall_mem_cons] at hps
      have hassoc : before ++ x :: ps = before ++ [x] ++ ps := by simp
      rw [hassoc] at hroom
      have hconcat := classBase_concat before x
      have hgrown := classBase_le_append (before ++ [x]) ps
      rw [declaredRow, List.map_append, List.nodup_append, List.forall_mem_cons,
        Package.nodup_declared hps.1 (by omega), ih hps.2 hroom]
      refine ⟨fun h => ⟨h.1, h.2.1⟩, fun h => ⟨h.1, h.2, ?_⟩⟩
      rintro a ha b hb rfl
      obtain ⟨i, hi, rfl⟩ := List.mem_map.mp ha
      obtain ⟨j, hj, heq⟩ := List.mem_map.mp hb
      have hhere := Package.bounds_of_mem_declared hps.1 (by omega) hi
      have hlater := bounds_of_mem_declaredRow hps.2 hroom hj
      rw [heq] at hlater
      omega

namespace Linker

/-! ### The rows of the dispatch table -/

/-- The implementation that starts the program. -/
def starter (ps : List (String × Package)) : Implementation :=
  ⟨.programInit, .call, .standard, UInt32.ofNat (codeBase ps)⟩

/-- The rows of the dispatch table, with the code that starts the program. -/
def finished (l : Linker) : Array MethodRow :=
  (l.addImplementation ⟨.programInit, .call, .standard, UInt32.ofNat l.code.size⟩).methods

variable {l : Linker}

lemma Holds.getElem?_finished (h : l.Holds ps) (r : Nat) : l.finished[r]? =
    (l.methods[r]?).map fun row => { row with implementations := row.implementations ++
      (if row.name = callName then #[starter ps] else #[]) } := by
  rw [finished, h.code]
  exact h.getElem?_addImplementation rfl r

/-- A row holds what the packages declare for the method of its name. -/
lemma Holds.finished_row (h : l.Holds ps) (hsize : l.methods.size ≤ 2 ^ 32) {r : Nat}
    {row : MethodRow} (hrow : l.finished[r]? = some row) :
    l.methodNames[r]? = some row.name ∧
      row.implementations.toList = declaredRow row.name ⟨UInt32.ofNat r⟩ [] ps ++
        if row.name = callName then [starter ps] else [] := by
  rw [h.getElem?_finished] at hrow
  obtain ⟨old, hold, rfl⟩ := Option.map_eq_some_iff.mp hrow
  refine ⟨by rw [getElem?_methodNames, hold]; rfl, ?_⟩
  rw [Array.toList_append, h.rows hsize r old hold]
  dsimp only
  split <;> rfl

/-- Every row names its own method, and proper classes. -/
lemma Holds.numbered_finished (h : l.Holds ps) (hsize : l.methods.size ≤ 2 ^ 32)
    (hps : ∀ x ∈ ps, x.2.Valid) (hroom : classBase ps ≤ 2 ^ 31) :
    DispatchTable.Numbered l.finished := by
  intro r row hrow i hi
  obtain ⟨hname, himpl⟩ := h.finished_row hsize hrow
  obtain ⟨hr, -⟩ := List.getElem?_eq_some_iff.mp hname
  have hfirst : row.name = callName → r = 0 := by
    intro heq
    rw [heq] at hname
    exact (List.getElem?_inj hr h.nodup).mp (hname.trans h.call.symm)
  rw [methodNames, List.length_map, Array.length_toList] at hr
  rw [← Array.mem_toList_iff, himpl, List.mem_append] at hi
  rcases hi with hi | hi
  · refine ⟨?_, ?_⟩
    · have hbounds := bounds_of_mem_declaredRow hps (by simpa using hroom) hi
      omega
    · obtain ⟨front, x, back, -, hi⟩ := mem_declaredRow.mp hi
      rcases Package.mem_declared.mp hi with ⟨hcall, rfl⟩ | ⟨j, -, -, rfl⟩
      · rw [hfirst hcall]
        rfl
      · exact UInt32.toNat_ofNat_of_lt' (Nat.lt_of_lt_of_le hr hsize)
  · split at hi
    · rename_i hcall
      cases List.mem_singleton.mp hi
      rw [hfirst hcall]
      exact ⟨show 0 ≤ ClassId.programInit.code.toInt by decide, rfl⟩
    · cases hi

/-- **The rows are distinct if and only if no package implements a method twice for a class.** -/
lemma Holds.distinct_finished_iff (h : l.Holds ps) (hsize : l.methods.size ≤ 2 ^ 32)
    (hps : ∀ x ∈ ps, x.2.Valid) (hroom : classBase ps ≤ 2 ^ 31) :
    (∀ row ∈ l.finished, row.Distinct) ↔ ∀ x ∈ ps, ∀ name, x.2.DistinctFor name := by
  -- the class on which the program starts lies before all others
  have hrow : ∀ (r : Nat) (row : MethodRow), l.finished[r]? = some row →
      (row.Distinct ↔ ∀ x ∈ ps, x.2.DistinctFor row.name) := by
    intro r row hrow
    obtain ⟨-, himpl⟩ := h.finished_row hsize hrow
    have hbase : classBase ([] : List (String × Package)) = 3 := rfl
    rw [MethodRow.Distinct, himpl, List.map_append, List.nodup_append,
      nodup_declaredRow hps (by simpa using hroom)]
    refine ⟨fun h => h.1, fun h => ⟨h, by split <;> simp, ?_⟩⟩
    rintro a ha b hb rfl
    obtain ⟨i, hi, rfl⟩ := List.mem_map.mp ha
    obtain ⟨j, hj, heq⟩ := List.mem_map.mp hb
    have hbounds := bounds_of_mem_declaredRow hps (by simpa using hroom) hi
    split at hj
    · cases List.mem_singleton.mp hj
      rw [← heq] at hbounds
      have hone : (starter ps).cls.code.toInt = 1 := rfl
      omega
    · cases hj
  constructor
  · intro hall x hx name
    by_cases hname : name ∈ l.methodNames
    · obtain ⟨r, hr⟩ := List.mem_iff_getElem?.mp hname
      rw [getElem?_methodNames] at hr
      obtain ⟨old, hold, rfl⟩ := Option.map_eq_some_iff.mp hr
      have hget := h.getElem?_finished r
      rw [hold, Option.map_some] at hget
      exact (hrow r _ hget).mp (hall _ (Array.mem_of_getElem? hget)) x hx
    · -- the package has no implementations of a method that is not in the table
      rw [h.named, not_or] at hname
      have hnone : x.2.implementations.toList.filter (x.2.names name) = [] := by
        rw [List.filter_eq_nil_iff]
        intro i _ hi
        exact hname.2 ⟨x, hx, Package.mem_methodNames_of_names hi⟩
      rw [Package.DistinctFor, hnone]
      exact List.nodup_nil
  · intro hall row hmem
    obtain ⟨r, hr⟩ := Array.mem_iff_getElem?.mp hmem
    exact (hrow r row hr).mpr fun x hx => hall x hx row.name

/-! ### Completion -/

/-- **What a completed program consists of.** -/
lemma complete_eq_ok {entry : String} {P : Program} :
    l.complete entry = .ok P ↔ ∃ main package builtins table,
      l.methodId? mainName = some main ∧ l.linked? entry = some package ∧
      builtinTable (withIntClass l.classes) = .ok builtins ∧ pack l.finished = .ok table ∧
      P = {
        globalCount := UInt32.ofNat l.globalCount
        classes := withIntClass l.classes
        methods := table.methods
        implementations := table.implementations
        externals := l.externals
        code := l.code ++ startCode l.completed.toList package.global main
        builtins := builtins } := by
  rw [complete]
  cases l.methodId? mainName with
  | none => simp
  | some main =>
      cases l.linked? entry with
      | none => simp
      | some package =>
          dsimp only
          rw [← finished]
          cases builtinTable (withIntClass l.classes) with
          | error e => simp
          | ok builtins =>
              cases pack l.finished with
              | error e => simp
              | ok table => simp [eq_comm]

/-- When a program can be completed. -/
lemma exists_complete_iff {entry : String} : (∃ P, l.complete entry = .ok P) ↔
    mainName ∈ l.methodNames ∧ (l.linked? entry).isSome = true ∧
      (∃ t, builtinTable (withIntClass l.classes) = .ok t) ∧ ∃ t, pack l.finished = .ok t := by
  have hmain : mainName ∈ l.methodNames ↔ ∃ main, l.methodId? mainName = some main := by
    rw [← Option.ne_none_iff_exists', Ne, methodId?_eq_none, not_not]
  rw [hmain, Option.isSome_iff_exists]
  constructor
  · rintro ⟨P, hP⟩
    obtain ⟨main, package, builtins, table, h₁, h₂, h₃, h₄, -⟩ := complete_eq_ok.mp hP
    exact ⟨⟨main, h₁⟩, ⟨package, h₂⟩, ⟨builtins, h₃⟩, ⟨table, h₄⟩⟩
  · rintro ⟨⟨main, h₁⟩, ⟨package, h₂⟩, ⟨builtins, h₃⟩, ⟨table, h₄⟩⟩
    exact ⟨_, complete_eq_ok.mpr ⟨main, package, builtins, table, h₁, h₂, h₃, h₄, rfl⟩⟩

end Linker

end EffectMachine
