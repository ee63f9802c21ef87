/-
What linking one package does.

Packages are linked one after the other. Everything that a package declares comes to lie behind
what has been linked before, so where it lies can be said from the packages before it.

* `Package.Valid`: what a package refers to is there;
* `classBase`, `codeBase`, `externalBase`: where the next package comes to lie;
* `Package.declared`, `declaredRow`: the implementations of a method, as packages declare them;
* `Linker.Holds`: **the tables say what the packages linked so far declare**;
* `Linker.exists_linkPackage_iff`: **a package can be linked if and only if it is valid**, its
  imports being linked;
* `Linker.Holds.linkPackage`: linking a package adds what it declares.
-/
import EffectMachine.Proofs.InstructionStream
import EffectMachine.Proofs.LinkedProgram
import Mathlib.Data.List.Forall2
import Mathlib.Data.List.Nodup

namespace EffectMachine

/-! ### Valid packages -/

namespace Package

/-- The names of the methods of a package. -/
def methodNames (p : Package) : List String := p.methods.toList.map (·.name)

/-- The names that a package imports, but for itself. -/
def imported (p : Package) : List String := p.imports.toList.filter (· ≠ self)

/-- How many things of a package there are that a relocation of a kind may refer to, where that
is limited. -/
def limit? (p : Package) : RelocationKind → Option Nat
  | .cls => some p.classes.size
  | .method => some p.methods.size
  | .imported => some p.imports.size
  | .code | .global => none

/-- What a package refers to is there: relocations name classes, methods and imports of it and
lie inside its code, and implementations are of methods and classes of it. -/
structure Valid (p : Package) : Prop where
  id : ∀ r ∈ p.relocations, ∀ n, p.limit? r.kind = some n → 0 ≤ r.id.toInt ∧ r.id.toInt < n
  pos : ∀ r ∈ p.relocations, r.pos.toNat + 4 ≤ p.code.size
  method : ∀ i ∈ p.implementations, i.method.index.toNat < p.methods.size
  cls : ∀ i ∈ p.implementations, 0 ≤ i.cls.code.toInt ∧ i.cls.code.toInt < p.classes.size

end Package

lemma indexOf?_eq_some {id : Int32} {i : Nat} : indexOf? id = some i ↔ id.toInt = i := by
  rw [indexOf?]
  split
  · rename_i hle
    rw [Int32.le_iff_toInt_le, Int32.toInt_zero] at hle
    rw [Option.some.injEq]
    omega
  · rename_i hlt
    rw [Int32.le_iff_toInt_le, Int32.toInt_zero] at hlt
    constructor
    · intro h
      cases h
    · omega

/-- Which identifiers are indices below a number. -/
lemma exists_indexOf?_iff {id : Int32} {n : Nat} :
    (∃ i, indexOf? id = some i ∧ i < n) ↔ 0 ≤ id.toInt ∧ id.toInt < n := by
  constructor
  · rintro ⟨i, hi, hlt⟩
    rw [indexOf?_eq_some] at hi
    omega
  · rintro ⟨hle, hlt⟩
    exact ⟨id.toInt.toNat, indexOf?_eq_some.mpr (by omega), by omega⟩

/-! ### Relocation -/

namespace Bases

variable {b : Bases} {p : Package}

/-- A relocation can be resolved if and only if it refers to something that is there. -/
lemma exists_resolve_iff (hmethods : b.methods.size = p.methods.size)
    (hpackages : ∀ name ∈ p.imported, (b.packages name).isSome = true) (r : Relocation) :
    (∃ n, b.resolve p r = .ok n) ↔
      ∀ n, p.limit? r.kind = some n → 0 ≤ r.id.toInt ∧ r.id.toInt < n := by
  -- an identifier that is looked up in a list has to be an index of it
  have hlookup : ∀ {α : Type} (xs : Array α), ((indexOf? r.id).bind (xs[·]?)).isSome = true ↔
      0 ≤ r.id.toInt ∧ r.id.toInt < xs.size := by
    intro α xs
    rw [← exists_indexOf?_iff]
    cases indexOf? r.id with
    | none => simp
    | some i => simp
  rw [resolve]
  cases hkind : r.kind with
  | cls =>
      dsimp only [Package.limit?]
      simp only [Option.some.injEq, forall_eq']
      rw [← exists_indexOf?_iff]
      cases indexOf? r.id with
      | none => simp
      | some i =>
          dsimp only
          split <;> simp_all
  | code => simp [Package.limit?]
  | global => simp [Package.limit?]
  | method =>
      dsimp only [Package.limit?]
      simp only [Option.some.injEq, forall_eq']
      rw [← hmethods, ← hlookup b.methods]
      cases (indexOf? r.id).bind (b.methods[·]?) with
      | none => simp
      | some m => simp
  | imported =>
      dsimp only [Package.limit?]
      simp only [Option.some.injEq, forall_eq']
      rw [← hlookup p.imports]
      cases hname : (indexOf? r.id).bind (p.imports[·]?) with
      | none => simp
      | some name =>
          obtain ⟨i, -, hi⟩ := Option.bind_eq_some_iff.mp hname
          have hmem : name ∈ p.imports.toList := Array.mem_toList_iff.mpr (Array.mem_of_getElem? hi)
          dsimp only
          split
          · simp
          · rename_i hself
            have hsome := hpackages name (List.mem_filter.mpr ⟨hmem, by simpa using hself⟩)
            obtain ⟨global, hglobal⟩ := Option.isSome_iff_exists.mp hsome
            rw [hglobal]
            simp

end Bases

lemma relocate_cons {b : Bases} {p : Package} {r : Relocation} {rs : List Relocation}
    {code code' : Code} (h : relocate b p (r :: rs) code = .ok code') :
    ∃ n code₁, b.resolve p r = .ok n ∧ Word.patch? code r.pos.toNat n.toUInt32 = some code₁ ∧
      relocate b p rs code₁ = .ok code' := by
  rw [relocate] at h
  split at h
  · cases h
  · rename_i n hn
    split at h
    · cases h
    · rename_i code₁ hpatch
      exact ⟨n, code₁, hn, hpatch, h⟩

lemma size_of_relocate {b : Bases} {p : Package} {rs : List Relocation} {code code' : Code}
    (h : relocate b p rs code = .ok code') : code'.size = code.size := by
  induction rs generalizing code with
  | nil =>
      cases h
      rfl
  | cons r rs ih =>
      obtain ⟨n, code₁, -, hpatch, hrest⟩ := relocate_cons h
      rw [ih hrest, Word.size_of_patch? hpatch]

/-- Code can be relocated if and only if every relocation can be resolved and lies inside it. -/
lemma exists_relocate_iff {b : Bases} {p : Package} {rs : List Relocation} {code : Code} :
    (∃ code', relocate b p rs code = .ok code') ↔
      ∀ r ∈ rs, (∃ n, b.resolve p r = .ok n) ∧ r.pos.toNat + 4 ≤ code.size := by
  induction rs generalizing code with
  | nil => simp [relocate]
  | cons r rs ih =>
      rw [relocate, List.forall_mem_cons]
      cases hresolve : b.resolve p r with
      | error e => simp
      | ok n =>
          dsimp only
          cases hpatch : Word.patch? code r.pos.toNat n.toUInt32 with
          | none =>
              rw [Word.patch?] at hpatch
              split at hpatch
              · cases hpatch
              · rename_i hroom
                simp [hroom]
          | some code' =>
              have hroom : r.pos.toNat + 4 ≤ code.size := by
                rw [Word.patch?] at hpatch
                split at hpatch
                · assumption
                · cases hpatch
              dsimp only
              rw [ih, Word.size_of_patch? hpatch]
              simp [hroom]

/-! ### Implementations -/

/-- Where the entry points of a kind come to lie. -/
def Bases.entryBase (b : Bases) : ImplKind → Nat
  | .external => b.externals
  | .standard | .handler => b.code

/-- The implementation of a package as it is linked, its method being given. -/
def Bases.place (b : Bases) (m : MethodId) (i : Implementation) : Implementation :=
  ⟨⟨i.cls.code + Int32.ofNat b.classes⟩, m, i.kind, i.entry + UInt32.ofNat (b.entryBase i.kind)⟩

lemma relocateImplementation_eq_ok {b : Bases} {p : Package} {i i' : Implementation} :
    relocateImplementation b p i = .ok i' ↔
      (0 ≤ i.cls.code.toInt ∧ i.cls.code.toInt < p.classes.size) ∧
        ∃ m, b.methods[i.method.index.toNat]? = some m ∧ i' = b.place m i := by
  rw [relocateImplementation, ← exists_indexOf?_iff]
  cases b.methods[i.method.index.toNat]? with
  | none => simp
  | some m =>
      dsimp only
      have hindex : i.cls.index? = indexOf? i.cls.code := rfl
      rw [hindex]
      cases indexOf? i.cls.code with
      | none => simp
      | some index =>
          dsimp only
          split
          · rename_i hlt
            obtain ⟨cls, method, kind, entry⟩ := i
            cases kind <;> simp [Bases.place, Bases.entryBase, hlt, eq_comm]
          · rename_i hlt
            simp [hlt]

namespace Linker

/-- The implementations of a list that are of the method in a place of the table, as linked. -/
def placedIn (b : Bases) (r : Nat) (is : List Implementation) : List Implementation :=
  is.filterMap fun i => (b.methods[i.method.index.toNat]?).bind fun m =>
    if m.index.toNat = r then some (b.place m i) else none

/-- Implementations can be added if and only if they are of methods and classes of the
package. -/
lemma exists_addImplementations_iff {b : Bases} {p : Package} {is : List Implementation}
    {l : Linker} : (∃ l', addImplementations b p is l = .ok l') ↔
      ∀ i ∈ is, (0 ≤ i.cls.code.toInt ∧ i.cls.code.toInt < p.classes.size) ∧
        i.method.index.toNat < b.methods.size := by
  induction is generalizing l with
  | nil => simp [addImplementations]
  | cons i is ih =>
      rw [addImplementations, List.forall_mem_cons]
      cases hi : relocateImplementation b p i with
      | error e =>
          have hnot : ¬ ∃ i', relocateImplementation b p i = .ok i' := by simp [hi]
          simp only [relocateImplementation_eq_ok] at hnot
          simp only [reduceCtorEq, exists_false, false_iff, not_and]
          rintro ⟨hcls, hmethod⟩
          exact absurd ⟨_, hcls, _, Array.getElem?_eq_getElem hmethod, rfl⟩ hnot
      | ok i' =>
          obtain ⟨hcls, m, hm, -⟩ := relocateImplementation_eq_ok.mp hi
          obtain ⟨hlt, -⟩ := Array.getElem?_eq_some_iff.mp hm
          dsimp only
          rw [ih]
          simp [hcls, hlt]

/-- **Adding implementations** adds to each method those that are of it. -/
lemma addImplementations_eq_ok {b : Bases} {p : Package} {is : List Implementation}
    {l l' : Linker} (h : addImplementations b p is l = .ok l') :
    ∃ rows, l' = { l with methods := rows } ∧ rows.size = l.methods.size ∧
      ∀ (r : Nat) row, l.methods[r]? = some row → ∃ row', rows[r]? = some row' ∧
        row'.name = row.name ∧
        row'.implementations.toList = row.implementations.toList ++ placedIn b r is := by
  induction is generalizing l with
  | nil =>
      cases h
      exact ⟨_, rfl, rfl, fun r row hrow => ⟨row, hrow, rfl, by simp [placedIn]⟩⟩
  | cons i is ih =>
      rw [addImplementations] at h
      cases hi : relocateImplementation b p i with
      | error e =>
          rw [hi] at h
          cases h
      | ok i' =>
          rw [hi] at h
          obtain ⟨-, m, hm, rfl⟩ := relocateImplementation_eq_ok.mp hi
          obtain ⟨rows, rfl, hsize, hrows⟩ := ih h
          refine ⟨rows, rfl, ?_, fun r row hrow => ?_⟩
          · rw [hsize, addImplementation]
            exact Array.size_modify ..
          · have hmodify : (addImplementation (b.place m i) l).methods[r]? =
                some (if m.index.toNat = r then
                  { row with implementations := row.implementations.push (b.place m i) }
                else row) := by
              rw [addImplementation]
              dsimp only [Bases.place]
              rw [Array.getElem?_modify, hrow]
              split <;> rfl
            obtain ⟨row', hrow', hname, himpl⟩ := hrows r _ hmodify
            refine ⟨row', hrow', ?_, ?_⟩
            · rw [hname]
              split <;> rfl
            · rw [himpl, placedIn, placedIn, List.filterMap_cons, hm]
              dsimp only [Option.bind_some]
              split
              · simp
              · rfl

/-! ### Methods -/

/-- The names of the methods in the table. -/
def methodNames (l : Linker) : List String := l.methods.toList.map (·.name)

lemma getElem?_methodNames {l : Linker} {r : Nat} :
    l.methodNames[r]? = (l.methods[r]?).map (·.name) := by
  rw [methodNames, List.getElem?_map, Array.getElem?_toList]

lemma methodId?_eq_some {l : Linker} {name : String} {m : MethodId}
    (h : l.methodId? name = some m) :
    ∃ r, l.methodNames[r]? = some name ∧ m = ⟨UInt32.ofNat r⟩ := by
  rw [methodId?] at h
  obtain ⟨r, hr, rfl⟩ := Option.map_eq_some_iff.mp h
  obtain ⟨hlt, hname, -⟩ := Array.findIdx?_eq_some_iff_getElem.mp hr
  refine ⟨r, ?_, rfl⟩
  rw [getElem?_methodNames, Array.getElem?_eq_getElem hlt, Option.map_some]
  simpa using hname

lemma methodId?_eq_none {l : Linker} {name : String} :
    l.methodId? name = none ↔ name ∉ l.methodNames := by
  rw [methodId?, Option.map_eq_none_iff, Array.findIdx?_eq_none_iff, methodNames, List.mem_map]
  simp [eq_comm]

/-- The table has new methods behind the others, which have no implementations yet. -/
structure Extends (l l' : Linker) : Prop where
  exists_fresh : ∃ fresh : List MethodRow, l' = { l with methods := l.methods ++ fresh.toArray } ∧
    ∀ row ∈ fresh, row.implementations = #[]
  nodup : l.methodNames.Nodup → l'.methodNames.Nodup

namespace Extends

variable {l l' l'' : Linker}

lemma refl (l : Linker) : Extends l l := ⟨⟨[], by simp, by simp⟩, id⟩

lemma trans (h : Extends l l') (h' : Extends l' l'') : Extends l l'' := by
  obtain ⟨⟨fresh, rfl, hfresh⟩, hnodup⟩ := h
  obtain ⟨⟨fresh', rfl, hfresh'⟩, hnodup'⟩ := h'
  refine ⟨⟨fresh ++ fresh', ?_, fun row hrow => ?_⟩, fun h => hnodup' (hnodup h)⟩
  · simp [Array.append_assoc]
  · exact (List.mem_append.mp hrow).elim (hfresh row) (hfresh' row)

lemma methodNames_prefix (h : Extends l l') : l.methodNames <+: l'.methodNames := by
  obtain ⟨⟨fresh, rfl, -⟩, -⟩ := h
  simp [methodNames]

lemma getElem? (h : Extends l l') {r : Nat} {name : String} (hr : l.methodNames[r]? = some name) :
    l'.methodNames[r]? = some name := by
  obtain ⟨rest, hrest⟩ := h.methodNames_prefix
  rw [← hrest]
  exact List.getElem?_append_left (List.getElem?_eq_some_iff.mp hr).1 ▸ hr

end Extends

lemma internMethod_spec (name : String) (l : Linker) :
    Extends l (internMethod name l).2 ∧
      (∀ n, n ∈ (internMethod name l).2.methodNames ↔ n ∈ l.methodNames ∨ n = name) ∧
      ∃ r, (internMethod name l).2.methodNames[r]? = some name ∧
        (internMethod name l).1 = ⟨UInt32.ofNat r⟩ := by
  rw [internMethod]
  cases hfound : l.methodId? name with
  | some m =>
      obtain ⟨r, hr, rfl⟩ := methodId?_eq_some hfound
      refine ⟨.refl l, fun n => ?_, r, hr, rfl⟩
      have hmem := List.mem_of_getElem? hr
      constructor
      · exact .inl
      · rintro (hn | rfl)
        · exact hn
        · exact hmem
  | none =>
      have hnew := methodId?_eq_none.mp hfound
      have hnames : methodNames { l with methods := l.methods.push { name } } =
          l.methodNames ++ [name] := by simp [methodNames]
      refine ⟨⟨⟨[{ name }], by simp, by simp⟩, fun hnodup => ?_⟩, fun n => ?_, l.methods.size, ?_,
        rfl⟩
      · rw [hnames]
        exact List.nodup_append.mpr ⟨hnodup, by simp, by
          rintro a ha b hb rfl
          cases List.mem_singleton.mp hb
          exact hnew ha⟩
      · rw [hnames, List.mem_append, List.mem_singleton]
      · rw [hnames]
        simp [methodNames]

/-- **Methods of one name get one place in the table.** -/
lemma internMethods_spec (names : List String) (l : Linker) :
    Extends l (internMethods names l).2 ∧
      (∀ n, n ∈ (internMethods names l).2.methodNames ↔ n ∈ l.methodNames ∨ n ∈ names) ∧
      List.Forall₂ (fun name m => ∃ r, (internMethods names l).2.methodNames[r]? = some name ∧
        m = ⟨UInt32.ofNat r⟩) names (internMethods names l).1 := by
  induction names generalizing l with
  | nil => exact ⟨.refl l, by simp [internMethods], .nil⟩
  | cons name names ih =>
      obtain ⟨hfirst, hmem, r, hr, hm⟩ := internMethod_spec name l
      obtain ⟨hrest, hmem', hplaces⟩ := ih (internMethod name l).2
      rw [internMethods]
      refine ⟨hfirst.trans hrest, fun n => ?_, .cons ⟨r, hrest.getElem? hr, hm⟩ hplaces⟩
      rw [hmem', hmem, List.mem_cons, or_assoc]

end Linker

/-! ### Where packages come to lie -/

/-- The number of classes before the next package: three reserved ones, and for each package one
to initialise it and its own. -/
def classBase (ps : List (String × Package)) : Nat :=
  3 + (ps.map fun x => x.2.classes.size + 1).sum

/-- The number of code bytes before the next package: the entry code, and that of each
package. -/
def codeBase (ps : List (String × Package)) : Nat :=
  12 + (ps.map fun x => x.2.code.size).sum

/-- The number of natives that the packages name. -/
def externalBase (ps : List (String × Package)) : Nat :=
  (ps.map fun x => x.2.externals.size).sum

/-- Where the entry points of a kind come to lie. -/
def entryBase (ps : List (String × Package)) : ImplKind → Nat
  | .external => externalBase ps
  | .standard | .handler => codeBase ps

/-- The implementation that initialises the next package. -/
def initialiser (ps : List (String × Package)) : Implementation :=
  ⟨.ofIndex (classBase ps), .call, .standard, UInt32.ofNat (codeBase ps)⟩

namespace Package

/-- Whether an implementation is of the method of a name. -/
def names (p : Package) (name : String) (i : Implementation) : Bool :=
  (p.methods[i.method.index.toNat]?).any (·.name = name)

lemma mem_methodNames_of_names {p : Package} {name : String} {i : Implementation}
    (h : p.names name i = true) : name ∈ p.methodNames := by
  rw [names, Option.any_eq_true] at h
  obtain ⟨decl, hdecl, hname⟩ := h
  refine List.mem_map.mpr ⟨decl, Array.mem_toList_iff.mpr (Array.mem_of_getElem? hdecl), ?_⟩
  simpa using hname

/-- The implementation as it is linked, behind other packages. -/
def placed (before : List (String × Package)) (m : MethodId) (i : Implementation) :
    Implementation :=
  ⟨⟨i.cls.code + Int32.ofNat (classBase before + 1)⟩, m, i.kind,
    i.entry + UInt32.ofNat (entryBase before i.kind)⟩

/-- The implementations that a package, behind others, adds to the method of a name. -/
def declared (p : Package) (before : List (String × Package)) (name : String) (m : MethodId) :
    List Implementation :=
  (if name = Linker.callName then [initialiser before] else []) ++
    (p.implementations.toList.filter (p.names name)).map (placed before m)

end Package

/-- The implementations that packages, behind others, add to the method of a name. -/
def declaredRow (name : String) (m : MethodId) :
    List (String × Package) → List (String × Package) → List Implementation
  | _, [] => []
  | before, x :: ps => x.2.declared before name m ++ declaredRow name m (before ++ [x]) ps

/-- The last package adds what it declares. -/
lemma declaredRow_concat (name : String) (m : MethodId) (before ps : List (String × Package))
    (x : String × Package) : declaredRow name m before (ps ++ [x]) =
      declaredRow name m before ps ++ x.2.declared (before ++ ps) name m := by
  induction ps generalizing before with
  | nil => simp [declaredRow]
  | cons y ps ih => simp [declaredRow, ih]

lemma mem_declaredRow {name : String} {m : MethodId} {before ps : List (String × Package)}
    {i : Implementation} : i ∈ declaredRow name m before ps ↔ ∃ front x back,
      ps = front ++ x :: back ∧ i ∈ x.2.declared (before ++ front) name m := by
  induction ps generalizing before with
  | nil => simp [declaredRow]
  | cons y ps ih =>
      rw [declaredRow, List.mem_append, ih]
      constructor
      · rintro (hi | ⟨front, x, back, rfl, hi⟩)
        · exact ⟨[], y, ps, rfl, by rwa [List.append_nil]⟩
        · exact ⟨y :: front, x, back, rfl, by rwa [List.append_assoc, List.singleton_append] at hi⟩
      · rintro ⟨front, x, back, hsplit, hi⟩
        cases front with
        | nil =>
            cases hsplit
            exact .inl (by rwa [List.append_nil] at hi)
        | cons z front =>
            cases hsplit
            exact .inr ⟨front, x, back, rfl, by rwa [List.append_assoc, List.singleton_append]⟩

/-- Packages that do not name a method add nothing to it. -/
lemma declaredRow_eq_nil {name : String} {ps : List (String × Package)}
    (hcall : name ≠ Linker.callName) (hps : ∀ x ∈ ps, name ∉ x.2.methodNames) (m : MethodId)
    (before : List (String × Package)) : declaredRow name m before ps = [] := by
  refine List.eq_nil_iff_forall_not_mem.mpr fun i hmem => ?_
  obtain ⟨front, x, back, rfl, hi⟩ := mem_declaredRow.mp hmem
  simp only [Package.declared, if_neg hcall, List.nil_append, List.mem_map] at hi
  obtain ⟨j, hj, -⟩ := hi
  exact hps x (List.mem_append_right _ List.mem_cons_self)
    (Package.mem_methodNames_of_names (List.mem_filter.mp hj).2)

namespace Linker

/-! ### Appending a package -/

/-- The state in which the methods of a package have their places. -/
def interned (p : Package) (l : Linker) : Linker := (internMethods p.methodNames l).2

/-- Where the parts of a package come to lie when it is appended. -/
def bases (p : Package) (packageGlobal : Nat) (l : Linker) : Bases where
  classes := (l.interned p).classes.size
  code := (l.interned p).code.size
  externals := (l.interned p).externals.size
  globals := (l.interned p).globalCount
  packageGlobal := packageGlobal
  methods := (internMethods p.methodNames l).1.toArray
  packages name := ((l.interned p).linked? name).map (·.global)

lemma size_bases_methods (p : Package) (packageGlobal : Nat) (l : Linker) :
    (l.bases p packageGlobal).methods.size = p.methods.size := by
  have hlength := (internMethods_spec p.methodNames l).2.2.length_eq
  rw [bases, List.size_toArray, ← hlength, Package.methodNames, List.length_map,
    Array.length_toList]

lemma linked?_interned (p : Package) (l : Linker) (name : String) :
    (l.interned p).linked? name = l.linked? name := by
  obtain ⟨fresh, heq, -⟩ := (internMethods_spec p.methodNames l).1.exists_fresh
  rw [interned, heq]
  rfl

/-- **A package can be appended if and only if it is valid**, its imports being linked. -/
lemma exists_append_iff {p : Package} {l : Linker} (packageGlobal : Nat)
    (himports : ∀ name ∈ p.imported, (l.linked? name).isSome = true) :
    (∃ l', l.append p packageGlobal = .ok l') ↔ p.Valid := by
  have happend : (∃ l', l.append p packageGlobal = .ok l') ↔
      (∃ code, relocate (l.bases p packageGlobal) p p.relocations.toList p.code = .ok code) ∧
        ∃ l', addImplementations (l.bases p packageGlobal) p p.implementations.toList
          (l.interned p) = .ok l' := by
    constructor
    · rintro ⟨l', h⟩
      rw [append] at h
      dsimp only at h
      split at h
      · cases h
      · rename_i code hcode
        split at h
        · cases h
        · rename_i l₁ hadd
          exact ⟨⟨code, hcode⟩, l₁, hadd⟩
    · rintro ⟨⟨code, hcode⟩, l₁, hadd⟩
      rw [bases, interned, Package.methodNames] at hcode hadd
      rw [append]
      dsimp only at hcode hadd ⊢
      rw [hcode]
      dsimp only
      rw [hadd]
      exact ⟨_, rfl⟩
  have hpackages : ∀ name ∈ p.imported,
      ((l.bases p packageGlobal).packages name).isSome = true := fun name hname => by
    show (((l.interned p).linked? name).map (·.global)).isSome = true
    rw [linked?_interned, Option.isSome_map]
    exact himports name hname
  rw [happend, exists_relocate_iff, exists_addImplementations_iff, size_bases_methods]
  constructor
  · rintro ⟨hrelocations, himplementations⟩
    refine ⟨fun r hr => ?_, fun r hr => ?_, fun i hi => ?_, fun i hi => ?_⟩
    · exact (Bases.exists_resolve_iff (size_bases_methods ..) hpackages r).mp
        (hrelocations r (Array.mem_toList_iff.mpr hr)).1
    · exact (hrelocations r (Array.mem_toList_iff.mpr hr)).2
    · exact (himplementations i (Array.mem_toList_iff.mpr hi)).2
    · exact (himplementations i (Array.mem_toList_iff.mpr hi)).1
  · rintro ⟨hid, hpos, hmethod, hcls⟩
    refine ⟨fun r hr => ?_, fun i hi => ?_⟩
    · have hr := Array.mem_toList_iff.mp hr
      exact ⟨(Bases.exists_resolve_iff (size_bases_methods ..) hpackages r).mpr (hid r hr),
        hpos r hr⟩
    · have hi := Array.mem_toList_iff.mp hi
      exact ⟨hcls i hi, hmethod i hi⟩

/-- The method of a package in the table. -/
lemma getElem?_bases_methods {p : Package} {packageGlobal : Nat} {l : Linker} {index : Nat}
    {m : MethodId} (h : (l.bases p packageGlobal).methods[index]? = some m) :
    ∃ decl r, p.methods[index]? = some decl ∧
      (l.interned p).methodNames[r]? = some decl.name ∧ m = ⟨UInt32.ofNat r⟩ := by
  have hplaces := (internMethods_spec p.methodNames l).2.2
  have hm : (internMethods p.methodNames l).1[index]? = some m := by
    rwa [bases, List.getElem?_toArray] at h
  obtain ⟨hlt, rfl⟩ := List.getElem?_eq_some_iff.mp hm
  have hlt' : index < p.methodNames.length := hplaces.length_eq ▸ hlt
  obtain ⟨r, hr, hm⟩ := (List.forall₂_iff_get.mp hplaces).2 index hlt' hlt
  have hsize : index < p.methods.size := by
    rwa [Package.methodNames, List.length_map, Array.length_toList] at hlt'
  refine ⟨p.methods[index], r, Array.getElem?_eq_getElem hsize, ?_, hm⟩
  rw [interned, hr]
  simp [Package.methodNames]

/-- The implementations that are added to a method are those of its name. -/
lemma placedIn_eq {p : Package} {packageGlobal : Nat} {l : Linker}
    (hnodup : l.methodNames.Nodup) (hsize : (l.interned p).methods.size ≤ 2 ^ 32)
    {is : List Implementation} (hvalid : ∀ i ∈ is, i.method.index.toNat < p.methods.size) {r : Nat}
    {name : String} (hr : (l.interned p).methodNames[r]? = some name) :
    placedIn (l.bases p packageGlobal) r is =
      (is.filter (p.names name)).map ((l.bases p packageGlobal).place ⟨UInt32.ofNat r⟩) := by
  have hnodup' := (internMethods_spec p.methodNames l).1.nodup hnodup
  rw [placedIn, ← List.filterMap_eq_filter, List.map_filterMap]
  refine List.filterMap_congr fun i hi => ?_
  have hlt : i.method.index.toNat < (l.bases p packageGlobal).methods.size :=
    size_bases_methods p packageGlobal l ▸ hvalid i hi
  obtain ⟨decl, r', hdecl, hr', hm⟩ := getElem?_bases_methods (Array.getElem?_eq_getElem hlt)
  have hbound : r' < (l.interned p).methods.size := by
    have hlength := (List.getElem?_eq_some_iff.mp hr').1
    rwa [methodNames, List.length_map, Array.length_toList] at hlength
  have hindex : (UInt32.ofNat r').toNat = r' := UInt32.toNat_ofNat_of_lt' (by
    rw [UInt32.size]
    omega)
  have hsame : r' = r ↔ decl.name = name := by
    constructor
    · rintro rfl
      exact Option.some.inj (hr'.symm.trans hr)
    · rintro rfl
      exact (List.getElem?_inj (List.getElem?_eq_some_iff.mp hr').1 hnodup').mp (hr'.trans hr.symm)
  have hnames : p.names name i = decide (decl.name = name) := by
    rw [Package.names, hdecl, Option.any_some]
  rw [Array.getElem?_eq_getElem hlt, hm, Option.bind_some, hindex, Option.guard, hnames]
  by_cases hname : decl.name = name
  · rw [if_pos (hsame.mpr hname), hsame.mpr hname, decide_eq_true hname]
    rfl
  · rw [if_neg fun h => hname (hsame.mp h), decide_eq_false hname]
    rfl

/-- **Appending a package** adds its parts behind the others, and its implementations to their
methods. -/
lemma append_eq_ok {p : Package} {packageGlobal : Nat} {l l' : Linker}
    (h : l.append p packageGlobal = .ok l') :
    ∃ rows code, l' = { l with
        methods := rows
        globalCount := l.globalCount + ownGlobalCount p.relocations.toList
        externals := l.externals ++ p.externals
        classes := l.classes ++ p.classes
        code := l.code ++ code } ∧
      code.size = p.code.size ∧ rows.size = (l.interned p).methods.size ∧
      (∀ i ∈ p.implementations.toList, i.method.index.toNat < p.methods.size) ∧
      ∀ (r : Nat) row, (l.interned p).methods[r]? = some row → ∃ row', rows[r]? = some row' ∧
        row'.name = row.name ∧ row'.implementations.toList = row.implementations.toList ++
          placedIn (l.bases p packageGlobal) r p.implementations.toList := by
  obtain ⟨fresh, hinterned, -⟩ := (internMethods_spec p.methodNames l).1.exists_fresh
  rw [append] at h
  dsimp only at h
  split at h
  · cases h
  · rename_i code hcode
    split at h
    · cases h
    · rename_i l₁ hadd
      obtain ⟨rows, rfl, hsize, hrows⟩ := addImplementations_eq_ok hadd
      cases h
      refine ⟨rows, code, ?_, size_of_relocate hcode, hsize, fun i hi => ?_, hrows⟩
      · have heq : (internMethods (p.methods.toList.map (·.name)) l).2 =
          { l with methods := l.methods ++ fresh.toArray } := hinterned
        rw [heq]
      · rw [← size_bases_methods p packageGlobal l]
        exact (exists_addImplementations_iff.mp ⟨_, hadd⟩ i hi).2

/-- Appending a package leaves the names of the methods as they are when it has its methods in the
table. -/
lemma methodNames_of_append {p : Package} {packageGlobal : Nat} {l l' : Linker}
    (h : l.append p packageGlobal = .ok l') : l'.methodNames = (l.interned p).methodNames := by
  obtain ⟨rows, code, rfl, -, hsize, -, hrows⟩ := append_eq_ok h
  refine List.ext_getElem? fun r => ?_
  rw [getElem?_methodNames, getElem?_methodNames]
  dsimp only
  cases hrow : (l.interned p).methods[r]? with
  | none =>
      rw [Array.getElem?_eq_none_iff] at hrow
      rw [Array.getElem?_eq_none (by omega)]
  | some row =>
      obtain ⟨row', hrow', hname, -⟩ := hrows r row hrow
      rw [hrow', Option.map_some, Option.map_some, hname]

/-- The state in which a package has its class and its global, and the method that enters
closures is implemented for the class. -/
def started (l : Linker) : Linker :=
  addImplementation ⟨.ofIndex l.classes.size, .call, .standard, UInt32.ofNat l.code.size⟩
    { l with
      globalCount := l.globalCount + 1
      classes := l.classes.push ⟨"PackageInit", .user, 0⟩ }

/-- **A package can be linked if and only if it is valid**, its imports being linked. -/
lemma exists_linkPackage_iff {p : Package} {l : Linker} (name : String)
    (himports : ∀ name ∈ p.imported, (l.linked? name).isSome = true) :
    (∃ l', l.linkPackage name p = .ok l') ↔ p.Valid := by
  rw [← exists_append_iff (l := l.started) l.globalCount himports]
  rw [linkPackage]
  dsimp only
  rw [← started]
  cases l.started.append p l.globalCount with
  | error e => simp
  | ok l' => simp

lemma linkPackage_eq_ok {name : String} {p : Package} {l l' : Linker}
    (h : l.linkPackage name p = .ok l') :
    ∃ l₁, l.started.append p l.globalCount = .ok l₁ ∧ l' = record (.linkedPackage name l.globalCount
        (.ofIndex l.classes.size)) { l₁ with
      completed := l₁.completed.push ⟨name, l.globalCount, .ofIndex l.classes.size⟩
      inProgress := l₁.inProgress.dropLast } := by
  rw [linkPackage] at h
  dsimp only at h
  rw [← started] at h
  split at h
  · cases h
  · rename_i l₁ happend
    cases h
    exact ⟨l₁, happend, rfl⟩

/-- **The tables say what the packages linked so far declare.** Methods have their
implementations as long as identifiers can tell them apart. -/
structure Holds (l : Linker) (ps : List (String × Package)) : Prop where
  classes : l.classes.toList =
    [⟨"Empty", .user, 0⟩, ⟨"ProgramInit", .user, 0⟩, ⟨"Continuation", .continuation, 1⟩] ++
      ps.flatMap fun x => ⟨"PackageInit", .user, 0⟩ :: x.2.classes.toList
  externals : l.externals.toList = ps.flatMap fun x => x.2.externals.toList
  code : l.code.size = codeBase ps
  completed : l.completed.toList.map (·.name) = ps.map (·.1)
  nodup : l.methodNames.Nodup
  call : l.methodNames[0]? = some callName
  named : ∀ name, name ∈ l.methodNames ↔
    name = callName ∨ ∃ x ∈ ps, name ∈ x.2.methodNames
  rows : l.methods.size ≤ 2 ^ 32 → ∀ (r : Nat) row, l.methods[r]? = some row →
    row.implementations.toList = declaredRow row.name ⟨UInt32.ofNat r⟩ [] ps

lemma holds_fresh (journal : Journal) : (fresh journal).Holds [] where
  classes := rfl
  externals := rfl
  code := rfl
  completed := rfl
  nodup := by simp [fresh, methodNames]
  call := rfl
  named name := by simp [fresh, methodNames]
  rows _ r row hrow := by
    have hmem := Array.mem_of_getElem? hrow
    simp only [fresh, List.mem_toArray, List.mem_singleton] at hmem
    rw [hmem]
    rfl

namespace Holds

variable {l l' : Linker} {ps : List (String × Package)}

/-- The tables depend neither on the reports nor on what is in progress. -/
lemma of_tables (h : l.Holds ps) (inProgress : List String) (journal : Journal) :
    Holds { l with inProgress := inProgress, journal := journal } ps :=
  ⟨h.classes, h.externals, h.code, h.completed, h.nodup, h.call, h.named, h.rows⟩

lemma size_classes (h : l.Holds ps) : l.classes.size = classBase ps := by
  rw [← Array.length_toList, h.classes, classBase, List.length_append, List.length_flatMap]
  rfl

lemma size_externals (h : l.Holds ps) : l.externals.size = externalBase ps := by
  rw [← Array.length_toList, h.externals, externalBase, List.length_flatMap]
  simp

/-- A package has been linked if it is one of them. -/
lemma linked?_isSome (h : l.Holds ps) (name : String) :
    (l.linked? name).isSome = true ↔ name ∈ ps.map (·.1) := by
  rw [← h.completed, linked?, Array.find?_isSome, List.mem_map]
  simp

/-- An implementation of the method that enters closures is added to the method of that name. -/
lemma getElem?_addImplementation (h : l.Holds ps) {i : Implementation} (hi : i.method = .call)
    (r : Nat) : (l.addImplementation i).methods[r]? =
      (l.methods[r]?).map fun row => { row with implementations := row.implementations ++
        (if row.name = callName then #[i] else #[]) } := by
  rw [addImplementation, hi]
  dsimp only
  rw [Array.getElem?_modify]
  cases hrow : l.methods[r]? with
  | none => split <;> rfl
  | some row =>
      -- the method that enters closures is the first one
      have hname : l.methodNames[r]? = some row.name := by
        rw [getElem?_methodNames, hrow, Option.map_some]
      have hfirst : MethodId.call.index.toNat = r ↔ row.name = callName := by
        show 0 = r ↔ _
        constructor
        · rintro rfl
          exact Option.some.inj (hname.symm.trans h.call)
        · intro heq
          rw [heq] at hname
          exact ((List.getElem?_inj (List.getElem?_eq_some_iff.mp hname).1 h.nodup).mp
            (hname.trans h.call.symm)).symm
      by_cases hcall : row.name = callName
      · rw [if_pos (hfirst.mpr hcall), Option.map_some, Option.map_some, if_pos hcall]
        rfl
      · rw [if_neg fun h => hcall (hfirst.mp h), Option.map_some, if_neg hcall, Array.append_empty]

/-- The methods in the table when a package has its class. -/
lemma getElem?_started (h : l.Holds ps) (r : Nat) : l.started.methods[r]? =
    (l.methods[r]?).map fun row => { row with implementations := row.implementations ++
      (if row.name = callName then #[initialiser ps] else #[]) } := by
  rw [← h.getElem?_addImplementation rfl r, started, h.size_classes, h.code]
  rfl

lemma methodNames_started (h : l.Holds ps) : l.started.methodNames = l.methodNames := by
  refine List.ext_getElem? fun r => ?_
  rw [getElem?_methodNames, getElem?_methodNames, h.getElem?_started, Option.map_map]
  rfl

/-- A method in the table when a package has its methods there. -/
lemma exists_interned (h : l.Holds ps) {p : Package} {r : Nat} {row : MethodRow}
    (hrow : (l.started.interned p).methods[r]? = some row)
    (hsize : (l.started.interned p).methods.size ≤ 2 ^ 32) :
    row.implementations.toList = declaredRow row.name ⟨UInt32.ofNat r⟩ [] ps ++
      if row.name = callName then [initialiser ps] else [] := by
  obtain ⟨hextends, -⟩ := internMethods_spec p.methodNames l.started
  obtain ⟨fresh, hinterned, hfresh⟩ := hextends.exists_fresh
  have hnodup : (l.started.interned p).methodNames.Nodup :=
    hextends.nodup (h.methodNames_started ▸ h.nodup)
  rw [interned, hinterned] at hrow hsize
  dsimp only at hrow hsize
  by_cases hold : r < l.started.methods.size
  · rw [Array.getElem?_append_left hold, h.getElem?_started] at hrow
    obtain ⟨old, hget, rfl⟩ := Option.map_eq_some_iff.mp hrow
    have hlength : l.methods.size ≤ 2 ^ 32 := by
      have heq := congrArg List.length h.methodNames_started
      rw [methodNames, methodNames, List.length_map, List.length_map, Array.length_toList,
        Array.length_toList] at heq
      rw [Array.size_append] at hsize
      omega
    rw [Array.toList_append, h.rows hlength r old hget]
    dsimp only
    split <;> rfl
  · -- a new method has a name that none of the packages before has
    rw [Array.getElem?_append_right (Nat.le_of_not_lt hold)] at hrow
    have hmem : row ∈ fresh := List.mem_toArray.mp (Array.mem_of_getElem? hrow)
    have hnew : row.name ∉ l.methodNames := by
      rw [interned, hinterned, methodNames, Array.toList_append, List.map_append,
        ← methodNames, h.methodNames_started] at hnodup
      exact fun hin => (List.nodup_append.mp hnodup).2.2 _ hin _ (List.mem_map_of_mem hmem) rfl
    rw [h.named, not_or] at hnew
    rw [hfresh row hmem, if_neg hnew.1, declaredRow_eq_nil hnew.1 fun x hx hname =>
      hnew.2 ⟨x, hx, hname⟩]
    rfl

/-- The parts of a package come to lie behind the packages before. -/
lemma bases_started (h : l.Holds ps) (p : Package) (packageGlobal : Nat) :
    (l.started.bases p packageGlobal).classes = classBase ps + 1 ∧
      (l.started.bases p packageGlobal).code = codeBase ps ∧
      (l.started.bases p packageGlobal).externals = externalBase ps := by
  obtain ⟨fresh, hinterned, -⟩ := (internMethods_spec p.methodNames l.started).1.exists_fresh
  have hinterned : l.started.interned p =
    { l.started with methods := l.started.methods ++ fresh.toArray } := hinterned
  rw [bases, hinterned]
  refine ⟨?_, h.code, h.size_externals⟩
  show (l.classes.push _).size = _
  rw [Array.size_push, h.size_classes]

/-- What a package declares comes to lie behind the packages before. -/
lemma place_bases (h : l.Holds ps) (p : Package) (packageGlobal : Nat) :
    (l.started.bases p packageGlobal).place = Package.placed ps := by
  obtain ⟨hclasses, hcode, hexternals⟩ := h.bases_started p packageGlobal
  funext m i
  rw [Bases.place, Package.placed, hclasses]
  cases i.kind with
  | external => rw [Bases.entryBase, entryBase, hexternals]
  | standard => rw [Bases.entryBase, entryBase, hcode]
  | handler => rw [Bases.entryBase, entryBase, hcode]

/-- **Linking a package adds what it declares.** -/
lemma linkPackage {name : String} {p : Package} (h : l.Holds ps)
    (hl : l.linkPackage name p = .ok l') : l'.Holds (ps ++ [(name, p)]) := by
  obtain ⟨l₁, happend, rfl⟩ := linkPackage_eq_ok hl
  obtain ⟨rows, code, rfl, hcode, hsize, hvalid, hrows⟩ := append_eq_ok happend
  obtain ⟨hextends, hmem, -⟩ := internMethods_spec p.methodNames l.started
  have hnodup := h.methodNames_started ▸ h.nodup
  have hnodup' : (l.started.interned p).methodNames.Nodup := hextends.nodup hnodup
  have hnames : rows.toList.map (·.name) = (l.started.interned p).methodNames :=
    methodNames_of_append happend
  refine ⟨?_, ?_, ?_, ?_, ?_, ?_, fun n => ?_, fun hbound r row' hrow' => ?_⟩
  · show (l.classes.push _ ++ p.classes).toList = _
    rw [Array.toList_append, Array.toList_push, h.classes]
    simp
  · show (l.externals ++ p.externals).toList = _
    rw [Array.toList_append, h.externals]
    simp
  · show (l.code ++ code).size = _
    rw [Array.size_append, h.code, hcode, codeBase, codeBase]
    simp [Nat.add_assoc]
  · show (l.completed.push _).toList.map (·.name) = _
    rw [Array.toList_push, List.map_append, h.completed]
    simp
  · show (rows.toList.map (·.name)).Nodup
    rw [hnames]
    exact hnodup'
  · show (rows.toList.map (·.name))[0]? = _
    rw [hnames]
    exact hextends.getElem? (h.methodNames_started ▸ h.call)
  · show n ∈ rows.toList.map (·.name) ↔ _
    rw [hnames, interned, hmem, h.methodNames_started, h.named]
    simp [or_assoc, or_and_right, exists_or]
  · have hbound : rows.size ≤ 2 ^ 32 := hbound
    have hrow' : rows[r]? = some row' := hrow'
    have hlt : r < (l.started.interned p).methods.size :=
      hsize ▸ (Array.getElem?_eq_some_iff.mp hrow').1
    obtain ⟨row'', hrow'', hname, himpl⟩ := hrows r _ (Array.getElem?_eq_getElem hlt)
    cases hrow'.symm.trans hrow''
    have hplace : (l.started.interned p).methodNames[r]? = some row'.name := by
      rw [getElem?_methodNames, Array.getElem?_eq_getElem hlt, Option.map_some, hname]
    rw [himpl, h.exists_interned (Array.getElem?_eq_getElem hlt) (hsize ▸ hbound), ← hname,
      placedIn_eq hnodup (hsize ▸ hbound) hvalid hplace, h.place_bases, declaredRow_concat,
      List.append_assoc]
    rfl

end Holds

end Linker

end EffectMachine
