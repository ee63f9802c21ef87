/-
Where linked packages come to lie.

The globals and the code of a package come to lie behind those of the packages before it, and its
code is relocated by where things lie. So the whole code of a program can be said from the
packages in the order in which they are linked.

* `Placement`, `placements`: packages, each with those before it;
* `globalBase`, `Placement.global`: the globals of a package;
* `Placement.bases`, `Placement.relocated`: what the numbers of a package mean, and its code with
  these numbers;
* `Linker.Lays`: **the packages linked so far lie one behind the other**;
* `Program.LaidOut`: **the code of a program is the entry code, the relocated code of the
  packages, and the code that starts the program**, and `exists_laidOut`: so it is in every linked
  program.
-/
import EffectMachine.Proofs.ImportOrder
import EffectMachine.Proofs.LinkedDispatch

namespace EffectMachine

/-! ### Placements -/

/-- A package with those before it. -/
structure Placement where
  before : List (String × Package)
  name : String
  package : Package

/-- Packages that are linked one after the other, each with those before it. -/
def placements (before : List (String × Package)) : List (String × Package) → List Placement
  | [] => []
  | x :: ps => ⟨before, x.1, x.2⟩ :: placements (before ++ [x]) ps

/-- The number of globals of packages: one for the object of each, and its own. -/
def globalBase (ps : List (String × Package)) : Nat :=
  (ps.map fun x => 1 + ownGlobalCount x.2.relocations.toList).sum

namespace Placement

/-- The global that holds the object of the package. -/
def global (y : Placement) : Nat := globalBase y.before

/-- The class on which the package is initialised. -/
def cls (y : Placement) : ClassId := .ofIndex (classBase y.before)

/-- Where the package has been linked. -/
def linked (y : Placement) : LinkedPackage := ⟨y.name, y.global, y.cls⟩

end Placement

/-- The global that holds the object of the package of a name. -/
def globalOf? (ps : List (String × Package)) (name : String) : Option Nat :=
  ((placements [] ps).find? (·.name = name)).map (·.global)

namespace Placement

/-- Where the parts of the package come to lie, and what its numbers mean, in a program whose
methods have the given names. -/
def bases (names : List String) (y : Placement) : Bases where
  classes := classBase y.before + 1
  code := codeBase y.before
  externals := externalBase y.before
  globals := y.global + 1
  packageGlobal := y.global
  methods := (y.package.methodNames.map fun name => ⟨UInt32.ofNat (names.idxOf name)⟩).toArray
  packages := globalOf? y.before

/-- The code of the package with linked numbers. -/
def relocated (names : List String) (y : Placement) : Except InvalidReference Code :=
  relocate (y.bases names) y.package y.package.relocations.toList y.package.code

/-- The code of the package in a program, if it can be relocated. -/
def code (names : List String) (y : Placement) : Code := (y.relocated names).toOption.getD #[]

lemma code_eq {names : List String} {y : Placement} {code : Code}
    (h : y.relocated names = .ok code) : y.code names = code := by
  rw [Placement.code, h]
  rfl

/-- What the numbers of a package mean does not depend on methods that come later. -/
lemma bases_congr {names names' : List String} (y : Placement) (hextends : names <+: names')
    (hnames : ∀ name ∈ y.package.methodNames, name ∈ names) : y.bases names' = y.bases names := by
  obtain ⟨rest, rfl⟩ := hextends
  rw [bases, bases]
  congr 2
  refine List.map_congr_left fun name hname => ?_
  rw [List.idxOf_append_of_mem (hnames name hname)]

end Placement

lemma placements_append (before ps qs : List (String × Package)) :
    placements before (ps ++ qs) = placements before ps ++ placements (before ++ ps) qs := by
  induction ps generalizing before with
  | nil => simp [placements]
  | cons y ps ih => simp [placements, ih]

lemma placements_concat (before ps : List (String × Package)) (x : String × Package) :
    placements before (ps ++ [x]) = placements before ps ++ [⟨before ++ ps, x.1, x.2⟩] :=
  placements_append before ps [x]

lemma mem_placements {before ps : List (String × Package)} {y : Placement} :
    y ∈ placements before ps ↔ ∃ front back, ps = front ++ (y.name, y.package) :: back ∧
      y.before = before ++ front := by
  induction ps generalizing before with
  | nil => simp [placements]
  | cons x ps ih =>
      rw [placements, List.mem_cons, ih]
      constructor
      · rintro (rfl | ⟨front, back, rfl, hbefore⟩)
        · exact ⟨[], ps, rfl, by simp⟩
        · exact ⟨x :: front, back, rfl, by simpa using hbefore⟩
      · rintro ⟨front, back, hsplit, hbefore⟩
        cases front with
        | nil =>
            cases hsplit
            left
            rw [List.append_nil] at hbefore
            rw [← hbefore]
        | cons z front =>
            cases hsplit
            exact .inr ⟨front, back, rfl, by simpa using hbefore⟩

lemma map_placements (before ps : List (String × Package)) :
    (placements before ps).map (fun y => (y.name, y.package)) = ps := by
  induction ps generalizing before with
  | nil => rfl
  | cons x ps ih => simp [placements, ih]

lemma globalBase_concat (ps : List (String × Package)) (x : String × Package) :
    globalBase (ps ++ [x]) = globalBase ps + 1 + ownGlobalCount x.2.relocations.toList := by
  rw [globalBase, globalBase, List.map_append, List.sum_append]
  simp [Nat.add_assoc]

namespace Placement

/-- What a package takes up of a table lies inside the table. -/
lemma sum_le (f : String × Package → Nat) {ps : List (String × Package)} {y : Placement}
    (hy : y ∈ placements [] ps) :
    (y.before.map f).sum + f (y.name, y.package) ≤ (ps.map f).sum := by
  obtain ⟨front, back, rfl, hbefore⟩ := mem_placements.mp hy
  rw [List.nil_append] at hbefore
  rw [hbefore, List.map_append, List.sum_append, List.map_cons, List.sum_cons]
  omega

lemma lt_globalBase {ps : List (String × Package)} {y : Placement} (hy : y ∈ placements [] ps) :
    y.global + ownGlobalCount y.package.relocations.toList < globalBase ps := by
  have hle := sum_le (fun x => 1 + ownGlobalCount x.2.relocations.toList) hy
  dsimp only at hle
  rw [global, globalBase, globalBase]
  omega

lemma codeBase_le {ps : List (String × Package)} {y : Placement} (hy : y ∈ placements [] ps) :
    codeBase y.before + y.package.code.size ≤ codeBase ps := by
  have hle := sum_le (fun x => x.2.code.size) hy
  dsimp only at hle
  rw [codeBase, codeBase]
  omega

lemma classBase_le {ps : List (String × Package)} {y : Placement} (hy : y ∈ placements [] ps) :
    classBase y.before + 1 + y.package.classes.size ≤ classBase ps := by
  have hle := sum_le (fun x => x.2.classes.size + 1) hy
  dsimp only at hle
  rw [classBase, classBase]
  omega

end Placement

/-! ### The packages linked so far -/

namespace Linker

variable {l l' : Linker} {ps : List (String × Package)}

lemma methods_bases {p : Package} (hnodup : l.methodNames.Nodup) (packageGlobal : Nat) :
    (l.bases p packageGlobal).methods = (p.methodNames.map fun name =>
      (⟨UInt32.ofNat ((l.interned p).methodNames.idxOf name)⟩ : MethodId)).toArray := by
  obtain ⟨hextends, -, hplaces⟩ := internMethods_spec p.methodNames l
  have hnames : (l.interned p).methodNames.Nodup := hextends.nodup hnodup
  rw [bases]
  dsimp only
  congr 1
  -- names differ, so the place of a name is the first one
  have heq : List.Forall₂ (fun name (m : MethodId) =>
      ⟨UInt32.ofNat ((l.interned p).methodNames.idxOf name)⟩ = m) p.methodNames
      (internMethods p.methodNames l).1 := by
    refine hplaces.imp fun name m h => ?_
    obtain ⟨r, hr, hm⟩ := h
    have hindex : (l.interned p).methodNames.idxOf name = r := by
      obtain ⟨hlt, rfl⟩ := List.getElem?_eq_some_iff.mp hr
      exact hnames.idxOf_getElem r hlt
    rw [hm, hindex]
  rw [← List.forall₂_map_left_iff, List.forall₂_eq_eq_eq] at heq
  exact heq.symm

/-- The code of a package is relocated by where its parts come to lie. -/
lemma relocate_of_append {p : Package} {packageGlobal : Nat}
    (h : l.append p packageGlobal = .ok l') :
    ∃ code, relocate (l.bases p packageGlobal) p p.relocations.toList p.code = .ok code ∧
      l'.code = l.code ++ code := by
  obtain ⟨fresh, hinterned, -⟩ := (internMethods_spec p.methodNames l).1.exists_fresh
  rw [append] at h
  dsimp only at h
  split at h
  · cases h
  · rename_i code hcode
    split at h
    · cases h
    · rename_i l₁ hadd
      obtain ⟨rows, rfl, -, -⟩ := addImplementations_eq_ok hadd
      cases h
      refine ⟨code, hcode, ?_⟩
      have heq : (internMethods (p.methods.toList.map (·.name)) l).2 =
        { l with methods := l.methods ++ fresh.toArray } := hinterned
      rw [heq]

/-- **The packages linked so far lie one behind the other.** -/
structure Lays (l : Linker) (ps : List (String × Package)) : Prop where
  globalCount : l.globalCount = globalBase ps
  completed : l.completed.toList = (placements [] ps).map Placement.linked
  relocated : ∀ y ∈ placements [] ps, y.relocated l.methodNames = .ok (y.code l.methodNames)
  code : l.code.toList =
    entryCode ++ (placements [] ps).flatMap fun y => (y.code l.methodNames).toList

lemma lays_fresh (journal : Journal) : (fresh journal).Lays [] where
  globalCount := rfl
  completed := rfl
  relocated y hy := by cases hy
  code := by simp [fresh, placements]

namespace Lays

lemma linked?_global (h : l.Lays ps) (name : String) :
    (l.linked? name).map (·.global) = globalOf? ps name := by
  rw [linked?, ← Array.find?_toList, h.completed, List.find?_map, Option.map_map, globalOf?]
  rfl

/-- What the numbers of the next package mean. -/
lemma bases_started (h : l.Lays ps) (hps : l.Holds ps) (name : String) (p : Package) :
    l.started.bases p l.globalCount =
      Placement.bases (l.started.interned p).methodNames ⟨ps, name, p⟩ := by
  obtain ⟨hclasses, hcode, hexternals⟩ := hps.bases_started p l.globalCount
  have hmethods := methods_bases (l := l.started) (p := p) (hps.methodNames_started ▸ hps.nodup)
    l.globalCount
  obtain ⟨fresh, hinterned, -⟩ := (internMethods_spec p.methodNames l.started).1.exists_fresh
  have hglobals : (l.started.interned p).globalCount = globalBase ps + 1 := by
    rw [interned, hinterned]
    show l.globalCount + 1 = _
    rw [h.globalCount]
  have hpackages : (fun name => ((l.started.interned p).linked? name).map (·.global)) =
      globalOf? ps := by
    funext name
    rw [linked?_interned]
    exact h.linked?_global name
  rw [Placement.bases]
  dsimp only
  rw [← hclasses, ← hcode, ← hexternals, ← hmethods, ← hpackages, Placement.global, ← hglobals,
    ← h.globalCount]
  rfl

/-- **Linking a package lays it behind the others.** -/
lemma linkPackage {name : String} {p : Package} (h : l.Lays ps) (hps : l.Holds ps)
    (hl : l.linkPackage name p = .ok l') : l'.Lays (ps ++ [(name, p)]) := by
  obtain ⟨l₁, happend, rfl⟩ := linkPackage_eq_ok hl
  have hnames := methodNames_of_append happend
  obtain ⟨code, hrelocate, hcode⟩ := relocate_of_append happend
  obtain ⟨rows, _, heq, -⟩ := append_eq_ok happend
  rw [h.bases_started hps name] at hrelocate
  have hextends : l.methodNames <+: l₁.methodNames := by
    rw [hnames, ← hps.methodNames_started]
    exact Extends.methodNames_prefix (internMethods_spec p.methodNames l.started).1
  have hlast : Placement.relocated l₁.methodNames ⟨ps, name, p⟩ = .ok code := hnames ▸ hrelocate
  have hsame : ∀ y ∈ placements [] ps, y.relocated l₁.methodNames = y.relocated l.methodNames := by
    intro y hy
    obtain ⟨front, back, rfl, -⟩ := mem_placements.mp hy
    rw [Placement.relocated, Placement.relocated, y.bases_congr hextends]
    exact fun n hn => (hps.named n).mpr (.inr ⟨(y.name, y.package), by simp, hn⟩)
  refine ⟨?_, ?_, ?_, ?_⟩
  · rw [globalBase_concat, ← h.globalCount, heq]
    rfl
  · show (l₁.completed.push _).toList = _
    rw [Array.toList_push, placements_concat, List.map_append, ← h.completed, heq]
    simp [Placement.linked, Placement.global, Placement.cls, h.globalCount, hps.size_classes,
      started, addImplementation]
  · intro y hy
    show y.relocated l₁.methodNames = .ok (y.code l₁.methodNames)
    rw [placements_concat, List.mem_append, List.mem_singleton] at hy
    rcases hy with hy | rfl
    · rw [Placement.code, hsame y hy]
      exact h.relocated y hy
    · exact hlast.trans (congrArg Except.ok (Placement.code_eq hlast).symm)
  · have hcodes : ∀ y ∈ placements [] ps,
        (y.code l₁.methodNames).toList = (y.code l.methodNames).toList := by
      intro y hy
      rw [Placement.code, hsame y hy, Placement.code]
    show l₁.code.toList =
      entryCode ++ (placements [] (ps ++ [(name, p)])).flatMap fun y => (y.code l₁.methodNames).toList
    rw [hcode, Array.toList_append, placements_concat, List.flatMap_append,
      List.flatMap_congr hcodes, List.flatMap_singleton, List.nil_append, Placement.code_eq hlast,
      ← List.append_assoc, ← h.code]
    rfl

end Lays

lemma Holds.methodNames_of_complete {entry : String} {P : Program} (h : l.Holds ps)
    (hcomplete : l.complete entry = .ok P) : P.methodNames = l.methodNames := by
  obtain ⟨main, package, builtins, table, -, -, -, hpack, rfl⟩ := complete_eq_ok.mp hcomplete
  refine List.ext_getElem? fun r => ?_
  rw [Program.methodNames, ← Array.toList_map, names_of_pack hpack, Array.getElem?_toList,
    Array.getElem?_map, h.getElem?_finished, Option.map_map, getElem?_methodNames]
  rfl

end Linker

/-! ### Programs -/

/-- The packages of a closure, in the order in which they are linked. -/
structure Source.Closure (source : Source) (entry : String) (ps : List (String × Package)) :
    Prop where
  ordered : source.Ordered ps
  member_iff : ∀ name p, source.Member entry name p ↔ (name, p) ∈ ps
  last : (ps.map Prod.fst).getLast? = some entry

/-- Linking from the entry package completes the packages one after the other, in the order of the
list. -/
def Source.LinksInOrder (source : Source) (entry : String) (journal : Journal)
    (ps : List (String × Package)) : Prop :=
  ∃ l, Linker.importPackage source source.bound entry (.fresh journal) = .ok () l ∧
    l.completed.toList.map (·.name) = ps.map Prod.fst

/-- The packages of a program lie one behind the other. Its code is the entry code, the code of
the packages with linked numbers, and the code that initialises them and calls the main method of
the entry package. -/
structure Program.LaidOut (P : Program) (ps : List (String × Package)) (entry : String) :
    Prop where
  globalCount : P.globalCount = UInt32.ofNat (globalBase ps)
  nodup : P.methodNames.Nodup
  named : ∀ y ∈ placements [] ps, ∀ name ∈ y.package.methodNames, name ∈ P.methodNames
  relocated : ∀ y ∈ placements [] ps, y.relocated P.methodNames = .ok (y.code P.methodNames)
  code : ∃ main slot, P.methodId? "main" = some main ∧ globalOf? ps entry = some slot ∧
    P.code.toList = Linker.entryCode ++
      (placements [] ps).flatMap (fun y => (y.code P.methodNames).toList) ++
        Linker.startCode ((placements [] ps).map Placement.linked) slot main

lemma length_flatMap_code {names : List String} {before ps : List (String × Package)}
    (h : ∀ y ∈ placements before ps, y.relocated names = .ok (y.code names)) :
    ((placements before ps).flatMap fun y => (y.code names).toList).length =
      (ps.map fun x => x.2.code.size).sum := by
  induction ps generalizing before with
  | nil => rfl
  | cons x ps ih =>
      rw [placements, List.forall_mem_cons] at h
      have hsize : (Placement.code names ⟨before, x.1, x.2⟩).size = x.2.code.size :=
        size_of_relocate h.1
      rw [placements, List.flatMap_cons, List.length_append, ih h.2, Array.length_toList, hsize,
        List.map_cons, List.sum_cons]

namespace Program.LaidOut

variable {P : Program} {ps : List (String × Package)} {entry : String}

/-- The code of a package lies behind that of the packages before it. -/
lemma exists_code (h : P.LaidOut ps entry) {y : Placement} (hy : y ∈ placements [] ps) :
    ∃ before after, P.code.toList = before ++ (y.code P.methodNames).toList ++ after ∧
      before.length = codeBase y.before := by
  obtain ⟨main, slot, -, -, hcode⟩ := h.code
  obtain ⟨front, back, hsplit, hbefore⟩ := mem_placements.mp hy
  rw [List.nil_append] at hbefore
  have hplaces : placements [] ps =
      placements [] front ++ y :: placements (front ++ [(y.name, y.package)]) back := by
    rw [hsplit, placements_append, placements, List.nil_append, ← hbefore]
  have hfront : ∀ z ∈ placements [] front,
      z.relocated P.methodNames = .ok (z.code P.methodNames) :=
    fun z hz => h.relocated z (hplaces ▸ List.mem_append_left _ hz)
  rw [hplaces, List.flatMap_append, List.flatMap_cons] at hcode
  generalize Linker.startCode _ slot main = start at hcode
  generalize (placements (front ++ _) back).flatMap _ = rest at hcode
  refine ⟨Linker.entryCode ++
    (placements [] front).flatMap (fun z => (z.code P.methodNames).toList), rest ++ start, ?_, ?_⟩
  · rw [hcode]
    simp only [List.append_assoc]
  · rw [List.length_append, length_flatMap_code hfront, hbefore, codeBase]
    rfl

/-- The code that starts the program lies behind that of all packages. -/
lemma exists_startCode (h : P.LaidOut ps entry) : ∃ before main slot,
    P.methodId? "main" = some main ∧ globalOf? ps entry = some slot ∧
      P.code.toList = before ++
        Linker.startCode ((placements [] ps).map Placement.linked) slot main ∧
      before.length = codeBase ps := by
  obtain ⟨main, slot, hmain, hslot, hcode⟩ := h.code
  refine ⟨_, main, slot, hmain, hslot, hcode, ?_⟩
  rw [List.length_append, length_flatMap_code h.relocated, codeBase]
  rfl

/-- There is code behind that of all packages. -/
lemma codeBase_lt (h : P.LaidOut ps entry) : codeBase ps < P.code.size := by
  obtain ⟨before, main, slot, -, -, hcode, hbefore⟩ := h.exists_startCode
  rw [← Array.length_toList, hcode, ← hbefore, Linker.startCode]
  simp only [List.length_append, Instruction.length_encode]
  have hpos := (Instruction.call main 0).size_pos
  omega

end Program.LaidOut

/-! ### What linked numbers mean -/

lemma toUInt32_of_toInt {id : Int32} {i : Nat} (h : id.toInt = i) :
    id.toUInt32 = UInt32.ofNat i := by
  rw [← Int32.ofInt_toInt id, h]
  exact Int32.toUInt32_ofNat'

lemma toNat_toUInt32 (n : Int32) : (n.toUInt32.toNat : Int) = n.toInt % 2 ^ 32 := by
  have hcond := n.toBitVec.toInt_eq_toNat_cond
  have hlt := n.toBitVec.isLt
  have hword : n.toUInt32.toNat = n.toBitVec.toNat := rfl
  have hint : n.toInt = n.toBitVec.toInt := rfl
  split at hcond <;> omega

namespace Placement

/-- The global that an import of a name refers to. -/
def importGlobal? (y : Placement) (name : String) : Option Nat :=
  if name = Package.self then some y.global else globalOf? y.before name

/-- What the word at a relocation has to be in a program: the linked number of what the
relocation refers to. -/
def Means (P : Program) (y : Placement) (r : Relocation) (w : UInt32) : Prop :=
  match r.kind with
  | .cls => ∃ i : Nat, r.id.toInt = i ∧ i < y.package.classes.size ∧
      w = UInt32.ofNat (classBase y.before + 1 + i)
  | .code => w = r.id.toUInt32 + UInt32.ofNat (codeBase y.before)
  | .global => w = r.id.toUInt32 + UInt32.ofNat (y.global + 1)
  | .imported => ∃ (i : Nat) (name : String) (slot : Nat), r.id.toInt = i ∧
      y.package.imports[i]? = some name ∧ y.importGlobal? name = some slot ∧ w = UInt32.ofNat slot
  | .method => ∃ (i : Nat) (name : String), r.id.toInt = i ∧
      y.package.methodNames[i]? = some name ∧ P.methodId? name = some ⟨w⟩

variable {P : Program} {ps : List (String × Package)} {entry : String} {y : Placement}

lemma methodId?_eq_idxOf (h : P.LaidOut ps entry) {name : String} (hname : name ∈ P.methodNames) :
    P.methodId? name = some ⟨UInt32.ofNat (P.methodNames.idxOf name)⟩ := by
  refine (Program.methodId?_eq_some_iff h.nodup).mpr ⟨_, ?_, rfl⟩
  rw [List.getElem?_eq_getElem (List.idxOf_lt_length_of_mem hname), List.getElem_idxOf]

lemma means_of_resolve_imported {id n : Int32} {pos : UInt32}
    (hr : (y.bases P.methodNames).resolve y.package ⟨.imported, id, pos⟩ = .ok n) :
    y.Means P ⟨.imported, id, pos⟩ n.toUInt32 := by
  rw [Bases.resolve] at hr
  dsimp only at hr
  cases hname : (indexOf? id).bind (y.package.imports[·]?) with
  | none =>
      rw [hname] at hr
      cases hr
  | some name =>
      obtain ⟨i, hindex, hi⟩ := Option.bind_eq_some_iff.mp hname
      have hid := indexOf?_eq_some.mp hindex
      rw [hname] at hr
      dsimp only at hr
      by_cases hself : name = Package.self
      · rw [if_pos hself] at hr
        cases hr
        exact ⟨i, name, y.global, hid, hi, if_pos hself, Int32.toUInt32_ofNat'⟩
      · rw [if_neg hself] at hr
        cases hglobal : (y.bases P.methodNames).packages name with
        | none =>
            rw [hglobal] at hr
            cases hr
        | some slot =>
            rw [hglobal] at hr
            cases hr
            exact ⟨i, name, slot, hid, hi, (if_neg hself).trans hglobal, Int32.toUInt32_ofNat'⟩

lemma means_of_resolve_method (h : P.LaidOut ps entry) (hy : y ∈ placements [] ps) {id n : Int32}
    {pos : UInt32} (hr : (y.bases P.methodNames).resolve y.package ⟨.method, id, pos⟩ = .ok n) :
    y.Means P ⟨.method, id, pos⟩ n.toUInt32 := by
  rw [Bases.resolve] at hr
  dsimp only at hr
  cases hm : (indexOf? id).bind ((y.bases P.methodNames).methods[·]?) with
  | none =>
      rw [hm] at hr
      cases hr
  | some m =>
      obtain ⟨i, hindex, hi⟩ := Option.bind_eq_some_iff.mp hm
      rw [hm] at hr
      cases hr
      rw [bases, List.getElem?_toArray, List.getElem?_map, Option.map_eq_some_iff] at hi
      obtain ⟨name, hname, rfl⟩ := hi
      refine ⟨i, name, indexOf?_eq_some.mp hindex, hname, ?_⟩
      rw [methodId?_eq_idxOf h (h.named y hy name (List.mem_of_getElem? hname))]
      rfl

lemma means_of_resolve_cls {id n : Int32} {pos : UInt32}
    (hr : (y.bases P.methodNames).resolve y.package ⟨.cls, id, pos⟩ = .ok n) :
    y.Means P ⟨.cls, id, pos⟩ n.toUInt32 := by
  rw [Bases.resolve] at hr
  dsimp only at hr
  cases hindex : indexOf? id with
  | none =>
      rw [hindex] at hr
      cases hr
  | some i =>
      rw [hindex] at hr
      dsimp only at hr
      split at hr
      · rename_i hlt
        cases hr
        have hid := indexOf?_eq_some.mp hindex
        refine ⟨i, hid, hlt, ?_⟩
        rw [Int32.toUInt32_add, toUInt32_of_toInt hid, Int32.toUInt32_ofNat', ← UInt32.ofNat_add,
          Nat.add_comm]
        rfl
      · cases hr

/-- **A relocation is resolved to the linked number** of what it refers to. -/
lemma means_of_resolve (h : P.LaidOut ps entry) (hy : y ∈ placements [] ps) {r : Relocation}
    {n : Int32} (hr : (y.bases P.methodNames).resolve y.package r = .ok n) :
    y.Means P r n.toUInt32 := by
  obtain ⟨kind, id, pos⟩ := r
  cases kind with
  | cls => exact means_of_resolve_cls hr
  | imported => exact means_of_resolve_imported hr
  | method => exact means_of_resolve_method h hy hr
  | code =>
      cases hr
      exact Int32.toUInt32_add _ _
  | global =>
      cases hr
      exact Int32.toUInt32_add _ _

end Placement

namespace Linker

variable {l : Linker} {ps : List (String × Package)} {entry : String} {P : Program}

/-- A program is completed behind the packages that have been linked. -/
lemma Lays.laidOut (h : l.Lays ps) (hps : l.Holds ps) (hcomplete : l.complete entry = .ok P) :
    P.LaidOut ps entry := by
  have hnames := hps.methodNames_of_complete hcomplete
  obtain ⟨main, package, builtins, table, hmain, hpackage, -, -, hP⟩ :=
    complete_eq_ok.mp hcomplete
  refine ⟨?_, hnames ▸ hps.nodup, ?_, hnames ▸ h.relocated, main, package.global, ?_, ?_, ?_⟩
  · rw [hP, ← h.globalCount]
  · intro y hy name hname
    obtain ⟨front, back, rfl, -⟩ := mem_placements.mp hy
    rw [hnames, hps.named]
    exact .inr ⟨(y.name, y.package), by simp, hname⟩
  · obtain ⟨r, hr, hm⟩ := methodId?_eq_some hmain
    exact (Program.methodId?_eq_some_iff (hnames ▸ hps.nodup)).mpr ⟨r, hnames ▸ hr, hm⟩
  · rw [← h.linked?_global, hpackage, Option.map_some]
  · rw [hnames, ← h.code, ← h.completed, hP]
    exact Array.toList_appendList

end Linker

/-- **The packages of a linked program lie one behind the other**, in the order of the closure. -/
theorem exists_laidOut {source : Source} {entry : String} {journal journal' : Journal}
    {P : Program} (h : link source entry journal = .ok P journal') :
    ∃ l ps, Linker.Holds l ps ∧ l.complete entry = .ok P ∧ source.Closure entry ps ∧
      source.LinksInOrder entry journal ps ∧ (∀ x ∈ ps, x.2.Valid) ∧ P.LaidOut ps entry := by
  obtain ⟨l, himport, hcomplete, -⟩ := link_eq_ok.mp h
  obtain ⟨ps, hps, hlays⟩ := Linker.Grows.of_importPackage_with (C := Linker.Lays)
    (fun h inProgress journal => ⟨h.globalCount, h.completed, h.relocated, h.code⟩)
    (fun hps h hl => h.linkPackage hps hl) (Linker.holds_fresh journal) source.ordered_nil
    (Linker.lays_fresh journal) himport
  have hreached : ∀ x ∈ ps, source.Reaches entry x.1 := by
    intro x hx
    obtain ⟨name, hname, hreaches⟩ := hps.reached x hx
    cases List.mem_singleton.mp hname
    exact hreaches
  have hentry : entry ∈ ps.map Prod.fst := hps.linked entry (by simp)
  have hlast := Linker.last_of_importPackage (Linker.holds_fresh journal) source.ordered_nil
    (by simp) himport
  have hholds : l.Holds ps := hps.holds
  rw [hholds.completed] at hlast
  exact ⟨l, ps, hholds, hcomplete,
    ⟨hps.ordered, fun name p => Source.Ordered.member_iff hps.ordered hentry hreached, hlast⟩,
    ⟨l, himport, hholds.completed⟩, hps.valid, Linker.Lays.laidOut hlays hholds hcomplete⟩

/-! ### The instructions around packages -/

/-- The instructions in front of all packages. -/
def entryInstructions : List Instruction := [.create .programInit 0, .call .call 0]

/-- The instructions that initialise a package and keep its object. -/
def Placement.initInstructions (y : Placement) : List Instruction :=
  [.create y.cls 0, .call .call 2, .globalStore (UInt32.ofNat y.global)]

/-- The instructions that call the main method of the entry package. -/
def mainInstructions (slot : Nat) (main : MethodId) : List Instruction :=
  [.globalLoad (UInt32.ofNat slot), .call main 0]

lemma entryCode_eq : Linker.entryCode = Instruction.encodeAll entryInstructions := by
  simp [Linker.entryCode, entryInstructions]

lemma startCode_eq (ys : List Placement) (slot : Nat) (main : MethodId) :
    Linker.startCode (ys.map Placement.linked) slot main = Instruction.encodeAll
      (ys.flatMap Placement.initInstructions ++ mainInstructions slot main) := by
  induction ys with
  | nil => simp [Linker.startCode, mainInstructions]
  | cons y ys ih =>
      rw [Linker.startCode] at ih ⊢
      rw [List.map_cons, List.flatMap_cons, List.append_assoc, List.append_assoc,
        ← List.append_assoc (List.flatMap _ _), ih, List.flatMap_cons, List.append_assoc,
        Instruction.encodeAll_append y.initInstructions]
      simp [Linker.initCode, Placement.initInstructions, Placement.linked]

end EffectMachine
