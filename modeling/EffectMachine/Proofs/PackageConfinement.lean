/-
What packages can refer to in a linked program.

A package may refer to its own classes and methods, to the objects of the packages that it imports,
to its own globals and natives, and to positions of its code. Linking checks the numbers of the
first three. It takes the numbers of globals, of code positions and of natives as they are.

* `Relocation.Apart`, `stands_of_relocate`: the word of a relocation that no later one overwrites;
* `Placement.Reserves`, `Placement.Names`: the globals and the natives of a package, and
  `Placement.eq_of_windows`: those of different packages are different;
* `Placement.Confines`: the linked numbers of what a package declares;
* `package_references_confined`: **a package refers to what it declares, if and only if the numbers
  that linking does not check are in range**, and `references_escape`: they need not be.
-/
import EffectMachine.Proofs.AppendedPackage
import EffectMachine.Proofs.InstructionStream

namespace EffectMachine

/-! ### Words of relocations -/

/-- The words at two relocations do not overlap. -/
def Relocation.Apart (r r' : Relocation) : Prop :=
  r.pos.toNat + 4 ≤ r'.pos.toNat ∨ r'.pos.toNat + 4 ≤ r.pos.toNat

lemma stands_of_relocate_of_apart {b : Bases} {p : Package} {rs : List Relocation}
    {code code' : Code} {pos : Nat} {bs : List UInt8} (h : relocate b p rs code = .ok code')
    (hstands : Stands code pos bs)
    (hapart : ∀ r ∈ rs, pos + bs.length ≤ r.pos.toNat ∨ r.pos.toNat + 4 ≤ pos) :
    Stands code' pos bs := by
  induction rs generalizing code with
  | nil =>
      cases h
      exact hstands
  | cons r rs ih =>
      obtain ⟨n, code₁, -, hpatch, hrest⟩ := relocate_cons h
      rw [List.forall_mem_cons] at hapart
      exact ih hrest (Word.stands_of_patch?_of_apart hpatch hstands hapart.1) hapart.2

/-- The word of a relocation that no later one overwrites is what the relocation is resolved
to. -/
lemma stands_of_relocate {b : Bases} {p : Package} {front back : List Relocation} {r : Relocation}
    {code code' : Code} (h : relocate b p (front ++ r :: back) code = .ok code')
    (hback : ∀ r' ∈ back, r.Apart r') :
    ∃ n, b.resolve p r = .ok n ∧ Stands code' r.pos.toNat (Word.bytes n.toUInt32) := by
  induction front generalizing code with
  | nil =>
      obtain ⟨n, code₁, hn, hpatch, hrest⟩ := relocate_cons h
      refine ⟨n, hn, ?_⟩
      exact stands_of_relocate_of_apart hrest (Word.stands_of_patch? hpatch) hback
  | cons r' front ih =>
      obtain ⟨-, code₁, -, -, hrest⟩ := relocate_cons h
      exact ih hrest

/-- **The word of a relocation in a program** is the linked number of what the relocation refers
to. -/
lemma Program.LaidOut.exists_word {P : Program} {ps : List (String × Package)} {entry : String}
    (h : P.LaidOut ps entry) {y : Placement} (hy : y ∈ placements [] ps)
    {front back : List Relocation} {r : Relocation}
    (hsplit : y.package.relocations.toList = front ++ r :: back)
    (hback : ∀ r' ∈ back, r.Apart r') :
    ∃ w, Word.read? P.code (codeBase y.before + r.pos.toNat) = some w ∧ y.Means P r w := by
  obtain ⟨before, after, hcode, hbefore⟩ := h.exists_code hy
  have hrelocated := h.relocated y hy
  rw [Placement.relocated, hsplit] at hrelocated
  obtain ⟨n, hn, hstands⟩ := stands_of_relocate hrelocated hback
  refine ⟨n.toUInt32, ?_, Placement.means_of_resolve h hy hn⟩
  rw [← hbefore]
  exact Word.read?_of_stands (hstands.of_part hcode)

/-! ### Windows -/

/-- The number of own globals exceeds the numbers of the globals that relocations refer to. -/
lemma lt_ownGlobalCount {rs : List Relocation} {r : Relocation} (hr : r ∈ rs)
    (hkind : r.kind = .global) : r.id.toInt < ownGlobalCount rs := by
  have hle := (isGreatest_ownGlobalCount rs).2 (.inr ⟨r, hr, hkind, rfl⟩)
  omega

namespace Placement

/-- The globals that are reserved for those of the package itself. -/
def Reserves (y : Placement) (g : Nat) : Prop :=
  y.global < g ∧ g ≤ y.global + ownGlobalCount y.package.relocations.toList

/-- The places of the natives that the package names. -/
def Names (y : Placement) (k : Nat) : Prop :=
  externalBase y.before ≤ k ∧ k < externalBase y.before + y.package.externals.size

/-- Packages take up a part of a table one behind the other. So a place in the table is that of one
package. -/
lemma eq_of_windows {f : String × Package → Nat} {ps : List (String × Package)} {y z : Placement}
    {k : Nat} (hy : y ∈ placements [] ps) (hz : z ∈ placements [] ps)
    (hky : (y.before.map f).sum ≤ k ∧ k < (y.before.map f).sum + f (y.name, y.package))
    (hkz : (z.before.map f).sum ≤ k ∧ k < (z.before.map f).sum + f (z.name, z.package)) :
    z = y := by
  -- a package that is linked earlier ends before one that is linked later
  have hends : ∀ {y z : Placement}, y ∈ placements [] ps → z ∈ placements [] ps →
      y.before.length < z.before.length →
        (y.before.map f).sum + f (y.name, y.package) ≤ (z.before.map f).sum := by
    intro y z hy hz hlt
    obtain ⟨front, back, hsplit, hfront⟩ := mem_placements.mp hy
    obtain ⟨front', back', hsplit', hfront'⟩ := mem_placements.mp hz
    rw [List.nil_append] at hfront hfront'
    rw [hfront, hfront'] at hlt ⊢
    have hinitial : front ++ [(y.name, y.package)] <+: ps := ⟨back, by simp [hsplit]⟩
    have hinitial' : front' <+: ps := ⟨_, hsplit'.symm⟩
    obtain ⟨rest, rfl⟩ := List.prefix_of_prefix_length_le hinitial hinitial'
      (by rw [List.length_append]; exact hlt)
    simp
  rcases Nat.lt_trichotomy y.before.length z.before.length with hlt | heq | hlt
  · have hle := hends hy hz hlt
    omega
  · obtain ⟨front, back, hsplit, hfront⟩ := mem_placements.mp hy
    obtain ⟨front', back', hsplit', hfront'⟩ := mem_placements.mp hz
    rw [List.nil_append] at hfront hfront'
    rw [hfront, hfront'] at heq
    obtain ⟨rfl, hrest⟩ := List.append_inj (hsplit.symm.trans hsplit') heq
    cases y
    cases z
    cases hrest
    cases hfront
    cases hfront'
    rfl
  · have hle := hends hz hy hlt
    omega

lemma eq_of_reserves {ps : List (String × Package)} {y z : Placement} {g : Nat}
    (hy : y ∈ placements [] ps) (hz : z ∈ placements [] ps) (hgy : y.Reserves g)
    (hgz : z.global ≤ g ∧ g ≤ z.global + ownGlobalCount z.package.relocations.toList) :
    z = y := by
  obtain ⟨hlt, hle⟩ := hgy
  refine eq_of_windows (f := fun x => 1 + ownGlobalCount x.2.relocations.toList) (k := g) hy hz
    ⟨hlt.le, ?_⟩ ⟨hgz.1, ?_⟩
  · show g < y.global + (1 + ownGlobalCount y.package.relocations.toList)
    omega
  · show g < z.global + (1 + ownGlobalCount z.package.relocations.toList)
    omega

/-- The object of a package that is imported lies among the globals before those of the package
itself. -/
lemma importGlobal?_le {y : Placement} {name : String} {slot : Nat}
    (h : y.importGlobal? name = some slot) : slot ≤ y.global := by
  rw [importGlobal?] at h
  split at h
  · cases h
    exact Nat.le_refl _
  · obtain ⟨z, hz, rfl⟩ := Option.map_eq_some_iff.mp h
    have hlt := lt_globalBase (List.mem_of_find?_eq_some hz)
    rw [global, global] at *
    omega

/-- The linked numbers of what the package declares, for each kind of reference. -/
def Confines (P : Program) (y : Placement) (w : UInt32) : RelocationKind → Prop
  | .cls => classBase y.before < w.toNat ∧
      w.toNat ≤ classBase y.before + y.package.classes.size
  | .method => ∃ name ∈ y.package.methodNames, P.methodId? name = some ⟨w⟩
  | .imported => ∃ name ∈ y.package.imports, y.importGlobal? name = some w.toNat
  | .global => y.Reserves w.toNat
  | .code => codeBase y.before ≤ w.toNat ∧
      w.toNat ≤ codeBase y.before + y.package.code.size

end Placement

/-! ### Numbers in range -/

/-- A number behind a base lies in a window there if and only if it is in range. -/
lemma mem_window_iff {n : Int32} {b s : Nat} (hroom : b + s ≤ 2 ^ 31) :
    (b ≤ (n.toUInt32 + UInt32.ofNat b).toNat ∧ (n.toUInt32 + UInt32.ofNat b).toNat < b + s) ↔
      0 ≤ n.toInt ∧ n.toInt < s := by
  have hword := toNat_toUInt32 n
  have hle := n.le_toInt
  have hlt := n.toInt_lt
  rw [UInt32.toNat_add, UInt32.toNat_ofNat']
  omega

/-- **A package refers to what it declares** if and only if its relocations for globals and code
positions are in range. -/
lemma confines_iff {P : Program} {ps : List (String × Package)} {y : Placement}
    (hy : y ∈ placements [] ps) (hclasses : classBase ps ≤ 2 ^ 31) (hcode : codeBase ps < 2 ^ 31)
    (hglobals : globalBase ps ≤ 2 ^ 31) {r : Relocation}
    (hr : r ∈ y.package.relocations.toList) {w : UInt32} (hw : y.Means P r w) :
    y.Confines P w r.kind ↔ (r.kind = .global → 0 ≤ r.id.toInt) ∧
      (r.kind = .code → 0 ≤ r.id.toInt ∧ r.id.toInt ≤ y.package.code.size) := by
  rw [Placement.Means] at hw
  cases hkind : r.kind with
  | cls =>
      rw [hkind] at hw
      obtain ⟨i, -, hlt, rfl⟩ := hw
      have hle := Placement.classBase_le hy
      have hword : (UInt32.ofNat (classBase y.before + 1 + i)).toNat = classBase y.before + 1 + i :=
        UInt32.toNat_ofNat_of_lt' (by show _ < 2 ^ 32; omega)
      simp only [Placement.Confines, hword, reduceCtorEq, false_implies, and_self, iff_true]
      omega
  | method =>
      rw [hkind] at hw
      obtain ⟨i, name, -, hname, hm⟩ := hw
      simp only [Placement.Confines, reduceCtorEq, false_implies, and_self, iff_true]
      exact ⟨name, List.mem_of_getElem? hname, hm⟩
  | imported =>
      rw [hkind] at hw
      obtain ⟨i, name, slot, -, hname, hslot, rfl⟩ := hw
      simp only [Placement.Confines, reduceCtorEq, false_implies, and_self, iff_true]
      have hle := Placement.importGlobal?_le hslot
      have hroom := Placement.lt_globalBase hy
      refine ⟨name, Array.mem_of_getElem? hname, ?_⟩
      rw [hslot, UInt32.toNat_ofNat_of_lt' (by show _ < 2 ^ 32; omega)]
  | global =>
      rw [hkind] at hw
      subst hw
      have hcount := lt_ownGlobalCount hr hkind
      have hroom := Placement.lt_globalBase hy
      have hwindow := mem_window_iff (n := r.id) (b := y.global + 1)
        (s := ownGlobalCount y.package.relocations.toList) (by omega)
      simp only [Placement.Confines, Placement.Reserves, reduceCtorEq, false_implies, and_true,
        true_implies]
      omega
  | code =>
      rw [hkind] at hw
      subst hw
      have hroom := Placement.codeBase_le hy
      have hwindow := mem_window_iff (n := r.id) (b := codeBase y.before)
        (s := y.package.code.size + 1) (by omega)
      simp only [Placement.Confines, reduceCtorEq, false_implies, true_and, true_implies]
      omega

/-! ### Natives -/

/-- The native behind a base is one of those there if and only if its number is in range. -/
lemma mem_natives_iff {e : UInt32} {b s : Nat} (hroom : b + s ≤ 2 ^ 32) :
    (b ≤ (e + UInt32.ofNat b).toNat ∧ (e + UInt32.ofNat b).toNat < b + s) ↔ e.toNat < s := by
  have hlt := e.toNat_lt
  rw [UInt32.toNat_add, UInt32.toNat_ofNat']
  omega

namespace Linker.Completes

variable {l : Linker} {ps : List (String × Package)} {P : Program} {y : Placement}

/-- An implementation by a native is found, behind the base of its package. -/
lemma exists_external (h : l.Completes ps P) (hy : y ∈ placements [] ps) {i : Implementation}
    (hi : i ∈ y.package.implementations) (hkind : i.kind = .external) :
    ∃ (j : Nat) (name : String) (m : MethodId) (i' : Implementation), i.cls.code.toInt = j ∧
      y.package.methodName? i = some name ∧ P.methodId? name = some m ∧
      P.dispatch (.ofIndex (classBase y.before + 1 + j)) m = some i' ∧ i'.kind = .external ∧
      i'.entry = i.entry + UInt32.ofNat (externalBase y.before) := by
  obtain ⟨front, back, hsplit, hbefore⟩ := mem_placements.mp hy
  rw [List.nil_append] at hbefore
  have hmem : (y.name, y.package) ∈ ps := hsplit ▸ List.mem_append_right _ List.mem_cons_self
  have hvalid : y.package.Valid := h.valid _ hmem
  obtain ⟨hle, hlt⟩ := hvalid.cls i hi
  have hj : i.cls.code.toInt = i.cls.code.toInt.toNat := (Int.toNat_of_nonneg hle).symm
  obtain ⟨name, hname⟩ : ∃ name, y.package.methodName? i = some name := by
    rw [Package.methodName?, Array.getElem?_eq_getElem (hvalid.method i hi)]
    exact ⟨_, rfl⟩
  have hnames := Package.mem_methodNames_of_names (Package.names_iff.mpr hname)
  obtain ⟨m, hm⟩ := h.exists_methodId?_iff.mpr (.inr ⟨_, hmem, hnames⟩)
  refine ⟨_, name, m, ⟨.ofIndex (classBase y.before + 1 + i.cls.code.toInt.toNat), m, .external,
    i.entry + UInt32.ofNat (externalBase y.before)⟩, hj, hname, hm, ?_, rfl, rfl⟩
  rw [hbefore]
  refine (h.dispatch_declared hsplit (by dsimp only; omega) hm _).mpr ⟨i, hi, hj, hname, ?_⟩
  rw [hkind]
  rfl

lemma getElem?_names (h : l.Completes ps P) (hy : y ∈ placements [] ps) {k : Nat}
    (hk : y.Names k) : P.externals[k]? = y.package.externals[k - externalBase y.before]? := by
  obtain ⟨front, back, hsplit, hbefore⟩ := mem_placements.mp hy
  obtain ⟨hle, hlt⟩ := hk
  rw [List.nil_append] at hbefore
  rw [hbefore] at hle hlt ⊢
  have hget := h.getElem?_externals hsplit (j := k - externalBase front)
    (by dsimp only; omega)
  rwa [Nat.add_sub_cancel' hle] at hget

end Linker.Completes

/-! ### Confinement -/

/-- What a package refers to in a program of packages. -/
structure Placement.Confined (P : Program) (ps : List (String × Package)) (y : Placement) :
    Prop where
  /-- The word of a relocation is the linked number of something that the package declares, if and
  only if the number of a global or of a code position is in range. -/
  word : ∀ (front : List Relocation) (r : Relocation) (back : List Relocation),
    y.package.relocations.toList = front ++ r :: back → (∀ r' ∈ back, r.Apart r') →
      ∃ w, Word.read? P.code (codeBase y.before + r.pos.toNat) = some w ∧
        (y.Confines P w r.kind ↔ (r.kind = .global → 0 ≤ r.id.toInt) ∧
          (r.kind = .code → 0 ≤ r.id.toInt ∧ r.id.toInt ≤ y.package.code.size))
  /-- The globals of the package exist. They are neither objects of packages nor globals of other
  packages. -/
  globals : ∀ g, y.Reserves g → g < P.globalCount.toNat ∧
    ∀ z ∈ placements [] ps, g ≠ z.global ∧ (z.Reserves g → z = y)
  /-- An implementation by a native is found, and the native is one that the package names, if and
  only if its number is in range. -/
  external : ∀ i ∈ y.package.implementations, i.kind = .external →
    ∃ (j : Nat) (name : String) (m : MethodId) (i' : Implementation), i.cls.code.toInt = j ∧
      y.package.methodName? i = some name ∧ P.methodId? name = some m ∧
      P.dispatch (.ofIndex (classBase y.before + 1 + j)) m = some i' ∧ i'.kind = .external ∧
      (y.Names i'.entry.toNat ↔ i.entry.toNat < y.package.externals.size)
  /-- The natives that the package names are its own. -/
  natives : ∀ k, y.Names k → P.externals[k]? = y.package.externals[k - externalBase y.before]? ∧
    ∀ z ∈ placements [] ps, z.Names k → z = y

/-- **A package refers to what it declares, if and only if the numbers that linking does not check
are in range.** Classes, methods and imports are confined in any case. The word of a relocation for
a global is one of the globals that are reserved for the package if and only if its number is not
negative, and a native is one that the package names if and only if its number is below their
number. -/
theorem package_references_confined (lib : Library) (entry : String) {journal journal' : Journal}
    {P : Program} (h : link lib.source entry journal = .ok P journal')
    (hclasses : P.classes.size ≤ 2 ^ 31) (hmethods : P.methods.size ≤ 2 ^ 32)
    (htable : P.implementations.size ≤ 2 ^ 31) (hexternals : P.externals.size ≤ 2 ^ 32)
    (hcode : P.code.size ≤ 2 ^ 31)
    (hglobals : ∀ ps, lib.source.Closure entry ps → globalBase ps ≤ 2 ^ 31) :
    ∃ ps, lib.source.Closure entry ps ∧ lib.source.LinksInOrder entry journal ps ∧
      ∀ y ∈ placements [] ps, y.Confined P ps := by
  obtain ⟨l, ps, hps, hcomplete, hclosure, horder, hvalid, hlaid⟩ := exists_laidOut h
  have hcompletes := hps.completes hvalid hcomplete hclasses hmethods htable
  have hbase := hglobals ps hclosure
  have hcount : P.globalCount.toNat = globalBase ps := by
    rw [hlaid.globalCount]
    exact UInt32.toNat_ofNat_of_lt' (by show _ < 2 ^ 32; omega)
  refine ⟨ps, hclosure, horder, fun y hy => ⟨?_, ?_, ?_, ?_⟩⟩
  · intro front r back hsplit hback
    obtain ⟨w, hw, hmeans⟩ := hlaid.exists_word hy hsplit hback
    have hr : r ∈ y.package.relocations.toList :=
      hsplit ▸ List.mem_append_right _ List.mem_cons_self
    exact ⟨w, hw, confines_iff hy (hcompletes.classBase_le.trans hclasses)
      (hlaid.codeBase_lt.trans_le hcode) hbase hr hmeans⟩
  · intro g hg
    refine ⟨?_, fun z hz => ⟨?_, fun hgz => ?_⟩⟩
    · have hlt := Placement.lt_globalBase hy
      have hle := hg.2
      omega
    · rintro rfl
      -- an object lies in front of the globals of its package, and outside all others
      cases Placement.eq_of_reserves hy hz hg ⟨Nat.le_refl _, Nat.le_add_right _ _⟩
      exact absurd hg.1 (Nat.lt_irrefl _)
    · exact Placement.eq_of_reserves hy hz hg ⟨hgz.1.le, hgz.2⟩
  · intro i hi hkind
    obtain ⟨j, name, m, i', hj, hname, hm, hdispatch, hkind', hentry⟩ :=
      hcompletes.exists_external hy hi hkind
    refine ⟨j, name, m, i', hj, hname, hm, hdispatch, hkind', ?_⟩
    rw [Placement.Names, hentry]
    refine mem_natives_iff (Nat.le_trans ?_ hexternals)
    rw [hcompletes.externals, hps.size_externals]
    exact Placement.sum_le (fun x => x.2.externals.size) hy
  · intro k hk
    refine ⟨hcompletes.getElem?_names hy hk, fun z hz hkz => ?_⟩
    exact Placement.eq_of_windows (f := fun x => x.2.externals.size) hy hz hk hkz

/-- A tool that names natives, with a method that is implemented by the first of them. -/
def toolPackage (natives : Array String) : Package where
  externals := natives
  classes := #[⟨"Tool", .user, 0⟩]
  methods := #[⟨"run"⟩]
  implementations := #[⟨⟨0⟩, ⟨0⟩, .external, 0⟩]

/-- An application that stores to its global of a number. -/
def appPackage (id : Int32) : Package where
  imports := #["tool"]
  externals := #["app:secret"]
  classes := #[⟨"App", .user, 0⟩]
  methods := #[⟨"main"⟩]
  implementations := #[⟨⟨0⟩, ⟨0⟩, .standard, 0⟩]
  relocations := #[⟨.global, id, 1⟩]
  code := (Instruction.globalStore 0).encode.toArray

def toolAndApp (natives : Array String) (id : Int32) : Library where
  entries := [("tool", toolPackage natives), ("app", appPackage id)]

/-- A tool with a native of its own, and an application with globals of its own. -/
theorem package_references_confined_tool : ∃ P journal,
    link (toolAndApp #["tool:run"] 1).source "app" {} = .ok P journal ∧
    (P.classes.size ≤ 2 ^ 31 ∧ P.methods.size ≤ 2 ^ 32 ∧ P.implementations.size ≤ 2 ^ 31 ∧
      P.externals.size ≤ 2 ^ 32 ∧ P.code.size ≤ 2 ^ 31) ∧
    (∀ ps, (toolAndApp #["tool:run"] 1).source.Closure "app" ps → globalBase ps ≤ 2 ^ 31) ∧
    ∃ ps, (toolAndApp #["tool:run"] 1).source.Closure "app" ps ∧
      (toolAndApp #["tool:run"] 1).source.LinksInOrder "app" {} ps ∧
      ∀ y ∈ placements [] ps, y.Confined P ps := by
  have hprogram : ((toolAndApp #["tool:run"] 1).program? "app").any (fun P =>
      decide (P.classes.size ≤ 2 ^ 31 ∧ P.methods.size ≤ 2 ^ 32 ∧
        P.implementations.size ≤ 2 ^ 31 ∧ P.externals.size ≤ 2 ^ 32 ∧
          P.code.size ≤ 2 ^ 31)) = true := by decide +kernel
  obtain ⟨P, hP, hsizes⟩ := (Option.any_eq_true _ _).mp hprogram
  obtain ⟨journal, hlink⟩ := Library.program?_eq_some.mp hP
  rw [decide_eq_true_eq] at hsizes
  have hglobals : ∀ ps, (toolAndApp #["tool:run"] 1).source.Closure "app" ps →
      globalBase ps ≤ 2 ^ 31 := fun ps hps =>
    (Library.sum_map_le hps.ordered _).trans (by decide)
  exact ⟨P, journal, hlink, hsizes, hglobals, package_references_confined _ "app" hlink hsizes.1
    hsizes.2.1 hsizes.2.2.1 hsizes.2.2.2.1 hsizes.2.2.2.2 hglobals⟩

/-- The tool is linked before the application. -/
lemma toolAndApp_closure (natives : Array String) (id : Int32) :
    (toolAndApp natives id).source.Closure "app"
      [("tool", toolPackage natives), ("app", appPackage id)] := by
  have hordered : (toolAndApp natives id).source.Ordered
      ([] ++ [("tool", toolPackage natives)] ++ [("app", appPackage id)]) := by
    refine ((Source.ordered_nil _).concat rfl (by simp) ?_).concat rfl (by simp) ?_
    · simp [Package.imported, toolPackage]
    · simp [Package.imported, appPackage]
  have hreached : ∀ x ∈ [("tool", toolPackage natives), ("app", appPackage id)],
      (toolAndApp natives id).source.Reaches "app" x.1 := by
    have himports : (toolAndApp natives id).source.Imports "app" "tool" :=
      ⟨appPackage id, rfl, by simp [Package.imported, appPackage, Package.self]⟩
    simp only [List.mem_cons, List.not_mem_nil, or_false, forall_eq_or_imp, forall_eq]
    exact ⟨.single himports, .refl⟩
  exact ⟨hordered, fun name p => hordered.member_iff (by simp) hreached, rfl⟩

/-- **References are not confined.** If the tool names no native and the number of the global is
negative, the application stores to the object of the tool, and the method of the tool is
implemented by the native of the application. -/
theorem references_escape : ∃ P journal,
    link (toolAndApp #[] (-2)).source "app" {} = .ok P journal ∧
    ∃ ps, (toolAndApp #[] (-2)).source.Closure "app" ps ∧
    ∃ tool ∈ placements [] ps, ∃ app ∈ placements [] ps,
      (∃ r ∈ app.package.relocations, r.kind = .global ∧
        ∃ w, Word.read? P.code (codeBase app.before + r.pos.toNat) = some w ∧
          w.toNat = tool.global ∧ ¬ app.Reserves w.toNat) ∧
      ∃ i ∈ tool.package.implementations, i.kind = .external ∧
        ∃ m i', P.dispatch (.ofIndex (classBase tool.before + 1)) m = some i' ∧
          i'.kind = .external ∧ app.Names i'.entry.toNat ∧ ¬ tool.Names i'.entry.toNat := by
  have hprogram : ((toolAndApp #[] (-2)).program? "app").any (fun P =>
      decide (Word.read? P.code 13 = some 0 ∧
        P.dispatch (.ofIndex 4) ⟨1⟩ = some ⟨⟨4⟩, ⟨1⟩, .external, 0⟩)) = true := by decide +kernel
  obtain ⟨P, hP, hfacts⟩ := (Option.any_eq_true _ _).mp hprogram
  obtain ⟨journal, hlink⟩ := Library.program?_eq_some.mp hP
  obtain ⟨hword, hdispatch⟩ := of_decide_eq_true hfacts
  refine ⟨P, journal, hlink, _, toolAndApp_closure #[] (-2), _, List.mem_cons_self, _,
    List.mem_cons_of_mem _ List.mem_cons_self, ?_, ?_⟩
  · refine ⟨⟨.global, -2, 1⟩, by simp [appPackage], rfl, 0, hword, rfl, fun h => ?_⟩
    exact absurd h.1 (Nat.not_lt_zero _)
  · refine ⟨⟨⟨0⟩, ⟨0⟩, .external, 0⟩, by simp [toolPackage], rfl, ⟨1⟩, _, hdispatch, rfl, ?_, ?_⟩
    · exact ⟨Nat.zero_le _, Nat.zero_lt_one⟩
    · exact fun h => absurd h.2 (Nat.not_lt_zero _)

end EffectMachine
