/-
Which packages can be linked.

Linking fails in many places: when a package is loaded, when it is appended, and when the program
is completed. Together these say whether the closure of imports of the entry package is in order,
and no more than that.

* `Source.Member`: the packages of a closure;
* `Source.Acceptable`: the closure is in order;
* `Source.Fits`: there are as many identifiers as the closure needs;
* `exists_link_iff`: linking succeeds if and only if the closure is acceptable, for any source
  that knows how many packages it has;
* `link_accepts_iff`: **linking packages of a library gives a program if and only if the closure
  of the entry package is acceptable, and an error otherwise**.
-/
import EffectMachine.Library
import EffectMachine.Proofs.ImportClosure
import EffectMachine.Proofs.LinkCompletion
import Mathlib.Algebra.Order.BigOperators.Group.List
import Mathlib.Data.List.Perm.Subperm

namespace EffectMachine

/-! ### Implementations of a package -/

namespace Package

/-- The name of the method that an implementation is of. -/
def methodName? (p : Package) (i : Implementation) : Option String :=
  (p.methods[i.method.index.toNat]?).map (·.name)

lemma names_iff {p : Package} {name : String} {i : Implementation} :
    p.names name i = true ↔ p.methodName? i = some name := by
  rw [names, methodName?]
  cases p.methods[i.method.index.toNat]? <;> simp

/-- Methods are implemented once for a class if no two implementations are of one class and of
methods of one name. -/
lemma distinctFor_iff {p : Package} (hp : p.Valid) : (∀ name, p.DistinctFor name) ↔
    ∀ (j k : Nat) (a b : Implementation), p.implementations[j]? = some a →
      p.implementations[k]? = some b → a.cls = b.cls → p.methodName? a = p.methodName? b →
        j = k := by
  have hname : ∀ name, p.DistinctFor name ↔ ∀ (j k : Nat) (a b : Implementation),
      p.implementations.toList[j]? = some a → p.implementations.toList[k]? = some b →
        (p.names name a = true ∧ p.names name b = true ∧ a.cls = b.cls) → j = k := by
    intro name
    rw [← pairwise_not_iff fun a b ⟨ha, hb, hcls⟩ => ⟨hb, ha, hcls.symm⟩, DistinctFor,
      List.Nodup, List.pairwise_map, List.pairwise_filter]
    simp only [not_and, ne_eq]
  simp only [hname, Array.getElem?_toList, names_iff]
  constructor
  · intro h j k a b hj hk hcls hab
    have hlt := hp.method a (Array.mem_of_getElem? hj)
    have ha : p.methodName? a = some (p.methods[a.method.index.toNat].name) := by
      rw [methodName?, Array.getElem?_eq_getElem hlt, Option.map_some]
    exact h _ j k a b hj hk ⟨ha, hab ▸ ha, hcls⟩
  · rintro h name j k a b hj hk ⟨ha, hb, hcls⟩
    exact h j k a b hj hk hcls (ha.trans hb.symm)

/-- Classes of two packages are of one builtin kind. -/
def Clash (p q : Package) : Prop := ∃ a ∈ p.classes, ∃ b ∈ q.classes, a.Clash b

end Package

/-! ### Acceptable closures -/

/-- The number of methods, at most: the one that enters closures and those of the packages. -/
def methodBase (ps : List (String × Package)) : Nat :=
  1 + (ps.map fun x => x.2.methods.size).sum

namespace Source

variable {source : Source} {entry : String} {ps : List (String × Package)}

/-- A package is imported from the entry package, or is the entry package. -/
def Member (source : Source) (entry name : String) (p : Package) : Prop :=
  source.Reaches entry name ∧ source.load name = .ok p

/-- The closure of an entry package is in order. -/
structure Acceptable (source : Source) (entry : String) : Prop where
  /-- Every package that is imported exists. -/
  present : ∀ name, source.Reaches entry name → ∃ p, source.load name = .ok p
  /-- No package is imported from itself. -/
  acyclic : ∀ name, source.Reaches entry name → ¬ Relation.TransGen source.Imports name name
  /-- What packages refer to is there. -/
  valid : ∀ name p, source.Member entry name p → p.Valid
  /-- There is a main method. -/
  main : ∃ name p, source.Member entry name p ∧ "main" ∈ p.methodNames
  /-- A builtin kind is that of one class of one package. -/
  builtins : ∀ name p name' p', source.Member entry name p → source.Member entry name' p' →
    ∀ (j k : Nat) (a b : ClassDecl), p.classes[j]? = some a → p'.classes[k]? = some b →
      a.kind = b.kind → a.kind ≠ .user → name = name' ∧ j = k
  /-- No package declares the class of continuations. -/
  continuation : ∀ name p, source.Member entry name p → ∀ c ∈ p.classes, c.kind ≠ .continuation
  /-- A package implements the method of a name once for a class. -/
  implementations : ∀ name p, source.Member entry name p →
    ∀ (j k : Nat) (a b : Implementation), p.implementations[j]? = some a →
      p.implementations[k]? = some b → a.cls = b.cls → p.methodName? a = p.methodName? b → j = k

/-- Identifiers suffice: in whatever order the packages of the closure are linked, class
identifiers do not exceed the range of signed words, nor method identifiers that of words. -/
def Fits (source : Source) (entry : String) : Prop :=
  ∀ ps, source.Ordered ps → (∀ x ∈ ps, source.Reaches entry x.1) →
    classBase ps ≤ 2 ^ 31 ∧ methodBase ps ≤ 2 ^ 32

/-- Packages that include the entry package and all of whose names are imported from it are the
closure. -/
lemma Ordered.member_iff (h : source.Ordered ps) (hentry : entry ∈ ps.map Prod.fst)
    (hreached : ∀ x ∈ ps, source.Reaches entry x.1) {name : String} {p : Package} :
    source.Member entry name p ↔ (name, p) ∈ ps := by
  constructor
  · rintro ⟨hreaches, hload⟩
    obtain ⟨x, hx, rfl⟩ := List.mem_map.mp (h.mem_of_reaches hentry hreaches)
    cases Except.ok.inj ((h.load x hx).symm.trans hload)
    exact hx
  · intro hmem
    exact ⟨hreached _ hmem, h.load _ hmem⟩

end Source

namespace Linker

variable {source : Source} {entry : String} {l : Linker} {ps : List (String × Package)}

/-- There are no more methods than the packages name. -/
lemma Holds.size_methods_le (h : l.Holds ps) : l.methods.size ≤ methodBase ps := by
  have hsub : l.methodNames ⊆ callName :: ps.flatMap fun x => x.2.methodNames := by
    intro name hname
    rcases (h.named name).mp hname with rfl | ⟨x, hx, hname⟩
    · exact List.mem_cons_self
    · exact List.mem_cons_of_mem _ (List.mem_flatMap.mpr ⟨x, hx, hname⟩)
  have hlength := (h.nodup.subperm hsub).length_le
  rw [methodNames, List.length_map, Array.length_toList, List.length_cons, List.length_flatMap]
    at hlength
  simp only [Package.methodNames, List.length_map, Array.length_toList] at hlength
  rw [methodBase]
  omega

/-- The classes of a list of packages do not clash if different packages and different places
have different builtin kinds. -/
lemma pairwise_flatMap_iff (hnodup : (ps.map Prod.fst).Nodup) :
    ((ps.flatMap fun x => ⟨"PackageInit", .user, 0⟩ :: x.2.classes.toList).Pairwise
      fun a b => ¬ a.Clash b) ↔
      ∀ x ∈ ps, ∀ y ∈ ps, ∀ (j k : Nat) (a b : ClassDecl), x.2.classes[j]? = some a →
        y.2.classes[k]? = some b → a.Clash b → x.1 = y.1 ∧ j = k := by
  have hsymm : ∀ a b : ClassDecl, a.Clash b → b.Clash a := fun a b h => h.symm
  have hinit : ∀ b, ¬ ClassDecl.Clash ⟨"PackageInit", .user, 0⟩ b := fun b h => h.2 rfl
  rw [List.pairwise_flatMap]
  constructor
  · rintro ⟨hwithin, hacross⟩ x hx y hy j k a b ha hb hclash
    have hsame : x = y := by
      have hpackages : ps.Pairwise fun x y => ¬ x.2.Clash y.2 :=
        hacross.imp fun h ⟨a, ha, b, hb, hclash⟩ =>
          h a (List.mem_cons_of_mem _ (Array.mem_toList_iff.mpr ha)) b
            (List.mem_cons_of_mem _ (Array.mem_toList_iff.mpr hb)) hclash
      obtain ⟨i, hi⟩ := List.mem_iff_getElem?.mp hx
      obtain ⟨i', hi'⟩ := List.mem_iff_getElem?.mp hy
      cases (pairwise_not_iff fun x y ⟨a, ha, b, hb, h⟩ => ⟨b, hb, a, ha, h.symm⟩).mp hpackages
        i i' x y hi hi' ⟨a, Array.mem_of_getElem? ha, b, Array.mem_of_getElem? hb, hclash⟩
      exact Option.some.inj (hi.symm.trans hi')
    subst hsame
    refine ⟨rfl, ?_⟩
    have hplaces := (pairwise_not_iff hsymm).mp (List.pairwise_cons.mp (hwithin x hx)).2
    exact hplaces j k a b (by rwa [Array.getElem?_toList]) (by rwa [Array.getElem?_toList]) hclash
  · intro h
    refine ⟨fun x hx => List.pairwise_cons.mpr ⟨fun b _ => hinit b, ?_⟩, ?_⟩
    · refine (pairwise_not_iff hsymm).mpr fun j k a b ha hb hclash => ?_
      rw [Array.getElem?_toList] at ha hb
      exact (h x hx x hx j k a b ha hb hclash).2
    · refine (List.pairwise_map.mp hnodup).imp_of_mem fun {x y} hx hy hne a ha b hb hclash => ?_
      rcases List.mem_cons.mp ha with rfl | ha
      · exact hinit b hclash
      · rcases List.mem_cons.mp hb with rfl | hb
        · exact hinit a hclash.symm
        · obtain ⟨j, hj⟩ := Array.mem_iff_getElem?.mp (Array.mem_toList_iff.mp ha)
          obtain ⟨k, hk⟩ := Array.mem_iff_getElem?.mp (Array.mem_toList_iff.mp hb)
          exact hne (h x hx y hy j k a b hj hk hclash).1

/-- No class clashes with the reserved ones if none is of the kind of continuations. -/
lemma Holds.pairwise_classes_iff (h : l.Holds ps) (hnodup : (ps.map Prod.fst).Nodup) :
    (l.classes.toList.Pairwise fun a b => ¬ a.Clash b) ↔
      (∀ x ∈ ps, ∀ y ∈ ps, ∀ (j k : Nat) (a b : ClassDecl), x.2.classes[j]? = some a →
        y.2.classes[k]? = some b → a.Clash b → x.1 = y.1 ∧ j = k) ∧
      ∀ x ∈ ps, ∀ c ∈ x.2.classes, c.kind ≠ .continuation := by
  rw [h.classes, List.pairwise_append, pairwise_flatMap_iff hnodup]
  constructor
  · rintro ⟨-, hapart, hreserved⟩
    refine ⟨hapart, fun x hx c hc hkind => ?_⟩
    refine hreserved ⟨"Continuation", .continuation, 1⟩ (by simp) c ?_ ⟨hkind.symm, by simp⟩
    exact List.mem_flatMap.mpr ⟨x, hx, List.mem_cons_of_mem _ (Array.mem_toList_iff.mpr hc)⟩
  · rintro ⟨hapart, hkinds⟩
    refine ⟨by simp [ClassDecl.Clash], hapart, fun a ha b hb ⟨hkind, huser⟩ => ?_⟩
    have hreserved : a.kind = .continuation := by
      simp only [List.mem_cons, List.not_mem_nil, or_false] at ha
      rcases ha with rfl | rfl | rfl
      · exact absurd rfl huser
      · exact absurd rfl huser
      · rfl
    obtain ⟨x, hx, hb⟩ := List.mem_flatMap.mp hb
    rcases List.mem_cons.mp hb with rfl | hb
    · exact huser hkind
    · exact hkinds x hx b (Array.mem_toList_iff.mp hb) (hkind ▸ hreserved)

/-! ### Linking -/

lemma exists_closure {journal : Journal}
    (h : importPackage source source.bound entry (fresh journal) = .ok () l) :
    ∃ ps, l.Holds ps ∧ source.Ordered ps ∧ (∀ x ∈ ps, source.Reaches entry x.1) ∧
      entry ∈ ps.map Prod.fst ∧ ∀ x ∈ ps, x.2.Valid := by
  obtain ⟨ps, hps⟩ := Grows.of_importPackage (holds_fresh journal) source.ordered_nil h
  refine ⟨ps, hps.holds, hps.ordered, fun x hx => ?_, hps.linked entry (by simp), hps.valid⟩
  obtain ⟨name, hname, hreaches⟩ := hps.reached x hx
  cases List.mem_singleton.mp hname
  exact hreaches

/-- When the program of a closure can be completed. -/
lemma exists_complete_closure_iff (h : l.Holds ps) (ho : source.Ordered ps)
    (hentry : entry ∈ ps.map Prod.fst) (hreached : ∀ x ∈ ps, source.Reaches entry x.1)
    (hvalid : ∀ x ∈ ps, x.2.Valid) (hclasses : classBase ps ≤ 2 ^ 31)
    (hmethods : methodBase ps ≤ 2 ^ 32) :
    (∃ P, l.complete entry = .ok P) ↔ source.Acceptable entry := by
  have hmember : ∀ {name p}, source.Member entry name p ↔ (name, p) ∈ ps :=
    ho.member_iff hentry hreached
  have hsize : (withIntClass l.classes).size ≤ 2 ^ 31 + 1 := by
    have hle := h.size_classes
    rw [withIntClass]
    split
    · omega
    · rw [Array.size_push]
      omega
  rw [exists_complete_iff, exists_builtinTable_iff hsize, pairwise_withIntClass,
    h.pairwise_classes_iff ho.nodup, exists_pack_iff,
    h.distinct_finished_iff (h.size_methods_le.trans hmethods) hvalid hclasses, h.named]
  constructor
  · rintro ⟨hmain, -, ⟨hbuiltins, hkinds⟩, hdistinct⟩
    refine
      { present := fun name hreaches => ?_
        acyclic := fun name hreaches => ho.acyclic (ho.mem_of_reaches hentry hreaches)
        valid := fun name p hp => hvalid _ (hmember.mp hp)
        main := ?_
        builtins := fun name p name' p' hp hp' j k a b ha hb hkind huser =>
          hbuiltins _ (hmember.mp hp) _ (hmember.mp hp') j k a b ha hb ⟨hkind, huser⟩
        continuation := fun name p hp => hkinds _ (hmember.mp hp)
        implementations := fun name p hp =>
          (Package.distinctFor_iff (hvalid _ (hmember.mp hp))).mp (hdistinct _ (hmember.mp hp)) }
    · obtain ⟨x, hx, rfl⟩ := List.mem_map.mp (ho.mem_of_reaches hentry hreaches)
      exact ⟨x.2, ho.load x hx⟩
    · rcases hmain with hcall | ⟨x, hx, hmain⟩
      · exact absurd hcall (by decide)
      · exact ⟨x.1, x.2, hmember.mpr hx, hmain⟩
  · intro hacceptable
    obtain ⟨name, p, hp, hmain⟩ := hacceptable.main
    refine ⟨.inr ⟨_, hmember.mp hp, hmain⟩, (h.linked?_isSome entry).mpr hentry, ⟨?_, ?_⟩, ?_⟩
    · intro x hx y hy j k a b ha hb hclash
      exact hacceptable.builtins _ _ _ _ (hmember.mpr hx) (hmember.mpr hy) j k a b ha hb
        hclash.1 hclash.2
    · exact fun x hx => hacceptable.continuation _ _ (hmember.mpr hx)
    · exact fun x hx => (Package.distinctFor_iff (hvalid x hx)).mpr
        (hacceptable.implementations _ _ (hmember.mpr hx))

end Linker

/-- Linking goes through the closure and completes the program. -/
lemma link_eq_ok {source : Source} {entry : String} {journal journal' : Journal} {P : Program} :
    link source entry journal = .ok P journal' ↔
      ∃ l, Linker.importPackage source source.bound entry (Linker.fresh journal) = .ok () l ∧
        l.complete entry = .ok P ∧ journal' = l.journal.record (linkedReport P) := by
  rw [link]
  cases Linker.importPackage source source.bound entry (Linker.fresh journal) with
  | error e l => simp
  | ok _ l =>
      dsimp only
      cases hcomplete : l.complete entry with
      | error e => simp [hcomplete]
      | ok Q =>
          constructor
          · intro h
            cases h
            exact ⟨l, rfl, hcomplete, rfl⟩
          · rintro ⟨l', himport, hP, rfl⟩
            cases himport
            cases hcomplete.symm.trans hP
            rfl

theorem exists_link_iff {source : Source} {entry : String}
    (hbound : ∀ names : List String, names.Nodup → (∀ n ∈ names, ∃ p, source.load n = .ok p) →
      names.length < source.bound)
    (hfits : source.Fits entry) (journal : Journal) :
    (∃ P journal', link source entry journal = .ok P journal') ↔ source.Acceptable entry := by
  constructor
  · rintro ⟨P, journal', h⟩
    obtain ⟨l, himport, hcomplete, -⟩ := link_eq_ok.mp h
    obtain ⟨ps, hps, ho, hreached, hentry, hvalid⟩ := Linker.exists_closure himport
    obtain ⟨hclasses, hmethods⟩ := hfits ps ho hreached
    exact (Linker.exists_complete_closure_iff hps ho hentry hreached hvalid hclasses hmethods).mp
      ⟨P, hcomplete⟩
  · intro h
    have hsound : source.Sound entry :=
      ⟨h.present, fun name p hreaches hload => h.valid name p ⟨hreaches, hload⟩, h.acyclic⟩
    obtain ⟨l, himport⟩ := Linker.exists_importPackage hbound (Linker.holds_fresh journal)
      source.ordered_nil hsound (fun n hn => by cases hn) List.nodup_nil
      (Nat.le_add_right source.bound _)
    obtain ⟨ps, hps, ho, hreached, hentry, hvalid⟩ := Linker.exists_closure himport
    obtain ⟨hclasses, hmethods⟩ := hfits ps ho hreached
    obtain ⟨P, hcomplete⟩ := (Linker.exists_complete_closure_iff hps ho hentry hreached hvalid
      hclasses hmethods).mpr h
    exact ⟨P, _, link_eq_ok.mpr ⟨l, himport, hcomplete, rfl⟩⟩

/-! ### Libraries -/

namespace Library

lemma load_eq_ok {lib : Library} {name : String} {p : Package}
    (h : lib.source.load name = .ok p) : (name, p) ∈ lib.entries := by
  rw [source] at h
  dsimp only at h
  split at h
  · rename_i hget
    cases h
    rw [get?] at hget
    obtain ⟨x, hx, rfl⟩ := Option.map_eq_some_iff.mp hget
    have hname := List.find?_some hx
    rw [decide_eq_true_eq] at hname
    subst hname
    exact List.mem_of_find?_eq_some hx
  · cases h

/-- A library knows how many packages it has. -/
lemma length_lt_bound (lib : Library) {names : List String} (hnodup : names.Nodup)
    (hload : ∀ n ∈ names, ∃ p, lib.source.load n = .ok p) : names.length < lib.source.bound := by
  have hsub : names ⊆ lib.entries.map Prod.fst := by
    intro n hn
    obtain ⟨p, hp⟩ := hload n hn
    exact List.mem_map.mpr ⟨(n, p), load_eq_ok hp, rfl⟩
  have hle := (hnodup.subperm hsub).length_le
  rw [List.length_map] at hle
  exact Nat.lt_succ_of_le hle

/-- Packages in order take up no more than all packages of the library. -/
lemma sum_map_le {lib : Library} {ps : List (String × Package)} (h : lib.source.Ordered ps)
    (f : String × Package → Nat) : (ps.map f).sum ≤ (lib.entries.map f).sum := by
  have hnodup : ps.Nodup := List.Nodup.of_map _ h.nodup
  have hsub : ps ⊆ lib.entries := fun x hx => load_eq_ok (h.load x hx)
  obtain ⟨qs, hperm, hsublist⟩ := hnodup.subperm hsub
  rw [← (hperm.map f).sum_nat]
  exact (hsublist.map f).sum_le_sum fun _ _ => Nat.zero_le _

/-- Identifiers suffice if they do for all packages of the library together. -/
lemma fits_of_total {lib : Library} (hclasses : classBase lib.entries ≤ 2 ^ 31)
    (hmethods : methodBase lib.entries ≤ 2 ^ 32) (entry : String) : lib.source.Fits entry := by
  intro ps ho _
  refine ⟨Nat.le_trans ?_ hclasses, Nat.le_trans ?_ hmethods⟩
  · exact Nat.add_le_add_left (sum_map_le ho _) _
  · exact Nat.add_le_add_left (sum_map_le ho _) _

end Library

/-- **Linking packages of a library gives a program if and only if the closure of the entry
package is acceptable**: everything that is imported exists and is valid, nothing is imported from
itself, there is a main method, builtin kinds are those of one class, and methods are implemented
once for a class. Otherwise it gives an error. -/
theorem link_accepts_iff (lib : Library) (entry : String) (hfits : lib.source.Fits entry)
    (journal : Journal) :
    ((∃ P journal', link lib.source entry journal = .ok P journal') ↔
      lib.source.Acceptable entry) ∧
    (¬ lib.source.Acceptable entry →
      ∃ e journal', link lib.source entry journal = .error e journal') := by
  have haccepts := exists_link_iff (fun _ => lib.length_lt_bound) hfits journal
  refine ⟨haccepts, fun hnot => ?_⟩
  cases hlink : link lib.source entry journal with
  | ok P journal' => exact absurd (haccepts.mp ⟨P, journal', hlink⟩) hnot
  | error e journal' => exact ⟨e, journal', rfl⟩

/-- The program of an entry package, if there is one. -/
def Library.program? (lib : Library) (entry : String) : Option Program :=
  match link lib.source entry {} with
  | .ok P _ => some P
  | .error _ _ => none

lemma Library.program?_eq_some {lib : Library} {entry : String} {P : Program} :
    lib.program? entry = some P ↔ ∃ journal, link lib.source entry {} = .ok P journal := by
  rw [program?]
  cases link lib.source entry {} <;> simp

/-- An application and the package that it imports. Both implement a method of one name, and the
application refers to itself and to what it imports. -/
def twoPackages : Library where
  entries := [
    ("app", {
      imports := #[".", "text"]
      classes := #[⟨"App", .user, 0⟩, ⟨"Screen", .user, 2⟩]
      methods := #[⟨"show"⟩, ⟨"main"⟩]
      implementations := #[⟨⟨1⟩, ⟨0⟩, .standard, 0⟩, ⟨⟨0⟩, ⟨1⟩, .standard, 4⟩]
      relocations := #[⟨.cls, 1, 0⟩, ⟨.imported, 1, 4⟩, ⟨.method, 0, 8⟩]
      code := Array.replicate 12 0 }),
    ("text", {
      externals := #["text.show"]
      classes := #[⟨"Text", .string, 1⟩]
      methods := #[⟨"length"⟩, ⟨"show"⟩]
      implementations := #[⟨⟨0⟩, ⟨1⟩, .external, 0⟩] })]

/-- The closure of the application is acceptable; that of the package, which has no main method,
is not. -/
theorem link_accepts_iff_two : (twoPackages.source.Fits "app" ∧ twoPackages.source.Fits "text") ∧
    twoPackages.source.Acceptable "app" ∧ ¬ twoPackages.source.Acceptable "text" := by
  have hfits : ∀ entry, twoPackages.source.Fits entry :=
    Library.fits_of_total (by decide +kernel) (by decide +kernel)
  have happ : (twoPackages.program? "app").isSome = true := by decide +kernel
  have htext : twoPackages.program? "text" = none := by decide +kernel
  refine ⟨⟨hfits "app", hfits "text"⟩, ?_, fun h => ?_⟩
  · obtain ⟨P, hP⟩ := Option.isSome_iff_exists.mp happ
    obtain ⟨journal, hlink⟩ := Library.program?_eq_some.mp hP
    exact (link_accepts_iff twoPackages "app" (hfits "app") {}).1.mp ⟨P, journal, hlink⟩
  · obtain ⟨P, journal, hlink⟩ :=
      (link_accepts_iff twoPackages "text" (hfits "text") {}).1.mpr h
    rw [Library.program?_eq_some.mpr ⟨journal, hlink⟩] at htext
    cases htext

end EffectMachine
