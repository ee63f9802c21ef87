/-
The closure of imports.

A package is linked behind everything that it imports, so the packages that have been linked
stand in an order in which imports come first. Such an order has no circles, and linking fails
on none of the packages if there are none.

* `Source.Imports`, `Source.Reaches`: what a package imports, and what is imported from it;
* `Source.Ordered`: packages, each behind those that it imports;
* `Linker.importPackage_eq_ok`: what linking a package and its imports does;
* `Linker.Grows.of_importPackage`: **linking goes through the closure of imports** in such an
  order;
* `Linker.exists_importPackage`: **a closure without circles can be linked**, if its packages
  exist and are valid.
-/
import EffectMachine.Proofs.PackageLinking
import Mathlib.Logic.Relation

namespace EffectMachine

namespace Source

variable {source : Source} {ps : List (String × Package)}

/-- A package of a name imports that of another one. -/
def Imports (source : Source) (name other : String) : Prop :=
  ∃ p, source.load name = .ok p ∧ other ∈ p.imported

/-- A package is imported from another one, perhaps through further ones. -/
def Reaches (source : Source) : String → String → Prop := Relation.ReflTransGen source.Imports

/-- Packages of different names, each behind those that it imports. -/
structure Ordered (source : Source) (ps : List (String × Package)) : Prop where
  nodup : (ps.map Prod.fst).Nodup
  load : ∀ x ∈ ps, source.load x.1 = .ok x.2
  imports : ∀ front x back, ps = front ++ x :: back →
    ∀ name ∈ x.2.imported, name ∈ front.map Prod.fst

/-- Everything that is imported from a package exists and is valid, and there are no
circles. -/
structure Sound (source : Source) (name : String) : Prop where
  present : ∀ other, source.Reaches name other → ∃ p, source.load other = .ok p
  valid : ∀ other p, source.Reaches name other → source.load other = .ok p → p.Valid
  acyclic : ∀ other, source.Reaches name other → ¬ Relation.TransGen source.Imports other other

lemma ordered_nil (source : Source) : source.Ordered [] where
  nodup := List.nodup_nil
  load x hx := by cases hx
  imports front x back h := absurd h (by simp)

namespace Ordered

/-- A package may be added behind those that it imports. -/
lemma concat (h : source.Ordered ps) {name : String} {p : Package}
    (hload : source.load name = .ok p) (hnew : name ∉ ps.map Prod.fst)
    (himports : ∀ other ∈ p.imported, other ∈ ps.map Prod.fst) :
    source.Ordered (ps ++ [(name, p)]) where
  nodup := by
    rw [List.map_append, List.map_singleton]
    refine List.nodup_append.mpr ⟨h.nodup, by simp, ?_⟩
    rintro a ha b hb rfl
    cases List.mem_singleton.mp hb
    exact hnew ha
  load x hx := by
    rcases List.mem_append.mp hx with hx | hx
    · exact h.load x hx
    · cases List.mem_singleton.mp hx
      exact hload
  imports front x back hsplit := by
    rcases List.append_eq_append_iff.mp hsplit with ⟨t, rfl, ht⟩ | ⟨t, rfl, ht⟩
    · cases t with
      | nil =>
          cases ht
          rw [List.append_nil]
          exact himports
      | cons y t => exact absurd ht (by simp)
    · cases t with
      | nil =>
          cases ht
          rw [List.append_nil] at himports
          exact himports
      | cons y t =>
          cases ht
          exact h.imports front x t rfl

lemma idxOf_lt (h : source.Ordered ps) {name other : String} (hname : name ∈ ps.map Prod.fst)
    (himports : source.Imports name other) :
    other ∈ ps.map Prod.fst ∧
      (ps.map Prod.fst).idxOf other < (ps.map Prod.fst).idxOf name := by
  obtain ⟨p, hload, himported⟩ := himports
  obtain ⟨x, hx, rfl⟩ := List.mem_map.mp hname
  obtain ⟨front, back, rfl⟩ := List.append_of_mem hx
  cases Except.ok.inj ((h.load x hx).symm.trans hload)
  have hbefore := h.imports front x back rfl other himported
  have hnodup := h.nodup
  rw [List.map_append, List.map_cons] at hnodup ⊢
  have hnew : x.1 ∉ front.map Prod.fst := fun hmem =>
    (List.nodup_append.mp hnodup).2.2 _ hmem _ List.mem_cons_self rfl
  refine ⟨List.mem_append_left _ hbefore, ?_⟩
  rw [List.idxOf_append_of_mem hbefore, List.idxOf_append_of_notMem hnew, List.idxOf_cons_self,
    Nat.add_zero]
  exact List.idxOf_lt_length_of_mem hbefore

lemma mem_of_reaches (h : source.Ordered ps) {name other : String}
    (hname : name ∈ ps.map Prod.fst) (hreaches : source.Reaches name other) :
    other ∈ ps.map Prod.fst := by
  induction hreaches with
  | refl => exact hname
  | tail _ himports ih => exact (h.idxOf_lt ih himports).1

/-- **There are no circles among packages that stand behind what they import.** -/
lemma acyclic (h : source.Ordered ps) {name : String} (hname : name ∈ ps.map Prod.fst) :
    ¬ Relation.TransGen source.Imports name name := by
  -- along imports the places in the list go down
  have hdown : ∀ {other : String}, Relation.TransGen source.Imports name other →
      other ∈ ps.map Prod.fst ∧
        (ps.map Prod.fst).idxOf other < (ps.map Prod.fst).idxOf name := by
    intro other hpath
    induction hpath with
    | single himports => exact h.idxOf_lt hname himports
    | tail _ himports ih =>
        obtain ⟨hmem, hlt⟩ := h.idxOf_lt ih.1 himports
        exact ⟨hmem, Nat.lt_trans hlt ih.2⟩
  exact fun hcircle => Nat.lt_irrefl _ (hdown hcircle).2

end Ordered

/-- So it is from what the package imports. -/
lemma Sound.imports {name other : String} (h : source.Sound name)
    (himports : source.Imports name other) : source.Sound other where
  present n hn := h.present n (.head himports hn)
  valid n p hn := h.valid n p (.head himports hn)
  acyclic n hn := h.acyclic n (.head himports hn)

end Source

namespace Linker

variable {source : Source} {l l' : Linker} {ps : List (String × Package)}

/-! ### Going through the imports -/

/-- The state in which the imports of a package are linked. -/
def entered (source : Source) (name : String) (l : Linker) : Linker :=
  (source.reports name).foldl (fun l e => l.record e) (l.enter name)

lemma entered_eq (source : Source) (name : String) (l : Linker) :
    ∃ journal, l.entered source name =
      { l with inProgress := l.inProgress ++ [name], journal := journal } := by
  have hreport : ∀ (es : List Entry) (l : Linker),
      ∃ journal, es.foldl (fun l e => l.record e) l = { l with journal := journal } := by
    intro es
    induction es with
    | nil => exact fun l => ⟨l.journal, rfl⟩
    | cons e es ih =>
        intro l
        obtain ⟨journal, heq⟩ := ih (l.record e)
        exact ⟨journal, by rw [List.foldl_cons, heq]; rfl⟩
  exact hreport (source.reports name) (l.enter name)

lemma inProgress_entered (source : Source) (name : String) (l : Linker) :
    (l.entered source name).inProgress = l.inProgress ++ [name] := by
  obtain ⟨journal, heq⟩ := entered_eq source name l
  rw [heq]

lemma bind_of_ok {α β : Type} {x : LinkM α} {f : α → LinkM β} {a : α} {l l₁ : Linker}
    (h : x l = .ok a l₁) : (x >>= f) l = f a l₁ := by
  simp only [bind, EStateM.bind, h]

/-- A package that has been loaded is linked after its imports. -/
lemma importPackage_loaded {d : Nat} {name : String} {p : Package}
    (hlinked : (l.linked? name).isSome = false) (hprogress : name ∉ l.inProgress)
    (hload : source.load name = .ok p) :
    importPackage source (d + 1) name l = .ok () l' ↔
      ∃ l₁, p.imported.forM (importPackage source d) (l.entered source name) = .ok () l₁ ∧
        l₁.linkPackage name p = .ok l' := by
  rw [importPackage.eq_def]
  simp only [get_bind, set_bind, hlinked, List.contains_iff_mem, hprogress, hload,
    Bool.false_eq_true, if_false]
  constructor
  · intro h
    obtain ⟨_, l₁, himports, h⟩ := exists_of_bind h
    refine ⟨l₁, himports, ?_⟩
    rw [get_bind] at h
    cases hlink : l₁.linkPackage name p with
    | error e =>
        rw [hlink] at h
        cases h
    | ok l₂ =>
        rw [hlink] at h
        cases h
        rfl
  · rintro ⟨l₁, himports, hlink⟩
    refine (bind_of_ok himports).trans ?_
    rw [get_bind, hlink]
    rfl

/-- **Linking a package and its imports** does nothing if the package has been linked. Otherwise
it is not in progress and can be loaded, all its imports are linked, and then the package. -/
lemma importPackage_eq_ok {depth : Nat} {name : String} :
    importPackage source depth name l = .ok () l' ↔
      ((l.linked? name).isSome = true ∧ l' = l) ∨
      ((l.linked? name).isSome = false ∧ name ∉ l.inProgress ∧ ∃ d p l₁, depth = d + 1 ∧
        source.load name = .ok p ∧
        p.imported.forM (importPackage source d) (l.entered source name) = .ok () l₁ ∧
        l₁.linkPackage name p = .ok l') := by
  cases hlinked : (l.linked? name).isSome with
  | true =>
      have heq : importPackage source depth name l = .ok () l := by
        rw [importPackage.eq_def]
        simp only [get_bind, hlinked]
        rfl
      rw [heq]
      simp [eq_comm]
  | false =>
      by_cases hprogress : name ∈ l.inProgress
      · have heq : importPackage source depth name l =
            .error (.circularImport (cycle l.inProgress name)) l := by
          rw [importPackage.eq_def]
          simp only [get_bind, hlinked, List.contains_iff_mem, hprogress]
          rfl
        rw [heq]
        simp [hprogress]
      · cases depth with
        | zero =>
            have heq : importPackage source 0 name l = .error (.missingPackage name) l := by
              rw [importPackage.eq_def]
              simp only [get_bind, hlinked, List.contains_iff_mem, hprogress]
              rfl
            rw [heq]
            simp
        | succ d =>
            cases hload : source.load name with
            | error e =>
                have heq : importPackage source (d + 1) name l =
                    .error e (l.entered source name) := by
                  rw [importPackage.eq_def]
                  simp only [get_bind, hlinked, List.contains_iff_mem, hprogress, hload]
                  rfl
                rw [heq]
                simp
            | ok p =>
                rw [importPackage_loaded hlinked hprogress hload]
                simp [hprogress]

/-- What linking packages and everything that they import has added, the packages before being
given. -/
structure Grows (source : Source) (ps : List (String × Package)) (l : Linker)
    (names : List String) (l' : Linker) (new : List (String × Package)) : Prop where
  holds : l'.Holds (ps ++ new)
  ordered : source.Ordered (ps ++ new)
  inProgress : l'.inProgress = l.inProgress
  reached : ∀ x ∈ new, ∃ name ∈ names, source.Reaches name x.1
  apart : ∀ x ∈ new, x.1 ∉ l.inProgress
  valid : ∀ x ∈ new, x.2.Valid
  linked : ∀ name ∈ names, name ∈ (ps ++ new).map Prod.fst

namespace Grows

lemma refl (h : l.Holds ps) (ho : source.Ordered ps) {names : List String}
    (hnames : ∀ name ∈ names, name ∈ ps.map Prod.fst) : Grows source ps l names l [] where
  holds := by rwa [List.append_nil]
  ordered := by rwa [List.append_nil]
  inProgress := rfl
  reached x hx := by cases hx
  apart x hx := by cases hx
  valid x hx := by cases hx
  linked := by rwa [List.append_nil]

lemma trans {l'' : Linker} {name : String} {names : List String}
    {new new' : List (String × Package)} (h : Grows source ps l [name] l' new)
    (h' : Grows source (ps ++ new) l' names l'' new') :
    Grows source ps l (name :: names) l'' (new ++ new') where
  holds := by
    rw [← List.append_assoc]
    exact h'.holds
  ordered := by
    rw [← List.append_assoc]
    exact h'.ordered
  inProgress := h'.inProgress.trans h.inProgress
  reached x hx := by
    rcases List.mem_append.mp hx with hx | hx
    · obtain ⟨n, hn, hreaches⟩ := h.reached x hx
      cases List.mem_singleton.mp hn
      exact ⟨name, List.mem_cons_self, hreaches⟩
    · obtain ⟨n, hn, hreaches⟩ := h'.reached x hx
      exact ⟨n, List.mem_cons_of_mem _ hn, hreaches⟩
  apart x hx := by
    rcases List.mem_append.mp hx with hx | hx
    · exact h.apart x hx
    · exact h.inProgress ▸ h'.apart x hx
  valid x hx := (List.mem_append.mp hx).elim (h.valid x) (h'.valid x)
  linked n hn := by
    rw [← List.append_assoc]
    rcases List.mem_cons.mp hn with rfl | hn
    · rw [List.map_append]
      exact List.mem_append_left _ (h.linked n List.mem_cons_self)
    · exact h'.linked n hn

/-- Linking a list of packages adds what linking each of them adds, and keeps what linking each of
them keeps. -/
lemma of_forM_with {C : Linker → List (String × Package) → Prop} {f : String → LinkM Unit}
    {names : List String}
    (hf : ∀ name ∈ names, ∀ {ps l l'}, l.Holds ps → source.Ordered ps → C l ps →
      f name l = .ok () l' → ∃ new, Grows source ps l [name] l' new ∧ C l' (ps ++ new))
    (h : l.Holds ps) (ho : source.Ordered ps) (hC : C l ps) (hl : names.forM f l = .ok () l') :
    ∃ new, Grows source ps l names l' new ∧ C l' (ps ++ new) := by
  induction names generalizing l ps with
  | nil =>
      cases hl
      refine ⟨[], .refl h ho (fun name hname => by cases hname), ?_⟩
      rwa [List.append_nil]
  | cons name names ih =>
      obtain ⟨_, l₁, hname, hl⟩ := exists_of_bind hl
      obtain ⟨new, hnew, hC₁⟩ := hf name List.mem_cons_self h ho hC hname
      obtain ⟨new', hnew', hC'⟩ := ih (fun n hn => hf n (List.mem_cons_of_mem _ hn)) hnew.holds
        hnew.ordered hC₁ hl
      refine ⟨new ++ new', hnew.trans hnew', ?_⟩
      rwa [← List.append_assoc]

/-- Linking a list of packages adds what linking each of them adds. -/
lemma of_forM {f : String → LinkM Unit} {names : List String}
    (hf : ∀ name ∈ names, ∀ {ps l l'}, l.Holds ps → source.Ordered ps → f name l = .ok () l' →
      ∃ new, Grows source ps l [name] l' new)
    (h : l.Holds ps) (ho : source.Ordered ps) (hl : names.forM f l = .ok () l') :
    ∃ new, Grows source ps l names l' new := by
  obtain ⟨new, hnew, -⟩ := of_forM_with (C := fun _ _ => True) (fun name hname {_ _ _} h ho _ hl =>
    (hf name hname h ho hl).imp fun _ hnew => ⟨hnew, trivial⟩) h ho trivial hl
  exact ⟨new, hnew⟩

/-- A package is linked behind what it imports. -/
lemma linkPackage {name : String} {p : Package} {l₁ : Linker} {new : List (String × Package)}
    (hlinked : name ∉ ps.map Prod.fst) (hprogress : name ∉ l.inProgress)
    (hload : source.load name = .ok p)
    (h : Grows source ps (l.entered source name) p.imported l₁ new)
    (hl : l₁.linkPackage name p = .ok l') : Grows source ps l [name] l' (new ++ [(name, p)]) := by
  have hfresh : ∀ x ∈ new, x.1 ∉ l.inProgress ∧ x.1 ≠ name := fun x hx => by
    have hapart := h.apart x hx
    rw [inProgress_entered, List.mem_append, List.mem_singleton, not_or] at hapart
    exact hapart
  have hnew : name ∉ (ps ++ new).map Prod.fst := by
    rw [List.map_append, List.mem_append, not_or]
    refine ⟨hlinked, fun hmem => ?_⟩
    obtain ⟨x, hx, heq⟩ := List.mem_map.mp hmem
    exact (hfresh x hx).2 heq
  have himported : ∀ other ∈ p.imported, (l₁.linked? other).isSome = true := fun other hother =>
    (h.holds.linked?_isSome other).mpr (h.linked other hother)
  have hordered := h.ordered.concat hload hnew h.linked
  refine ⟨?_, ?_, ?_, fun x hx => ?_, fun x hx => ?_, fun x hx => ?_, fun n hn => ?_⟩
  · rw [← List.append_assoc]
    exact h.holds.linkPackage hl
  · rw [← List.append_assoc]
    exact hordered
  · obtain ⟨l₂, happend, rfl⟩ := linkPackage_eq_ok hl
    obtain ⟨rows, code, rfl, -⟩ := append_eq_ok happend
    show l₁.inProgress.dropLast = l.inProgress
    rw [h.inProgress, inProgress_entered, List.dropLast_concat]
  · refine ⟨name, List.mem_singleton_self name, ?_⟩
    rcases List.mem_append.mp hx with hx | hx
    · obtain ⟨other, hother, hreaches⟩ := h.reached x hx
      exact .head ⟨p, hload, hother⟩ hreaches
    · cases List.mem_singleton.mp hx
      exact .refl
  · rcases List.mem_append.mp hx with hx | hx
    · exact (hfresh x hx).1
    · cases List.mem_singleton.mp hx
      exact hprogress
  · rcases List.mem_append.mp hx with hx | hx
    · exact h.valid x hx
    · cases List.mem_singleton.mp hx
      exact (exists_linkPackage_iff name himported).mp ⟨l', hl⟩
  · cases List.mem_singleton.mp hn
    simp

/-- **Linking goes through the closure of imports**, and keeps what linking one package keeps. -/
theorem of_importPackage_with {C : Linker → List (String × Package) → Prop}
    (htables : ∀ {l ps}, C l ps → ∀ inProgress journal,
      C { l with inProgress := inProgress, journal := journal } ps)
    (hlink : ∀ {l l' ps name p}, l.Holds ps → C l ps → l.linkPackage name p = .ok l' →
      C l' (ps ++ [(name, p)]))
    {depth : Nat} {name : String} (h : l.Holds ps) (ho : source.Ordered ps) (hC : C l ps)
    (hl : importPackage source depth name l = .ok () l') :
    ∃ new, Grows source ps l [name] l' new ∧ C l' (ps ++ new) := by
  induction depth generalizing name l l' ps with
  | zero =>
      rcases importPackage_eq_ok.mp hl with ⟨hlinked, rfl⟩ | ⟨-, -, d, p, l₁, hd, -⟩
      · refine ⟨[], .refl h ho (fun n hn => ?_), by rwa [List.append_nil]⟩
        cases List.mem_singleton.mp hn
        exact (h.linked?_isSome name).mp hlinked
      · cases hd
  | succ depth ih =>
      rcases importPackage_eq_ok.mp hl with
        ⟨hlinked, rfl⟩ | ⟨hlinked, hprogress, d, p, l₁, hd, hload, himports, hlinkPackage⟩
      · refine ⟨[], .refl h ho (fun n hn => ?_), by rwa [List.append_nil]⟩
        cases List.mem_singleton.mp hn
        exact (h.linked?_isSome name).mp hlinked
      · cases hd
        have hentered : (l.entered source name).Holds ps ∧ C (l.entered source name) ps := by
          obtain ⟨journal, heq⟩ := entered_eq source name l
          rw [heq]
          exact ⟨h.of_tables _ _, htables hC _ _⟩
        obtain ⟨new, hnew, hC₁⟩ := of_forM_with (fun n _ {_ _ _} h ho hC hl => ih h ho hC hl)
          hentered.1 ho hentered.2 himports
        have hnot : name ∉ ps.map Prod.fst := fun hmem => by
          rw [(h.linked?_isSome name).mpr hmem] at hlinked
          cases hlinked
        refine ⟨_, hnew.linkPackage hnot hprogress hload hlinkPackage, ?_⟩
        rw [← List.append_assoc]
        exact hlink hnew.holds hC₁ hlinkPackage

/-- **Linking goes through the closure of imports.** -/
theorem of_importPackage {depth : Nat} {name : String} (h : l.Holds ps) (ho : source.Ordered ps)
    (hl : importPackage source depth name l = .ok () l') :
    ∃ new, Grows source ps l [name] l' new := by
  obtain ⟨new, hnew, -⟩ := of_importPackage_with (C := fun _ _ => True) (fun _ _ _ => trivial)
    (fun _ _ _ => trivial) h ho trivial hl
  exact ⟨new, hnew⟩

end Grows

/-! ### Closures that can be linked -/

/-- A list of packages can be linked if each of them can, whatever has been linked before. -/
lemma exists_forM {depth : Nat} {names : List String}
    (hf : ∀ name ∈ names, ∀ {ps l₁}, l₁.Holds ps → source.Ordered ps →
      l₁.inProgress = l.inProgress → ∃ l', importPackage source depth name l₁ = .ok () l')
    (h : l.Holds ps) (ho : source.Ordered ps) :
    ∃ l', names.forM (importPackage source depth) l = .ok () l' := by
  -- packages that have been linked leave what is in progress as it was
  have hrest : ∀ {ps l₁}, l₁.Holds ps → source.Ordered ps → l₁.inProgress = l.inProgress →
      ∃ l', names.forM (importPackage source depth) l₁ = .ok () l' := by
    induction names with
    | nil => exact fun {_ l₁} _ _ _ => ⟨l₁, rfl⟩
    | cons name names ih =>
        intro ps l₁ h₁ ho₁ hprogress
        obtain ⟨l₂, hname⟩ := hf name List.mem_cons_self h₁ ho₁ hprogress
        obtain ⟨new, hnew⟩ := Grows.of_importPackage h₁ ho₁ hname
        obtain ⟨l', hl'⟩ := ih (fun n hn => hf n (List.mem_cons_of_mem _ hn)) hnew.holds
          hnew.ordered (hnew.inProgress.trans hprogress)
        exact ⟨l', (bind_of_ok hname).trans hl'⟩
  exact hrest h ho rfl

/-- **A closure without circles can be linked**, if its packages exist and are valid. The
packages in progress are different ones that can be loaded, so they are fewer than the bound, and
what is left of it suffices. -/
theorem exists_importPackage
    (hbound : ∀ names : List String, names.Nodup → (∀ n ∈ names, ∃ p, source.load n = .ok p) →
      names.length < source.bound)
    {depth : Nat} {name : String} (h : l.Holds ps) (ho : source.Ordered ps)
    (hsound : source.Sound name)
    (hpath : ∀ n ∈ l.inProgress, Relation.TransGen source.Imports n name)
    (hnodup : l.inProgress.Nodup) (hdepth : source.bound ≤ depth + l.inProgress.length) :
    ∃ l', importPackage source depth name l = .ok () l' := by
  induction depth generalizing name l ps with
  | zero =>
      have hlt := hbound l.inProgress hnodup fun n hn => by
        obtain ⟨other, ⟨p, hload, -⟩, -⟩ := Relation.TransGen.head'_iff.mp (hpath n hn)
        exact ⟨p, hload⟩
      omega
  | succ depth ih =>
      cases hlinked : (l.linked? name).isSome with
      | true => exact ⟨l, importPackage_eq_ok.mpr (.inl ⟨hlinked, rfl⟩)⟩
      | false =>
          have hprogress : name ∉ l.inProgress := fun hmem =>
            hsound.acyclic name .refl (hpath name hmem)
          obtain ⟨p, hload⟩ := hsound.present name .refl
          have hentered : (l.entered source name).Holds ps := by
            obtain ⟨journal, heq⟩ := entered_eq source name l
            rw [heq]
            exact h.of_tables _ _
          -- what is in progress now leads to the imports of the package
          obtain ⟨l₁, himports⟩ : ∃ l₁, p.imported.forM (importPackage source depth)
              (l.entered source name) = .ok () l₁ := by
            refine exists_forM (fun other hother => fun h₁ ho₁ heq => ?_) hentered ho
            have himports : source.Imports name other := ⟨p, hload, hother⟩
            rw [inProgress_entered] at heq
            refine ih h₁ ho₁ (hsound.imports himports) (fun n hn => ?_) ?_ ?_
            · rw [heq, List.mem_append, List.mem_singleton] at hn
              rcases hn with hn | rfl
              · exact (hpath n hn).tail himports
              · exact .single himports
            · rw [heq]
              exact List.nodup_append.mpr ⟨hnodup, by simp, by
                rintro a ha b hb rfl
                cases List.mem_singleton.mp hb
                exact hprogress ha⟩
            · rw [heq, List.length_append, List.length_singleton]
              omega
          obtain ⟨new, hnew⟩ := Grows.of_forM (fun n _ => fun h ho hl =>
            Grows.of_importPackage h ho hl) hentered ho himports
          obtain ⟨l', hl'⟩ := (exists_linkPackage_iff name fun other hother =>
            (hnew.holds.linked?_isSome other).mpr (hnew.linked other hother)).mpr
            (hsound.valid name p .refl hload)
          exact ⟨l', importPackage_eq_ok.mpr
            (.inr ⟨hlinked, hprogress, depth, p, l₁, rfl, hload, himports, hl'⟩)⟩

end Linker

end EffectMachine
