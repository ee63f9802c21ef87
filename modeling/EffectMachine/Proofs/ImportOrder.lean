/-
The order of imports, and circles among them.

Imports are linked depth first, along a path of packages whose imports are being linked. A package
that is met again on this path closes a circle; one that is met again later has been linked. So
packages come behind everything that they import, and a circle that is reported is one.

* `Source.Circle`: a circle of imports that can be reached from a package;
* `Source.Completed`: packages in the order in which they have to be linked;
* `Linker.Approaches`: the path on which a package is met, and `Approaches.circle`: **a package
  that is met again on its path closes a circle**;
* `Source.Fails`: why a closure cannot be linked, and `Linker.fails_of_importPackage`: **linking
  fails for no other reason**, in particular not for want of depth;
* `Linker.importPackage_succ`: **more depth changes nothing**;
* `closure_linked_in_order`: all of this for the packages of a library.
-/
import EffectMachine.Proofs.LinkAcceptance
import EffectMachine.Proofs.PackedDispatch
import Mathlib.Data.List.Chain

namespace EffectMachine

/-! ### Refusals -/

/-- A dispatch table is refused only for a method that is implemented twice. -/
lemma pack_eq_error {rows : Array MethodRow} {e : LinkError} (h : pack rows = .error e) :
    ∃ method cls, e = .duplicateImplementation method cls := by
  obtain ⟨row, -, cls, he, -⟩ := exists_repeats_of_pack h
  exact ⟨row.name, cls, he⟩

/-! ### References to imports -/

namespace Bases

variable {b : Bases} {p : Package}

/-- An import that has been linked is found. -/
lemma resolve_ne_notLinked (hpackages : ∀ name ∈ p.imported, (b.packages name).isSome = true)
    (r : Relocation) (name : String) : b.resolve p r ≠ .error (.notLinked name) := by
  intro h
  rw [resolve] at h
  cases hkind : r.kind with
  | cls =>
      rw [hkind] at h
      dsimp only at h
      split at h
      · split at h <;> cases h
      · cases h
  | code =>
      rw [hkind] at h
      cases h
  | global =>
      rw [hkind] at h
      cases h
  | method =>
      rw [hkind] at h
      dsimp only at h
      split at h <;> cases h
  | imported =>
      rw [hkind] at h
      dsimp only at h
      split at h
      · cases h
      · rename_i other hother
        split at h
        · cases h
        · rename_i hself
          obtain ⟨i, -, hi⟩ := Option.bind_eq_some_iff.mp hother
          have hmem : other ∈ p.imports.toList :=
            Array.mem_toList_iff.mpr (Array.mem_of_getElem? hi)
          have hsome := hpackages other (List.mem_filter.mpr ⟨hmem, by simpa using hself⟩)
          split at h
          · cases h
          · rename_i hnone
            simp [hnone] at hsome

end Bases

lemma relocate_ne_notLinked {b : Bases} {p : Package}
    (hpackages : ∀ name ∈ p.imported, (b.packages name).isSome = true) (name : String)
    (rs : List Relocation) (code : Code) : relocate b p rs code ≠ .error (.notLinked name) := by
  induction rs generalizing code with
  | nil =>
      intro h
      cases h
  | cons r rs ih =>
      intro h
      rw [relocate] at h
      split at h
      · rename_i e hresolve
        cases h
        exact Bases.resolve_ne_notLinked hpackages r name hresolve
      · split at h
        · cases h
        · exact ih _ h

lemma relocateImplementation_ne_notLinked (b : Bases) (p : Package) (i : Implementation)
    (name : String) : relocateImplementation b p i ≠ .error (.notLinked name) := by
  intro h
  rw [relocateImplementation] at h
  split at h
  · cases h
  · split at h
    · split at h <;> cases h
    · cases h

namespace Linker

variable {source : Source} {l l' : Linker} {ps : List (String × Package)} {entry name : String}

lemma addImplementations_ne_notLinked (b : Bases) (p : Package) (name : String)
    (is : List Implementation) (l : Linker) :
    addImplementations b p is l ≠ .error (.notLinked name) := by
  induction is generalizing l with
  | nil =>
      intro h
      cases h
  | cons i is ih =>
      intro h
      rw [addImplementations] at h
      split at h
      · rename_i e hi
        cases h
        exact relocateImplementation_ne_notLinked b p i name hi
      · exact ih _ h

/-- **A package behind its imports is refused only if it is not valid**, and never because one of
them has not been linked. -/
lemma linkPackage_eq_error {p : Package} {e : LinkError}
    (himports : ∀ other ∈ p.imported, (l.linked? other).isSome = true)
    (h : l.linkPackage name p = .error e) :
    ¬ p.Valid ∧ ∃ reason, e = .invalidPackage name reason ∧
      ∀ other, reason ≠ .notLinked other := by
  constructor
  · intro hvalid
    obtain ⟨l', hl'⟩ := (exists_linkPackage_iff name himports).mpr hvalid
    rw [hl'] at h
    cases h
  · rw [linkPackage] at h
    dsimp only at h
    rw [← started] at h
    split at h
    · rename_i reason happend
      cases h
      refine ⟨reason, rfl, ?_⟩
      rintro other rfl
      rw [append] at happend
      dsimp only at happend
      split at happend
      · rename_i hrelocate
        cases happend
        -- the packages that relocation knows are those that have been linked
        refine relocate_ne_notLinked (fun n hn => ?_) other _ _ hrelocate
        have hlinked : (((l.started.interned p).linked? n).map (·.global)).isSome = true := by
          rw [linked?_interned, Option.isSome_map]
          exact himports n hn
        exact hlinked
      · split at happend
        · rename_i hadd
          cases happend
          exact addImplementations_ne_notLinked _ _ other _ _ hadd
        · cases happend
    · cases h

end Linker

/-! ### Circles -/

namespace Source

variable {source : Source} {entry : String}

/-- A circle of imports that can be reached from a package: each package imports the next one, the
first is the last, and all others are different. -/
structure Circle (source : Source) (entry : String) (cycle : List String) : Prop where
  length : 2 ≤ cycle.length
  closed : cycle.head? = cycle.getLast?
  nodup : cycle.dropLast.Nodup
  imports : cycle.IsChain source.Imports
  reached : ∀ name, cycle.head? = some name → source.Reaches entry name

/-- Going round a circle leads back. -/
lemma Circle.exists_transGen {cycle : List String} (h : source.Circle entry cycle) :
    ∃ name, source.Reaches entry name ∧ Relation.TransGen source.Imports name name := by
  obtain ⟨hlength, hclosed, -, himports, hreached⟩ := h
  match cycle with
  | [] => simp at hlength
  | [name] => simp at hlength
  | name :: next :: rest =>
      refine ⟨name, hreached name rfl, ?_⟩
      have hfirst : source.Imports name next := himports.rel
      have hrest : Relation.ReflTransGen source.Imports next
          ((next :: rest).getLast (List.cons_ne_nil _ _)) :=
        List.relationReflTransGen_of_exists_isChain _ himports.tail (List.cons_ne_nil _ _)
      have hlast : (next :: rest).getLast (List.cons_ne_nil _ _) = name := by
        simpa [List.getLast?_eq_getLast_of_ne_nil, eq_comm] using hclosed
      rw [hlast] at hrest
      exact Relation.TransGen.head' hfirst hrest

/-- The packages that can be reached from a package, each once and behind those that it imports,
so that the package itself is the last one. -/
structure Completed (source : Source) (entry : String) (names : List String) : Prop where
  nodup : names.Nodup
  mem_iff : ∀ name, name ∈ names ↔ source.Reaches entry name
  imports : ∀ front name back, names = front ++ name :: back →
    ∀ other, source.Imports name other → other ∈ front
  last : names.getLast? = some entry

/-- Why the closure of a package cannot be linked: there is a circle, a package that cannot be
loaded, or one that is not valid. -/
inductive Fails (source : Source) (entry : String) : LinkError → Prop where
  | circle {cycle : List String} (h : source.Circle entry cycle) :
      Fails source entry (.circularImport cycle)
  | unloadable {name : String} {e : LinkError} (hreaches : source.Reaches entry name)
      (hload : source.load name = .error e) : Fails source entry e
  | invalid {name : String} {p : Package} {reason : InvalidReference}
      (hmember : source.Member entry name p) (hvalid : ¬ p.Valid)
      (hreason : ∀ other, reason ≠ .notLinked other) :
      Fails source entry (.invalidPackage name reason)

end Source

namespace Linker

variable {source : Source} {l l' : Linker} {ps : List (String × Package)} {entry name : String}

/-! ### The path to a package -/

/-- The packages in progress are a path on which a package is met: each imports the next one, the
last of them imports the package, and all are different. -/
structure Approaches (source : Source) (entry : String) (l : Linker) (name : String) : Prop where
  chain : (l.inProgress ++ [name]).IsChain source.Imports
  nodup : l.inProgress.Nodup
  reached : ∀ n ∈ l.inProgress ++ [name], source.Reaches entry n
  loaded : ∀ n ∈ l.inProgress, ∃ p, source.load n = .ok p

namespace Approaches

/-- At first the entry package is met on an empty path. -/
lemma start (source : Source) (entry : String) (journal : Journal) :
    (fresh journal).Approaches source entry entry where
  chain := List.isChain_singleton entry
  nodup := List.nodup_nil
  reached n hn := by
    cases List.mem_singleton.mp hn
    exact .refl
  loaded n hn := by cases hn

/-- The imports of a package are met on the path that it extends. -/
lemma step (h : l.Approaches source entry name) (hnew : name ∉ l.inProgress) {p : Package}
    (hload : source.load name = .ok p) {other : String} (hother : other ∈ p.imported)
    (hl' : l'.inProgress = l.inProgress ++ [name]) : l'.Approaches source entry other where
  chain := by
    rw [hl']
    refine h.chain.append (List.isChain_singleton other) ?_
    intro a ha b hb
    rw [List.getLast?_concat, Option.mem_some] at ha
    rw [List.head?_singleton, Option.mem_some] at hb
    subst ha hb
    exact ⟨p, hload, hother⟩
  nodup := by
    rw [hl', ← List.concat_eq_append]
    exact h.nodup.concat hnew
  reached n hn := by
    rw [hl', List.mem_append, List.mem_singleton] at hn
    rcases hn with hn | rfl
    · exact h.reached n hn
    · exact (h.reached name (by simp)).tail ⟨p, hload, hother⟩
  loaded n hn := by
    rw [hl', List.mem_append, List.mem_singleton] at hn
    rcases hn with hn | rfl
    · exact h.loaded n hn
    · exact ⟨p, hload⟩

/-- **A package that is met again on its path closes a circle.** -/
lemma circle (h : l.Approaches source entry name) (hmem : name ∈ l.inProgress) :
    source.Circle entry (cycle l.inProgress name) := by
  -- the circle is the path from the first place of the package on
  obtain ⟨before, after, hsplit, hbefore⟩ := List.eq_append_cons_of_mem hmem
  have hcycle : cycle l.inProgress name = name :: after ++ [name] := by
    have hpass : ∀ n ∈ before, decide (n ≠ name) = true := by
      intro n hn
      rw [decide_eq_true_eq]
      rintro rfl
      exact hbefore hn
    rw [cycle, hsplit, List.dropWhile_append_of_pos hpass]
    simp
  have hchain := h.chain
  have hnodup := h.nodup
  rw [hsplit] at hchain hnodup
  rw [List.append_assoc] at hchain
  rw [hcycle]
  exact
    { length := by simp
      closed := by rw [List.getLast?_concat, List.cons_append, List.head?_cons]
      nodup := by
        rw [List.dropLast_concat]
        exact (List.nodup_append.mp hnodup).2.1
      imports := hchain.right_of_append
      reached := by
        intro n hn
        rw [List.cons_append, List.head?_cons, Option.some.injEq] at hn
        subst hn
        exact h.reached name (by simp) }

lemma length_lt (hbound : ∀ names : List String, names.Nodup →
      (∀ n ∈ names, ∃ p, source.load n = .ok p) → names.length < source.bound)
    (h : l.Approaches source entry name) : l.inProgress.length < source.bound :=
  hbound l.inProgress h.nodup h.loaded

end Approaches

/-! ### Why linking fails -/

/-- What remains to be done for a package whose imports have been linked. -/
def conclude (name : String) (p : Package) : LinkM Unit := do
  match (← get).linkPackage name p with
  | .error e => throw e
  | .ok l => set l

lemma importPackage_of_linked (depth : Nat) (h : (l.linked? name).isSome = true) :
    importPackage source depth name l = .ok () l :=
  importPackage_eq_ok.mpr (.inl ⟨h, rfl⟩)

lemma importPackage_of_mem (depth : Nat) (h : (l.linked? name).isSome = false)
    (hmem : name ∈ l.inProgress) :
    importPackage source depth name l = .error (.circularImport (cycle l.inProgress name)) l := by
  rw [importPackage.eq_def]
  simp only [get_bind, h, List.contains_iff_mem, hmem]
  rfl

lemma importPackage_of_unloadable (depth : Nat) {e : LinkError}
    (h : (l.linked? name).isSome = false) (hnew : name ∉ l.inProgress)
    (hload : source.load name = .error e) :
    importPackage source (depth + 1) name l = .error e (l.entered source name) := by
  rw [importPackage.eq_def]
  simp only [get_bind, h, List.contains_iff_mem, hnew, hload]
  rfl

lemma importPackage_of_loaded (depth : Nat) {p : Package} (h : (l.linked? name).isSome = false)
    (hnew : name ∉ l.inProgress) (hload : source.load name = .ok p) :
    importPackage source (depth + 1) name l =
      (p.imported.forM (importPackage source depth) >>= fun _ => conclude name p)
        (l.entered source name) := by
  rw [importPackage.eq_def]
  simp only [get_bind, h, List.contains_iff_mem, hnew, hload]
  rfl

lemma error_of_bind {α β : Type} {x : LinkM α} {f : α → LinkM β} {e : LinkError}
    (h : (x >>= f) l = .error e l') :
    x l = .error e l' ∨ ∃ a l₁, x l = .ok a l₁ ∧ f a l₁ = .error e l' := by
  simp only [bind, EStateM.bind] at h
  split at h
  · rename_i a l₁ hx
    exact .inr ⟨a, l₁, hx, h⟩
  · rename_i e' l₁ hx
    cases h
    exact .inl hx

lemma bind_agree {α β : Type} {x y : LinkM α} {f g : α → LinkM β} (hx : x l = y l)
    (hf : ∀ a l₁, y l = .ok a l₁ → f a l₁ = g a l₁) : (x >>= f) l = (y >>= g) l := by
  simp only [bind, EStateM.bind, hx]
  cases hy : y l with
  | error e l₁ => rfl
  | ok a l₁ => exact hf a l₁ hy

lemma conclude_eq_error {p : Package} {e : LinkError} (h : conclude name p l = .error e l') :
    l.linkPackage name p = .error e := by
  rw [conclude, get_bind] at h
  cases hlink : l.linkPackage name p with
  | error e' =>
      rw [hlink] at h
      cases h
      rfl
  | ok l₁ =>
      rw [hlink] at h
      cases h

/-- If linking a list of packages fails, it does at one of them, those before being linked. -/
lemma exists_of_forM_error {depth : Nat} {names : List String} {e : LinkError} (h : l.Holds ps)
    (ho : source.Ordered ps)
    (hl : names.forM (importPackage source depth) l = .error e l') :
    ∃ name ∈ names, ∃ ps₁ l₁, l₁.Holds ps₁ ∧ source.Ordered ps₁ ∧
      l₁.inProgress = l.inProgress ∧ importPackage source depth name l₁ = .error e l' := by
  induction names generalizing l ps with
  | nil => cases hl
  | cons name names ih =>
      rcases error_of_bind hl with hname | ⟨_, l₁, hname, hrest⟩
      · exact ⟨name, List.mem_cons_self, ps, l, h, ho, rfl, hname⟩
      · obtain ⟨new, hnew⟩ := Grows.of_importPackage h ho hname
        obtain ⟨n, hn, ps₂, l₂, h₂, ho₂, hprogress, herror⟩ := ih hnew.holds hnew.ordered hrest
        exact ⟨n, List.mem_cons_of_mem _ hn, ps₂, l₂, h₂, ho₂, hprogress.trans hnew.inProgress,
          herror⟩

lemma Holds.entered (h : l.Holds ps) (source : Source) (name : String) :
    (l.entered source name).Holds ps := by
  obtain ⟨journal, heq⟩ := entered_eq source name l
  rw [heq]
  exact h.of_tables _ _

/-- **Linking fails because of a circle, or because of a package that cannot be loaded or is not
valid**, and for no other reason. The path is shorter than the bound, so depth is not wanting. -/
theorem fails_of_importPackage
    (hbound : ∀ names : List String, names.Nodup → (∀ n ∈ names, ∃ p, source.load n = .ok p) →
      names.length < source.bound)
    {depth : Nat} {e : LinkError} (h : l.Holds ps) (ho : source.Ordered ps)
    (hpath : l.Approaches source entry name)
    (hdepth : source.bound ≤ depth + l.inProgress.length)
    (hl : importPackage source depth name l = .error e l') : source.Fails entry e := by
  induction depth generalizing name l l' ps with
  | zero =>
      have hlt := hpath.length_lt hbound
      omega
  | succ depth ih =>
      have hreaches : source.Reaches entry name := hpath.reached name (by simp)
      cases hlinked : (l.linked? name).isSome with
      | true =>
          rw [importPackage_of_linked _ hlinked] at hl
          cases hl
      | false =>
          by_cases hmem : name ∈ l.inProgress
          · rw [importPackage_of_mem _ hlinked hmem] at hl
            cases hl
            exact .circle (hpath.circle hmem)
          · cases hload : source.load name with
            | error e' =>
                rw [importPackage_of_unloadable _ hlinked hmem hload] at hl
                cases hl
                exact .unloadable hreaches hload
            | ok p =>
                rw [importPackage_of_loaded _ hlinked hmem hload] at hl
                have hentered := h.entered source name
                rcases error_of_bind hl with himports | ⟨_, l₁, himports, hlink⟩
                · -- one of the imports cannot be linked
                  obtain ⟨other, hother, ps₁, l₁, h₁, ho₁, hprogress, herror⟩ :=
                    exists_of_forM_error hentered ho himports
                  rw [inProgress_entered] at hprogress
                  refine ih h₁ ho₁ (hpath.step hmem hload hother hprogress) ?_ herror
                  rw [hprogress, List.length_append, List.length_singleton]
                  omega
                · -- the imports have been linked, but the package is not valid
                  obtain ⟨new, hnew⟩ := Grows.of_forM (fun n _ => fun h ho hl =>
                    Grows.of_importPackage h ho hl) hentered ho himports
                  obtain ⟨hvalid, reason, rfl, hreason⟩ := linkPackage_eq_error (fun other hother =>
                    (hnew.holds.linked?_isSome other).mpr (hnew.linked other hother))
                    (conclude_eq_error hlink)
                  exact .invalid ⟨hreaches, hload⟩ hvalid hreason

/-! ### Depth -/

/-- Linking a list of packages does not depend on the depth if linking each of them does not. -/
lemma forM_importPackage_succ {depth : Nat} {names : List String}
    (hf : ∀ name ∈ names, ∀ {ps l₁}, l₁.Holds ps → source.Ordered ps →
      l₁.inProgress = l.inProgress →
        importPackage source (depth + 1) name l₁ = importPackage source depth name l₁)
    (h : l.Holds ps) (ho : source.Ordered ps) :
    names.forM (importPackage source (depth + 1)) l =
      names.forM (importPackage source depth) l := by
  induction names generalizing l ps with
  | nil => rfl
  | cons name names ih =>
      refine bind_agree (hf name List.mem_cons_self h ho rfl) ?_
      intro _ l₁ hl
      obtain ⟨new, hnew⟩ := Grows.of_importPackage h ho hl
      refine ih (fun n hn => ?_) hnew.holds hnew.ordered
      intro ps₂ l₂ h₂ ho₂ hprogress
      exact hf n (List.mem_cons_of_mem _ hn) h₂ ho₂ (hprogress.trans hnew.inProgress)

/-- **More depth changes nothing**: imports are nested along a path, which is shorter than the
bound. -/
theorem importPackage_succ
    (hbound : ∀ names : List String, names.Nodup → (∀ n ∈ names, ∃ p, source.load n = .ok p) →
      names.length < source.bound)
    {depth : Nat} (h : l.Holds ps) (ho : source.Ordered ps)
    (hpath : l.Approaches source entry name)
    (hdepth : source.bound ≤ depth + l.inProgress.length) :
    importPackage source (depth + 1) name l = importPackage source depth name l := by
  induction depth generalizing name l ps with
  | zero =>
      have hlt := hpath.length_lt hbound
      omega
  | succ depth ih =>
      cases hlinked : (l.linked? name).isSome with
      | true => rw [importPackage_of_linked _ hlinked, importPackage_of_linked _ hlinked]
      | false =>
          by_cases hmem : name ∈ l.inProgress
          · rw [importPackage_of_mem _ hlinked hmem, importPackage_of_mem _ hlinked hmem]
          · cases hload : source.load name with
            | error e =>
                rw [importPackage_of_unloadable _ hlinked hmem hload,
                  importPackage_of_unloadable _ hlinked hmem hload]
            | ok p =>
                have himports : p.imported.forM (importPackage source (depth + 1))
                    (l.entered source name) =
                      p.imported.forM (importPackage source depth) (l.entered source name) := by
                  refine forM_importPackage_succ (fun other hother => ?_)
                    (h.entered source name) ho
                  intro ps₁ l₁ h₁ ho₁ hprogress
                  rw [inProgress_entered] at hprogress
                  refine ih h₁ ho₁ (hpath.step hmem hload hother hprogress) ?_
                  rw [hprogress, List.length_append, List.length_singleton]
                  omega
                rw [importPackage_of_loaded _ hlinked hmem hload,
                  importPackage_of_loaded _ hlinked hmem hload]
                exact bind_agree himports fun _ _ _ => rfl

lemma importPackage_of_bound_le
    (hbound : ∀ names : List String, names.Nodup → (∀ n ∈ names, ∃ p, source.load n = .ok p) →
      names.length < source.bound)
    {depth : Nat} (hdepth : source.bound ≤ depth) (journal : Journal) :
    importPackage source depth entry (fresh journal) =
      importPackage source source.bound entry (fresh journal) := by
  induction depth, hdepth using Nat.le_induction with
  | base => rfl
  | succ depth hdepth ih =>
      rw [← ih]
      exact importPackage_succ hbound (holds_fresh journal) source.ordered_nil
        (.start source entry journal) (Nat.le_add_right_of_le hdepth)

/-! ### The closure in order -/

/-- The builtin table is refused only for two classes of one builtin kind. -/
lemma builtinTableFrom_eq_error {decls : List ClassDecl} {index : Nat} {t : BuiltinTable}
    {e : LinkError} (h : builtinTableFrom index t decls = .error e) :
    ∃ kind first second, e = .duplicateBuiltin kind first second := by
  induction decls generalizing index t with
  | nil => cases h
  | cons decl rest ih =>
      rw [builtinTableFrom] at h
      split at h
      · exact ih h
      · split at h
        · cases h
          exact ⟨_, _, _, rfl⟩
        · exact ih h

/-- A program whose entry package has been linked is not found to miss it. -/
lemma complete_ne_missingPackage (h : (l.linked? entry).isSome = true) (name : String) :
    l.complete entry ≠ .error (.missingPackage name) := by
  intro herror
  obtain ⟨package, hpackage⟩ := Option.isSome_iff_exists.mp h
  rw [complete, hpackage] at herror
  split at herror
  · cases herror
  · dsimp only at herror
    split at herror
    · rename_i e hbuiltins
      cases herror
      obtain ⟨_, _, _, heq⟩ := builtinTableFrom_eq_error hbuiltins
      cases heq
    · split at herror
      · rename_i e hpack
        cases herror
        obtain ⟨_, _, heq⟩ := pack_eq_error hpack
        cases heq
      · cases herror

/-- A package is linked behind everything that it imports, and so it is the last one. -/
lemma last_of_importPackage {depth : Nat} (h : l.Holds ps) (ho : source.Ordered ps)
    (hlinked : name ∉ ps.map Prod.fst) (hl : importPackage source depth name l = .ok () l') :
    (l'.completed.toList.map (·.name)).getLast? = some name := by
  rcases importPackage_eq_ok.mp hl with
    ⟨hsome, -⟩ | ⟨-, -, d, p, l₁, rfl, hload, himports, hlink⟩
  · exact absurd ((h.linked?_isSome name).mp hsome) hlinked
  · obtain ⟨new, hnew⟩ := Grows.of_forM (fun n _ => fun h ho hl =>
      Grows.of_importPackage h ho hl) (h.entered source name) ho himports
    rw [(hnew.holds.linkPackage hlink).completed, List.map_append, List.map_singleton,
      List.getLast?_concat]

/-- **Linking goes through the closure in order.** -/
lemma completed_of_importPackage {depth : Nat} {journal : Journal}
    (hl : importPackage source depth entry (fresh journal) = .ok () l) :
    source.Completed entry (l.completed.toList.map (·.name)) := by
  obtain ⟨ps, hps⟩ := Grows.of_importPackage (holds_fresh journal) source.ordered_nil hl
  have hnames : l.completed.toList.map (·.name) = ps.map Prod.fst := hps.holds.completed
  have hordered : source.Ordered ps := hps.ordered
  have hentry : entry ∈ ps.map Prod.fst := hps.linked entry (by simp)
  have hlast := last_of_importPackage (holds_fresh journal) source.ordered_nil (by simp) hl
  rw [hnames] at hlast ⊢
  refine ⟨hordered.nodup, fun name => ⟨fun hmem => ?_, hordered.mem_of_reaches hentry⟩, ?_, hlast⟩
  · obtain ⟨x, hx, rfl⟩ := List.mem_map.mp hmem
    obtain ⟨n, hn, hreaches⟩ := hps.reached x hx
    cases List.mem_singleton.mp hn
    exact hreaches
  · rintro front name back hsplit other ⟨p, hload, hother⟩
    obtain ⟨xs, ys, rfl, rfl, hys⟩ := List.map_eq_append_iff.mp hsplit
    obtain ⟨x, zs, rfl, rfl, rfl⟩ := List.map_eq_cons_iff.mp hys
    cases Except.ok.inj ((hordered.load x (by simp)).symm.trans hload)
    exact hordered.imports xs x zs rfl other hother

end Linker

/-! ### Libraries -/

namespace Library

/-- What linking everything that a package of the library imports gives, imports being nested as
deep as allowed. -/
def closure (lib : Library) (entry : String) (depth : Nat) (journal : Journal) :
    EStateM.Result LinkError Linker Unit :=
  Linker.importPackage lib.source depth entry (.fresh journal)

lemma load_eq_error {lib : Library} {name : String} {e : LinkError}
    (h : lib.source.load name = .error e) : e = .missingPackage name ∧ lib.get? name = none := by
  rw [source] at h
  dsimp only at h
  split at h
  · cases h
  · rename_i hnone
    cases h
    exact ⟨rfl, hnone⟩

/-- Linking packages of a library fails for a reason. -/
lemma fails_of_closure {lib : Library} {entry : String} {journal : Journal} {e : LinkError}
    {l : Linker} (h : lib.closure entry lib.source.bound journal = .error e l) :
    lib.source.Fails entry e :=
  Linker.fails_of_importPackage (fun _ => lib.length_lt_bound) (Linker.holds_fresh journal)
    lib.source.ordered_nil (.start lib.source entry journal) (Nat.le_add_right _ _) h

end Library

/-- **Packages of a library are linked in the order of their imports, and circles are reported as
they are.** The depth that is allowed for imports plays no part. If linking succeeds, every
package that can be reached has been linked once, behind those that it imports, and the entry
package last, so that it is found when the program is completed. If a circle is reported, it is
one; if a package is reported to be missing, it is; and no import is found not to be linked. If
all packages exist and are valid, a circle is reported if and only if there is one. -/
theorem closure_linked_in_order (lib : Library) (entry : String) (journal : Journal) :
    (∀ depth, lib.source.bound ≤ depth →
      lib.closure entry depth journal = lib.closure entry lib.source.bound journal) ∧
    (∀ l, lib.closure entry lib.source.bound journal = .ok () l →
      lib.source.Completed entry (l.completed.toList.map (·.name)) ∧
        ∀ name, l.complete entry ≠ .error (.missingPackage name)) ∧
    (∀ cycle l, lib.closure entry lib.source.bound journal = .error (.circularImport cycle) l →
      lib.source.Circle entry cycle) ∧
    (∀ name l, lib.closure entry lib.source.bound journal = .error (.missingPackage name) l →
      lib.source.Reaches entry name ∧ lib.get? name = none) ∧
    (∀ name reason l,
      lib.closure entry lib.source.bound journal = .error (.invalidPackage name reason) l →
        ∀ other, reason ≠ .notLinked other) ∧
    ((∀ name, lib.source.Reaches entry name → ∃ p, lib.source.load name = .ok p ∧ p.Valid) →
      ((∃ cycle l, lib.closure entry lib.source.bound journal =
          .error (.circularImport cycle) l) ↔
        ∃ name, lib.source.Reaches entry name ∧
          Relation.TransGen lib.source.Imports name name)) := by
  have hcircle : ∀ cycle l,
      lib.closure entry lib.source.bound journal = .error (.circularImport cycle) l →
        lib.source.Circle entry cycle := by
    intro cycle l h
    cases Library.fails_of_closure h with
    | circle hcircle => exact hcircle
    | unloadable _ hload => cases (Library.load_eq_error hload).1
  refine ⟨fun depth hdepth => ?_, fun l h => ⟨?_, fun name hname => ?_⟩, hcircle,
    fun name l h => ?_, fun name reason l h => ?_, fun hsound => ⟨?_, ?_⟩⟩
  · exact Linker.importPackage_of_bound_le (fun _ => lib.length_lt_bound) hdepth journal
  · exact Linker.completed_of_importPackage h
  · -- the entry package has been linked, so that completing the program finds it
    obtain ⟨ps, hps, -, -, hentry, -⟩ := Linker.exists_closure h
    exact Linker.complete_ne_missingPackage ((hps.linked?_isSome entry).mpr hentry) name hname
  · cases Library.fails_of_closure h with
    | unloadable hreaches hload =>
        obtain ⟨hname, hnone⟩ := Library.load_eq_error hload
        cases hname
        exact ⟨hreaches, hnone⟩
  · cases Library.fails_of_closure h with
    | unloadable _ hload => cases (Library.load_eq_error hload).1
    | invalid _ _ hreason => exact hreason
  · rintro ⟨cycle, l, h⟩
    exact (hcircle cycle l h).exists_transGen
  · rintro ⟨name, hreaches, htrans⟩
    cases h : lib.closure entry lib.source.bound journal with
    | ok _ l =>
        -- packages that stand behind what they import form no circle
        obtain ⟨ps, -, ho, -, hentry, -⟩ := Linker.exists_closure h
        exact absurd htrans (ho.acyclic (ho.mem_of_reaches hentry hreaches))
    | error e l =>
        cases Library.fails_of_closure h with
        | circle _ => exact ⟨_, l, rfl⟩
        | unloadable hreaches hload =>
            obtain ⟨p, hp, -⟩ := hsound _ hreaches
            cases hp.symm.trans hload
        | invalid hmember hvalid _ =>
            obtain ⟨p, hp, hp'⟩ := hsound _ hmember.1
            cases Except.ok.inj (hp.symm.trans hmember.2)
            exact absurd hp' hvalid

/-- An application that imports a package on two ways, and packages that import each other. -/
def diamondAndRing : Library where
  entries := [
    ("app", { imports := #["left", ".", "right"], methods := #[⟨"main"⟩] }),
    ("left", { imports := #["base"] }),
    ("right", { imports := #["base", "left"] }),
    ("base", {}),
    ("looped", { imports := #["base", "ping"] }),
    ("ping", { imports := #["pong"] }),
    ("pong", { imports := #["left", "ping"] })]

/-- The order in which packages have been linked, or why they could not be. -/
def Library.order (lib : Library) (entry : String) : LinkError ⊕ List String :=
  match lib.closure entry lib.source.bound {} with
  | .ok _ l => .inr (l.completed.toList.map (·.name))
  | .error e _ => .inl e

/-- All packages exist and are valid, which have neither relocations nor implementations. -/
lemma diamondAndRing_sound {name : String}
    (h : diamondAndRing.source.Reaches "looped" name) :
    ∃ p, diamondAndRing.source.load name = .ok p ∧ p.Valid := by
  have hnames : ∀ x ∈ diamondAndRing.entries, x.2.relocations = #[] ∧ x.2.implementations = #[] ∧
      ∀ n ∈ x.2.imported, n ∈ diamondAndRing.entries.map Prod.fst := by decide
  have hmem : name ∈ diamondAndRing.entries.map Prod.fst := by
    induction h with
    | refl => decide
    | tail _ himports _ =>
        obtain ⟨p, hload, hother⟩ := himports
        exact (hnames _ (Library.load_eq_ok hload)).2.2 _ hother
  cases hload : diamondAndRing.source.load name with
  | error e =>
      have hsome : ∀ n ∈ diamondAndRing.entries.map Prod.fst,
          (diamondAndRing.get? n).isSome = true := by decide
      exact absurd (hsome name hmem) (by simp [(Library.load_eq_error hload).2])
  | ok p =>
      obtain ⟨hrelocations, himplementations, -⟩ := hnames _ (Library.load_eq_ok hload)
      refine ⟨p, rfl, ?_, ?_, ?_, ?_⟩ <;> simp_all

/-- The application is linked behind its imports, each linked once. The circle is found though the
entry package is not on it. -/
theorem closure_linked_in_order_diamond :
    (∃ l, diamondAndRing.closure "app" diamondAndRing.source.bound {} = .ok () l ∧
      l.completed.toList.map (·.name) = ["base", "left", "right", "app"] ∧
      diamondAndRing.source.Completed "app" ["base", "left", "right", "app"]) ∧
    (∃ l, diamondAndRing.closure "looped" diamondAndRing.source.bound {} =
        .error (.circularImport ["ping", "pong", "ping"]) l ∧
      diamondAndRing.source.Circle "looped" ["ping", "pong", "ping"]) ∧
    ∃ name, diamondAndRing.source.Reaches "looped" name ∧
      Relation.TransGen diamondAndRing.source.Imports name name := by
  have happ : diamondAndRing.order "app" = .inr ["base", "left", "right", "app"] := by
    decide +kernel
  have hlooped : diamondAndRing.order "looped" = .inl (.circularImport ["ping", "pong", "ping"]) := by
    decide +kernel
  obtain ⟨-, hlinked, -⟩ := closure_linked_in_order diamondAndRing "app" {}
  obtain ⟨-, -, hcircle, -, -, hiff⟩ := closure_linked_in_order diamondAndRing "looped" {}
  have hreport : ∃ l, diamondAndRing.closure "looped" diamondAndRing.source.bound {} =
      .error (.circularImport ["ping", "pong", "ping"]) l := by
    rw [Library.order] at hlooped
    split at hlooped
    · cases hlooped
    · rename_i e l h
      cases hlooped
      exact ⟨l, h⟩
  obtain ⟨l, hl⟩ := hreport
  refine ⟨?_, ⟨l, hl, hcircle _ l hl⟩,
    (hiff fun name hreaches => diamondAndRing_sound hreaches).mp ⟨_, l, hl⟩⟩
  rw [Library.order] at happ
  split at happ
  · rename_i l h
    have hnames := Sum.inr.inj happ
    exact ⟨l, h, hnames, hnames ▸ (hlinked l h).1⟩
  · cases happ

end EffectMachine
