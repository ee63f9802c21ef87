/-
The walk that looks for a handler.

The first register of a record leads back to the enclosing record, the second one holds a handler
or marks the record as synthetic. While a handler runs, a shield lies over the records from the
synthetic one down to the record served, and the walk leaps over these: from a synthetic record it
goes on below the record served. Since shields are nested, the leaps leave out exactly the records
that some shield lies over.

* `Context.Links`, `Context.Synthetic`, `Context.served`: the back-links, the synthetic records,
  and the records that these serve, as registers have them;
* `Context.WellFormed`: the links end, records do not overlap, each synthetic record serves one
  further down that is not synthetic, and shields are nested;
* `Context.Visible`: the record handles the effect, and no shield lies over it;
* `Context.WellFormed.not_visible_of_passed`: a leap passes over no visible record;
* `Context.WellFormed.lookup`: **the walk finds the innermost visible record**, from anywhere on
  the chain;
* `Context.Chain.exists_handler`: so it stays on the chain.
-/
import EffectMachine.Proofs.RecordChain
import Mathlib.Order.Bounds.Basic

namespace EffectMachine

/-! ### Records as registers have them -/

namespace Context

/-- Back-links lead from the register through those of the list to register 0. -/
inductive Links (P : Program) (rs : Registers) : Nat → List Nat → Prop
  | nil : Links P rs 0 []
  | cons {r p : Nat} {chain : List Nat} : parent P rs r = .ok p → Links P rs p chain →
      Links P rs r (r :: chain)

/-- The record is marked as synthetic. -/
def Synthetic (rs : Registers) (r : Nat) : Prop := (rs.cell (r + 1)).tag = .empty

/-- The record that a synthetic one serves, by the distance in its marker. -/
def served (rs : Registers) (r : Nat) : Nat := r - (rs.cell (r + 1)).data.toNat

/-- The records of the list are linked and do not overlap, every synthetic one
serves one of those that enclose it, which is not synthetic, and the shields of
two are nested or lie apart. -/
structure WellFormed (P : Program) (rs : Registers) (ctx : Nat) (chain : List Nat) : Prop where
  links : Links P rs ctx chain
  room : ∀ r ∈ chain, r + 1 < rs.size
  spaced : chain.Pairwise fun r p => p + 2 ≤ r
  serves : ∀ front s back, chain = front ++ s :: back → Synthetic rs s →
    served rs s ∈ back ∧ ¬ Synthetic rs (served rs s)
  nested : ∀ s ∈ chain, ∀ t ∈ chain, Synthetic rs s → Synthetic rs t → s < t →
    s < served rs t ∨ served rs t < served rs s

end Context

namespace Context.Links

variable {P : Program} {rs : Registers} {ctx r : Nat} {chain front back : List Nat}

lemma of_append (h : Links P rs ctx (front ++ r :: back)) : Links P rs r (r :: back) := by
  induction front generalizing ctx with
  | nil =>
      cases h with
      | cons hp h => exact .cons hp h
  | cons d front ih =>
      cases h with
      | cons _ h => exact ih h

lemma exists_parent (h : Links P rs ctx (front ++ r :: back)) :
    ∃ p, parent P rs r = .ok p ∧ Links P rs p back := by
  cases h.of_append with
  | cons hp h => exact ⟨_, hp, h⟩

lemma pos (h : Links P rs ctx chain) (hr : r ∈ chain) : 0 < r := by
  obtain ⟨front, back, rfl⟩ := List.append_of_mem hr
  obtain ⟨p, hp, -⟩ := h.exists_parent
  exact Nat.lt_of_le_of_lt (Nat.zero_le p) (parent_lt hp)

end Context.Links

/-- A synthetic record of a chain serves what its marker says. -/
lemma Record.Held.serves_eq {rs : Registers} {e : Record} (h : e.Held rs)
    (hs : Context.Synthetic rs e.pos) : e.serves = some (Context.served rs e.pos) := by
  cases hserves : e.serves with
  | none => exact absurd hs (h.plain hserves)
  | some c =>
      obtain ⟨-, -, -, hc⟩ := Context.handling_eq_ok.mp (h.synthetic c hserves).2
      rw [hc, Context.served]

lemma Nested.spaced {es : List Record} (h : Nested es) :
    (es.map Record.pos).Pairwise fun r p => p + 2 ≤ r := by
  induction h with
  | nil => exact .nil
  | cons hfits _ ih =>
      refine .cons (fun p hp => ?_) ih
      obtain ⟨d, hd, rfl⟩ := List.mem_map.mp hp
      exact hfits.above d hd

/-- Of two nested records, the lower one encloses the other. -/
lemma Nested.enclosed {es : List Record} {d e : Record} (h : Nested es) (hd : d ∈ es)
    (he : e ∈ es) (hlt : d.pos < e.pos) : ∃ front back, es = front ++ e :: back ∧ d ∈ back := by
  obtain ⟨front, back, rfl⟩ := List.append_of_mem he
  refine ⟨front, back, rfl, ?_⟩
  rcases List.mem_append.mp hd with hd | hd
  · have habove := h.above hd List.mem_cons_self
    omega
  · rcases List.mem_cons.mp hd with rfl | hd
    · omega
    · exact hd

namespace Context.Chain

variable {P : Program} {rs : Registers} {ctx : Nat} {es : List Record}

lemma links (h : Chain P rs ctx es) : Links P rs ctx (es.map Record.pos) := by
  induction h with
  | nil => exact .nil
  | cons hp _ _ ih => exact .cons hp ih

/-- **A chain whose shields are nested is well formed.** -/
lemma wellFormed (h : Chain P rs ctx es) (hn : Nested es) :
    WellFormed P rs ctx (es.map Record.pos) where
  links := h.links
  room r hr := by
    obtain ⟨e, he, rfl⟩ := List.mem_map.mp hr
    exact (h.held he).room
  spaced := hn.spaced
  serves front s back hchain hs := by
    obtain ⟨front, rest, rfl, -, hrest⟩ := List.map_eq_append_iff.mp hchain
    obtain ⟨e, back, rfl, rfl, rfl⟩ := List.map_eq_cons_iff.mp hrest
    have hheld := h.held (List.mem_append_right front List.mem_cons_self)
    have hmem := hn.fits.served _ (hheld.serves_eq hs)
    refine ⟨List.mem_map.mpr ⟨_, hmem, rfl⟩, ?_⟩
    exact (h.held (List.mem_append_right front (List.mem_cons_of_mem _ hmem))).plain rfl
  nested s hs t ht hsyn hsyn' hlt := by
    obtain ⟨d, hd, rfl⟩ := List.mem_map.mp hs
    obtain ⟨e, he, rfl⟩ := List.mem_map.mp ht
    have hserves := (h.held hd).serves_eq hsyn
    have hserves' := (h.held he).serves_eq hsyn'
    obtain ⟨front, back, rfl, hback⟩ := hn.enclosed hd he hlt
    exact hn.fits.apart _ hserves' d hback _ hserves

end Context.Chain

/-! ### Looking for a handler -/

namespace Context

/-- A record that handles an effect: it has a handler, which implements the method, and it lies in
no stretch from a synthetic record down to the record served. -/
structure Visible (P : Program) (rs : Registers) (chain : List Nat) (method : MethodId)
    (r : Nat) : Prop where
  mem : r ∈ chain
  plain : ¬ Synthetic rs r
  implements : (P.dispatch (rs.cell (r + 1)).tag method).isSome = true
  unshielded : ∀ s ∈ chain, Synthetic rs s → ¬ (served rs s ≤ r ∧ r ≤ s)

namespace WellFormed

variable {P : Program} {rs : Registers} {ctx s r : Nat} {chain front mid back rest : List Nat}
  {method : MethodId}

lemma below (h : WellFormed P rs ctx (front ++ s :: back)) (hr : r ∈ back) : r + 2 ≤ s := by
  obtain ⟨-, htail, -⟩ := List.pairwise_append.mp h.spaced
  exact (List.pairwise_cons.mp htail).1 r hr

/-- **A synthetic record leads to the record that it serves.** -/
lemma handling_eq (h : WellFormed P rs ctx (front ++ s :: back)) (hs : Synthetic rs s) :
    handling rs s = .ok (served rs s) := by
  have hserved := (h.serves front s back rfl hs).1
  have hbelow := h.below hserved
  have hpos := h.links.pos (List.mem_append_right front (List.mem_cons_of_mem s hserved))
  have hroom := h.room s (List.mem_append_right front List.mem_cons_self)
  rw [served] at hbelow hpos
  rw [handling_eq_ok, recordSize]
  exact ⟨hroom, by omega, by omega, rfl⟩

/-- A synthetic record between another one and the record that it serves serves a record above
that one. -/
lemma lt_served (h : WellFormed P rs ctx (front ++ s :: (mid ++ served rs s :: rest)))
    (hs : Synthetic rs s) (hr : r ∈ mid) (hsyn : Synthetic rs r) : served rs s < served rs r := by
  have hmem : ∀ x ∈ s :: (mid ++ served rs s :: rest),
      x ∈ front ++ s :: (mid ++ served rs s :: rest) := fun x hx => List.mem_append_right front hx
  have hlt : r + 2 ≤ s := h.below (List.mem_append_left _ hr)
  have hlow : served rs s + 2 ≤ r := by
    obtain ⟨-, htail, -⟩ := List.pairwise_append.mp h.spaced
    exact (List.pairwise_append.mp (List.pairwise_cons.mp htail).2).2.2 r hr _ List.mem_cons_self
  rcases h.nested r (hmem r (List.mem_cons_of_mem s (List.mem_append_left _ hr))) s
    (hmem s List.mem_cons_self) hsyn hs (by omega) with hout | hin
  · omega
  · exact hin

/-- **A leap passes over no visible record**: everything from a synthetic record down to the one
that it serves is shielded by it. -/
lemma not_visible_of_passed (h : WellFormed P rs ctx (front ++ s :: (mid ++ served rs s :: rest)))
    (hs : Synthetic rs s) (hr : r ∈ s :: (mid ++ [served rs s])) :
    ¬ Visible P rs (front ++ s :: (mid ++ served rs s :: rest)) method r := by
  intro hvisible
  refine hvisible.unshielded s (List.mem_append_right front List.mem_cons_self) hs ?_
  have hserved : served rs s + 2 ≤ s := h.below (List.mem_append_right mid List.mem_cons_self)
  rcases List.mem_cons.mp hr with rfl | hr
  · exact ⟨by omega, Nat.le_refl _⟩
  · rcases List.mem_append.mp hr with hr | hr
    · have hlt : r + 2 ≤ s := h.below (List.mem_append_left _ hr)
      obtain ⟨-, htail, -⟩ := List.pairwise_append.mp h.spaced
      have hlow : served rs s + 2 ≤ r :=
        (List.pairwise_append.mp (List.pairwise_cons.mp htail).2).2.2 r hr _ List.mem_cons_self
      exact ⟨by omega, by omega⟩
    · cases List.mem_singleton.mp hr
      exact ⟨Nat.le_refl _, by omega⟩

/-- A record with a handler that implements the method, and below everything that the records in
front serve, is visible. -/
lemma visible_of_implements (h : WellFormed P rs ctx (front ++ r :: back))
    (hpassed : ∀ s ∈ front, Synthetic rs s → r < served rs s) (hplain : ¬ Synthetic rs r)
    (himplements : (P.dispatch (rs.cell (r + 1)).tag method).isSome = true) :
    Visible P rs (front ++ r :: back) method r where
  mem := List.mem_append_right front List.mem_cons_self
  plain := hplain
  implements := himplements
  unshielded s hs hsyn hbetween := by
    rcases List.mem_append.mp hs with hs | hs
    · have hlt := hpassed s hs hsyn
      omega
    · rcases List.mem_cons.mp hs with rfl | hs
      · exact hplain hsyn
      · have hbelow := h.below hs
        omega

/-- What a lookup gives from a record on: the greatest visible record, or a fault if there is
none. -/
def Finds (P : Program) (rs : Registers) (chain : List Nat) (method : MethodId)
    (result : Except Fault Nat) : Prop :=
  (∃ r, result = .ok r ∧ IsGreatest {x | Visible P rs chain method x} r) ∨
    (result = .error (.unhandledEffect method) ∧ ∀ x, ¬ Visible P rs chain method x)

/-- **The walk finds the innermost visible record.** It has passed the records in front, none of
which is visible, and stands below everything that they serve. -/
lemma lookup (h : WellFormed P rs ctx chain) (method : MethodId) {at' : Nat}
    (hsplit : chain = front ++ back) (hlinks : Links P rs at' back)
    (hinvisible : ∀ x ∈ front, ¬ Visible P rs chain method x)
    (hpassed : ∀ s ∈ front, Synthetic rs s → at' < served rs s) :
    Finds P rs chain method (Context.handler P rs method at') := by
  -- the walk goes down, by one record or by a leap
  induction at' using Nat.strong_induction_on generalizing front back with
  | _ at' ih =>
      rw [handler_eq]
      cases hlinks with
      | nil =>
          rw [if_pos rfl]
          refine .inr ⟨rfl, fun x hx => hinvisible x ?_ hx⟩
          simpa [hsplit] using hx.mem
      | @cons _ p back hp hback =>
          have hmem : at' ∈ chain := hsplit ▸ List.mem_append_right front List.mem_cons_self
          have hlt := parent_lt hp
          rw [if_neg (by omega), Registers.get_of_lt (h.room at' hmem)]
          dsimp only [Except.bind]
          by_cases hsyn : Synthetic rs at'
          · -- a leap to below the record that is served
            rw [if_pos (show (rs.cell (at' + 1)).tag = .empty from hsyn)]
            subst hsplit
            obtain ⟨mid, rest, rfl⟩ := List.append_of_mem (h.serves front at' back rfl hsyn).1
            obtain ⟨q, hq, hrest⟩ := hback.exists_parent
            have hlow := parent_lt hq
            have hserved : served rs at' + 2 ≤ at' :=
              h.below (List.mem_append_right mid List.mem_cons_self)
            rw [h.handling_eq hsyn]
            dsimp only
            rw [hq]
            have hpast : front ++ at' :: (mid ++ served rs at' :: rest) =
                (front ++ at' :: (mid ++ [served rs at'])) ++ rest := by simp
            refine ih q (by omega) hpast hrest (fun x hx => ?_) fun t ht htsyn => ?_
            · rcases List.mem_append.mp hx with hx | hx
              · exact hinvisible x hx
              · exact h.not_visible_of_passed hsyn hx
            · rcases List.mem_append.mp ht with ht | ht
              · have hfront := hpassed t ht htsyn
                omega
              · rcases List.mem_cons.mp ht with rfl | ht
                · exact hlow
                · rcases List.mem_append.mp ht with ht | ht
                  · exact Nat.lt_trans hlow (h.lt_served hsyn ht htsyn)
                  · cases List.mem_singleton.mp ht
                    exact absurd htsyn (h.serves front at' _ rfl hsyn).2
          · rw [if_neg (show ¬ (rs.cell (at' + 1)).tag = .empty from hsyn)]
            split
            · -- the record handles the effect, and all others that could stand below it
              rename_i himplements
              subst hsplit
              refine .inl ⟨at', rfl, h.visible_of_implements hpassed hsyn himplements, ?_⟩
              intro x hx
              rcases List.mem_append.mp hx.mem with hfront | hin
              · exact absurd hx (hinvisible x hfront)
              · rcases List.mem_cons.mp hin with rfl | hin
                · exact Nat.le_refl _
                · have hbelow := h.below hin
                  omega
            · -- the record does not implement the method
              rename_i himplements
              rw [hp]
              have hpast : chain = (front ++ [at']) ++ back := by simp [hsplit]
              refine ih p hlt hpast hback (fun x hx hvisible => ?_) fun t ht htsyn => ?_
              · rcases List.mem_append.mp hx with hx | hx
                · exact hinvisible x hx hvisible
                · cases List.mem_singleton.mp hx
                  exact himplements hvisible.implements
              · rcases List.mem_append.mp ht with ht | ht
                · exact Nat.lt_trans hlt (hpassed t ht htsyn)
                · cases List.mem_singleton.mp ht
                  exact absurd htsyn hsyn

/-- From the innermost record on, the walk sees the whole chain. -/
lemma finds (h : WellFormed P rs ctx chain) (method : MethodId) :
    Finds P rs chain method (Context.handler P rs method ctx) :=
  h.lookup method (List.nil_append chain).symm h.links (fun x hx => by cases hx)
    fun s hs => by cases hs

end WellFormed

end Context

/-- The innermost handler of an effect is a record of the chain that is not
synthetic, and no shield lies over it. -/
lemma Context.Chain.exists_handler {P : Program} {rs : Registers} {ctx : Nat} {es : List Record}
    (h : Chain P rs ctx es) (hn : Nested es) (m : MethodId) :
    Context.handler P rs m ctx = .error (.unhandledEffect m) ∨
      ∃ c, Context.handler P rs m ctx = .ok c ∧ ⟨c, none⟩ ∈ es ∧
        ∀ d ∈ es, ∀ b, d.serves = some b → d.pos < c ∨ c < b := by
  rcases (h.wellFormed hn).finds m with ⟨_, hc, hvisible, -⟩ | ⟨herror, -⟩
  swap
  · exact .inl herror
  obtain ⟨⟨c, serves⟩, he, rfl⟩ := List.mem_map.mp hvisible.mem
  refine .inr ⟨c, hc, ?_, fun d hd b hb => ?_⟩
  · cases serves with
    | none => exact he
    | some b => exact absurd ((h.held he).synthetic b rfl).1 hvisible.plain
  · have hsyn := ((h.held hd).synthetic b hb).1
    have hserved := (h.held hd).serves_eq hsyn
    rw [hb, Option.some.injEq] at hserved
    have hunshielded := hvisible.unshielded d.pos (List.mem_map_of_mem hd) hsyn
    dsimp only at hunshielded
    omega

end EffectMachine
