/-
Stable sorting by insertion.

* `sortBy`: a list in the order of a comparison, equal elements keeping the
  order in which they stood;
* `sortBy_perm`: nothing is lost.
-/

namespace EffectMachine

/-- The list with `x` in front of the first element that it does not
exceed. -/
def insertBy {α : Type} (le : α → α → Bool) (x : α) : List α → List α
  | [] => [x]
  | y :: ys => if le x y then x :: y :: ys else y :: insertBy le x ys

/-- The list in the order of a comparison. -/
def sortBy {α : Type} (le : α → α → Bool) : List α → List α
  | [] => []
  | x :: xs => insertBy le x (sortBy le xs)

theorem insertBy_perm {α : Type} (le : α → α → Bool) (x : α) (xs : List α) :
    (insertBy le x xs).Perm (x :: xs) := by
  induction xs with
  | nil => exact .refl _
  | cons y ys ih =>
    rw [insertBy]
    split
    · exact .refl _
    · exact (ih.cons y).trans (.swap x y ys)

theorem sortBy_perm {α : Type} (le : α → α → Bool) (xs : List α) : (sortBy le xs).Perm xs := by
  induction xs with
  | nil => exact .refl _
  | cons x xs ih => exact (insertBy_perm le x (sortBy le xs)).trans (ih.cons x)

end EffectMachine
