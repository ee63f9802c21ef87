/-
Roots of a collection.

A collection starts from the values that something outside the heap holds, and
gives that thing their new places. `Roots ρ` says how a holder of type `ρ`
lists its roots and takes them back.

* `Roots.list`, `Roots.array`: holders that are their roots;
* `Roots.pair`: the roots of two holders, the first one's first.
-/
import EffectMachine.Value

namespace EffectMachine

/-- How a holder lists its roots, in the order in which they are followed, and
takes them back. -/
structure Roots (ρ : Type) where
  get : ρ → List Value
  set : ρ → List Value → ρ
  get_set : ∀ x vs, vs.length = (get x).length → get (set x vs) = vs

namespace Roots

/-- A list is its own roots. -/
def list : Roots (List Value) where
  get vs := vs
  set _ vs := vs
  get_set _ _ _ := rfl

/-- An array is its own roots. -/
def array : Roots (Array Value) where
  get vs := vs.toList
  set _ vs := vs.toArray
  get_set _ _ _ := rfl

/-- The roots of two holders, those of the first one first. -/
def pair {ρ τ : Type} (R : Roots ρ) (T : Roots τ) : Roots (ρ × τ) where
  get x := R.get x.1 ++ T.get x.2
  set x vs :=
    let n := (R.get x.1).length
    (R.set x.1 (vs.take n), T.set x.2 (vs.drop n))
  get_set x vs h := by
    rw [List.length_append] at h
    -- The first part is as long as the first holder's roots, the rest as the second's.
    have h₁ : (vs.take (R.get x.1).length).length = (R.get x.1).length := by
      rw [List.length_take]
      omega
    have h₂ : (vs.drop (R.get x.1).length).length = (T.get x.2).length := by
      rw [List.length_drop]
      omega
    rw [R.get_set _ _ h₁, T.get_set _ _ h₂, List.take_append_drop]

end Roots

end EffectMachine
