/-
Context records.

Handlers are installed as context records in the register file. A record is
two registers: the distance back to the enclosing record, and the handler. The
outermost record is at register 0. While a handler runs, a synthetic record
stands above it: its second register is a value of the empty class whose data
is the distance back to the record that is handling.

* `Context.parent`: the enclosing record;
* `Context.handling`: the record that a synthetic record serves;
* `Context.unwind`: the innermost record below a frame;
* `Context.synthetic`: the innermost synthetic record;
* `Context.handler`: the innermost record that handles an effect. Whatever lies
  between a synthetic record and the record it serves is passed over.

Every walk goes strictly down (`parent_lt`, `handling_lt`) and so ends.
-/
import EffectMachine.Scalar
import EffectMachine.Thread

namespace EffectMachine

namespace Context

/-- The integer in a register that belongs to a record. -/
def readInt (P : Program) (rs : Registers) (index : Nat) : Except Fault Int32 :=
  match rs.get index with
  | .error e => .error e
  | .ok v => if v.tag = P.intClass then .ok v.signed else .error (.corruptRecord index)

/-- The record that encloses the one at `ctx`. -/
def parent (P : Program) (rs : Registers) (ctx : Nat) : Except Fault Nat :=
  match readInt P rs ctx with
  | .error e => .error e
  | .ok distance =>
    if 0 < distance.toInt ∧ distance.toInt ≤ ctx then .ok (ctx - distance.toInt.toNat)
    else .error (.corruptRecord ctx)

/-- The record that the synthetic record at `ctx` serves. -/
def handling (rs : Registers) (ctx : Nat) : Except Fault Nat :=
  match rs.get (ctx + 1) with
  | .error e => .error e
  | .ok marker =>
    let distance := marker.data.toNat
    if recordSize ≤ distance ∧ distance < ctx then .ok (ctx - distance)
    else .error (.corruptRecord ctx)

theorem parent_lt {P : Program} {rs : Registers} {ctx p : Nat} (h : parent P rs ctx = .ok p) :
    p < ctx := by
  unfold parent at h
  split at h
  · cases h
  · split at h
    · cases h
      omega
    · cases h

theorem handling_lt {rs : Registers} {ctx c : Nat} (h : handling rs ctx = .ok c) : c < ctx := by
  unfold handling at h
  split at h
  · cases h
  · dsimp only at h
    split at h
    · rename_i hd
      rw [recordSize] at hd
      cases h
      omega
    · cases h

/-- The innermost record, from `ctx` on, that ends at or below a frame. -/
def unwind (P : Program) (rs : Registers) (frame ctx : Nat) : Except Fault Nat :=
  if ctx = 0 ∨ ctx + recordSize ≤ frame then .ok ctx
  else
    match _h : parent P rs ctx with
    | .error e => .error e
    | .ok p => unwind P rs frame p
termination_by ctx
decreasing_by exact parent_lt _h

/-- The innermost synthetic record, from `ctx` on. -/
def synthetic (P : Program) (rs : Registers) (ctx : Nat) : Except Fault Nat :=
  if ctx = 0 then .error .notInHandler
  else
    match rs.get (ctx + 1) with
    | .error e => .error e
    | .ok handler =>
      if handler.tag = .empty then .ok ctx
      else
        match _h : parent P rs ctx with
        | .error e => .error e
        | .ok p => synthetic P rs p
termination_by ctx
decreasing_by exact parent_lt _h

/-- The innermost record, from `ctx` on, whose handler implements a method. -/
def handler (P : Program) (rs : Registers) (m : MethodId) (ctx : Nat) : Except Fault Nat :=
  if ctx = 0 then .error (.unhandledEffect m)
  else
    match rs.get (ctx + 1) with
    | .error e => .error e
    | .ok handler =>
      if handler.tag = .empty then
        match _hc : handling rs ctx with
        | .error e => .error e
        | .ok c =>
          match _hp : parent P rs c with
          | .error e => .error e
          | .ok p => Context.handler P rs m p
      else if (P.dispatch handler.tag m).isSome then .ok ctx
      else
        match _hp : parent P rs ctx with
        | .error e => .error e
        | .ok p => Context.handler P rs m p
termination_by ctx
decreasing_by
  · exact Nat.lt_trans (parent_lt _hp) (handling_lt _hc)
  · exact parent_lt _hp

end Context

end EffectMachine
