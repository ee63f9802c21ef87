/-
Copying collection.

A collection copies the objects that the roots reach from one space into
another. In the source it leaves, in the first word of every object it has
moved, a marker with the object's new place. The copied words that it has not
yet looked at are its list of work: a cursor runs over the target until it
meets the end of what has been copied.

* `Collection.forward`: the new place of one value, its object being copied if
  that has not been done;
* `Collection.forwardAll`: the same for a list of values, up to the first fault;
* `Collection.scan`: everything that the copied words refer to.
-/
import EffectMachine.Cells
import EffectMachine.Fault

namespace EffectMachine

/-- A collection under way. -/
structure Collection where
  /-- The space that is copied from. -/
  source : Cells
  /-- The number of words of the source that were in use. -/
  limit : Nat
  /-- The space that is copied to. -/
  target : Cells
  /-- The number of words copied so far. -/
  top : Nat

namespace Collection

/-- Copies the `size` words at `offset` and leaves the marker with their new
place. -/
def move (offset size : Nat) (c : Collection) : Collection :=
  match c with
  | ⟨source, limit, target, top⟩ =>
    let target := target.copyFrom top source offset size
    let source := source.setIfInBounds offset ⟨.forwarded, UInt32.ofNat top⟩
    ⟨source, limit, target, top + size⟩

/-- The new place of a value. A value of a class without fields is inline and
stays as it is; an object is copied when it is met for the first time. Sums are
those of natural numbers: for the sizes that programs declare none is too large
for a machine word. -/
def forward (layout : ClassId → Nat) (v : Value) : Action Collection Value := fun c =>
  let size := layout v.tag
  if size = 0 then .ok v c
  else if c.limit < v.offset + size then .error (.invalidReference v.tag v.data) c
  else
    let head := c.source.cell v.offset
    if head.tag = .forwarded then .ok ⟨v.tag, head.data⟩ c
    else if c.target.size < c.top + size then
      .error (.outOfMemory size (c.target.size - c.top)) c
    else .ok ⟨v.tag, UInt32.ofNat c.top⟩ (c.move v.offset size)

/-- The new places of a list of values, `moved` being those before it in
reverse. After a fault the values from the faulting one on are as they were. -/
def forwardFrom (layout : ClassId → Nat) (moved : List Value) :
    List Value → Collection → EStateM.Result Fault (Collection × List Value) Unit
  | [], c => .ok () (c, moved.reverse)
  | v :: vs, c =>
    match forward layout v c with
    | .ok v' c => forwardFrom layout (v' :: moved) vs c
    | .error e c => .error e (c, moved.reverseAux (v :: vs))

/-- The new places of a list of values. -/
def forwardAll (layout : ClassId → Nat) (vs : List Value) (c : Collection) :
    EStateM.Result Fault (Collection × List Value) Unit :=
  forwardFrom layout [] vs c

/-- Forwards the copied words from `cursor` on until there are no more, of
which there can be at most `fuel`. -/
def scanFrom (layout : ClassId → Nat) : Nat → Nat → Action Collection Unit
  | 0, _, c => .ok () c
  | fuel + 1, cursor, c =>
    if cursor < c.top then
      match forward layout (c.target.cell cursor) c with
      | .ok v c =>
        scanFrom layout fuel (cursor + 1) { c with target := c.target.setIfInBounds cursor v }
      | .error e c => .error e c
    else .ok () c

/-- Forwards every copied word, those copied meanwhile included. -/
def scan (layout : ClassId → Nat) : Action Collection Unit := fun c =>
  scanFrom layout c.target.size 0 c

end Collection

end EffectMachine
