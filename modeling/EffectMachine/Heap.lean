/-
The heap.

The heap has two spaces of equal size. Objects are allocated one after the
other in the front space, an object with `n` fields taking `n` words; when
there is no room, the objects still in use are copied into the other space and
the spaces change places.

* `Heap.alloc`: a new object, after at most one collection;
* `Heap.collect`: a collection from given roots;
* `Heap.field`, `Heap.slot`, `Heap.write`, `Heap.fields`: reading and writing
  the words in use;
* `Heap.Stats`: what allocations and collections have added up to.
-/
import EffectMachine.Heap.Collection
import EffectMachine.Roots

namespace EffectMachine

/-- What allocations and collections have added up to, in words. -/
structure Heap.Stats where
  /-- The number of collections. -/
  collections : Nat := 0
  /-- The words that the latest collection kept. -/
  lastCopied : Nat := 0
  totalReclaimed : Nat := 0
  totalAllocated : Nat := 0
deriving DecidableEq

namespace Heap.Stats

/-- The statistics after a collection that kept `after` of `before` words. -/
def recordCollection (s : Stats) (before after : Nat) : Stats :=
  { s with
    collections := s.collections + 1
    lastCopied := after
    totalReclaimed := s.totalReclaimed + (before - after) }

end Heap.Stats

/-- A heap of two spaces, of which the front one is in use up to `top`. -/
structure Heap where
  front : Cells
  back : Cells
  top : Nat
  stats : Heap.Stats

namespace Heap

/-- A heap with `words` words to allocate. -/
def fresh (words : Nat) : Heap := ⟨.fresh words, .fresh words, 0, {}⟩

/-- The number of words of a space. -/
def capacity (h : Heap) : Nat := h.front.size

/-- The number of words still free. -/
def available (h : Heap) : Nat := h.capacity - h.top

/-- The words in use. -/
def words (h : Heap) : List Value := (h.front.extract 0 h.top).toList

/-! ### Fields -/

/-- The word that holds field `index` of an object, if it is in use. Whether
the class has such a field is not asked here. -/
def slot (h : Heap) (v : Value) (index : Nat) : Except Fault Nat :=
  if v.offset + index < h.top then .ok (v.offset + index)
  else .error (.invalidReference v.tag v.data)

/-- Field `index` of an object. -/
def field (h : Heap) (v : Value) (index : Nat) : Except Fault Value :=
  match h.slot v index with
  | .ok i => .ok (h.front.cell i)
  | .error e => .error e

/-- The first `count` fields of an object. -/
def fields (h : Heap) (v : Value) (count : Nat) : Except Fault (List Value) :=
  if count = 0 then .ok []
  else
    match h.slot v 0, h.slot v (count - 1) with
    | .ok start, .ok _ => .ok (h.front.extract start (start + count)).toList
    | .error e, _ => .error e
    | _, .error e => .error e

/-- The heap with a word of the front space replaced. -/
def write (h : Heap) (index : Nat) (v : Value) : Heap :=
  { h with front := h.front.setIfInBounds index v }

/-- Writes field `index` of an object. -/
def setField (v : Value) (index : Nat) (w : Value) : Action Heap Unit := fun h =>
  match h.slot v index with
  | .ok i => .ok () (h.write i w)
  | .error e => .error e h

/-! ### Collection -/

/-- A heap together with the holder of its roots. -/
abbrev Rooted (ρ : Type) := Heap × ρ

/-- Copies what the roots and the pending values reach, and gives both their
new places. The spaces change places even when a fault ends the collection; the
words in use and the statistics then stay as they were. -/
def collectWith {ρ : Type} (layout : ClassId → Nat) (R : Roots ρ) (pending : List Value) :
    Action (Rooted ρ) (List Value) := fun (⟨front, back, top, stats⟩, holder) =>
  match Collection.forwardAll layout (R.get holder) ⟨front, top, back, 0⟩ with
  | .error e (c, roots) => .error e (⟨c.target, c.source, top, stats⟩, R.set holder roots)
  | .ok _ (c, roots) =>
    let holder := R.set holder roots
    match Collection.forwardAll layout pending c with
    | .error e (c, _) => .error e (⟨c.target, c.source, top, stats⟩, holder)
    | .ok _ (c, pending) =>
      match Collection.scan layout c with
      | .error e c => .error e (⟨c.target, c.source, top, stats⟩, holder)
      | .ok _ c =>
        .ok pending (⟨c.target, c.source, c.top, stats.recordCollection top c.top⟩, holder)

/-- Collects from the roots alone. -/
def collect {ρ : Type} (layout : ClassId → Nat) (R : Roots ρ) : Action (Rooted ρ) Unit := do
  let _ ← collectWith layout R []

/-! ### Allocation -/

/-- Places an object at the end of the words in use, where there has to be
room for it. -/
def bump (cls : ClassId) (fields : List Value) (h : Heap) : Value × Heap :=
  match h with
  | ⟨front, back, top, stats⟩ =>
    let size := fields.length
    (⟨cls, UInt32.ofNat top⟩,
      ⟨front.overwrite top fields, back, top + size,
        { stats with totalAllocated := stats.totalAllocated + size }⟩)

/-- Allocates an object with the given fields, which count as roots until they
are stored, and gives it with its fields as stored. An object without fields is
inline. A collection is tried once before giving up. -/
def alloc {ρ : Type} (layout : ClassId → Nat) (R : Roots ρ) (cls : ClassId)
    (fields : List Value) : Action (Rooted ρ) (Value × List Value) := fun (h, holder) =>
  let size := fields.length
  if size = 0 then .ok (⟨cls, 0⟩, fields) (h, holder)
  else if size ≤ h.available then
    let (v, h) := h.bump cls fields
    .ok (v, fields) (h, holder)
  else
    match collectWith layout R fields (h, holder) with
    | .error e s => .error e s
    | .ok fields (h, holder) =>
      if size ≤ h.available then
        let (v, h) := h.bump cls fields
        .ok (v, fields) (h, holder)
      else .error (.outOfMemory size h.available) (h, holder)

end Heap

end EffectMachine
