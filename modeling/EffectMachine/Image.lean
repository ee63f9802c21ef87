/-
Images: the globals and the heap of a loaded program.

Allocations and collections start from the globals and from whatever else
holds values, which is given as `Roots`.

* `Image.alloc`, `Image.allocArray`, `Image.allocString`: new objects;
* `Image.collect`: a collection;
* `Image.field`, `Image.setField`: fields, checked against the class;
* `Image.asArray`, `Image.asString`: the contents of arrays and strings.
-/
import EffectMachine.Heap
import EffectMachine.Journal
import EffectMachine.Scalar

namespace EffectMachine

/-- The sizes with which a program is loaded. -/
structure Options where
  heapWords : Nat := 1048576
  registers : Nat := 65536
deriving DecidableEq

/-- The globals and the heap of a loaded program, with the reports so far. -/
structure Image where
  globals : Array Value
  heap : Heap
  journal : Journal

namespace Action

/-- A result that does not touch the state. -/
def ofExcept {σ α : Type} : Except Fault α → Action σ α
  | .ok a => fun s => .ok a s
  | .error e => fun s => .error e s

end Action

namespace Image

/-- An image of unset globals and an empty heap. -/
def fresh (P : Program) (options : Options) (journal : Journal) : Image :=
  ⟨Array.replicate P.globalCount.toNat .nil, .fresh options.heapWords, journal⟩

/-! ### Globals -/

/-- The global at an index. -/
def global (p : Image) (index : UInt32) : Except Fault Value :=
  match p.globals[index.toNat]? with
  | some v => .ok v
  | none => .error (.invalidGlobal index)

/-- Sets the global at an index. -/
def setGlobal (index : UInt32) (v : Value) : Action Image Unit := fun p =>
  if index.toNat < p.globals.size then
    .ok () { p with globals := p.globals.setIfInBounds index.toNat v }
  else .error (.invalidGlobal index) p

/-! ### Fields -/

/-- Refuses a field that the class of a value does not have. -/
def checkField (P : Program) (v : Value) (index : Nat) : Except Fault Unit :=
  if index < P.fieldCount v.tag then .ok () else .error (.fieldOutOfRange v.tag index)

/-- A field of an object. -/
def field (P : Program) (p : Image) (v : Value) (index : Nat) : Except Fault Value := do
  checkField P v index
  p.heap.field v index

/-- The image with its heap transformed by an operation on heaps. -/
def onHeap {α : Type} (act : Action Heap α) : Action Image α := fun ⟨globals, heap, journal⟩ =>
  match act heap with
  | .ok a heap => .ok a ⟨globals, heap, journal⟩
  | .error e heap => .error e ⟨globals, heap, journal⟩

/-- Sets a field of an object. -/
def setField (P : Program) (v : Value) (index : Nat) (w : Value) : Action Image Unit := do
  Action.ofExcept (checkField P v index)
  onHeap (Heap.setField v index w)

/-- The elements of an array. -/
def asArray (p : Image) (v : Value) : Except Fault (List Value) :=
  match v.tag.arrayLength? with
  | some length => p.heap.fields v length
  | none => .error (.typeError (.notArray v))

/-- The text of a string. -/
def asString (P : Program) (p : Image) (v : Value) : Except Fault String :=
  if P.builtins.get? .string = some v.tag then do
    let elements ← p.asArray (← p.field P v 0)
    let bytes ← elements.mapM fun element => return (← P.intValue element).toUInt32.toUInt8
    match Utf8.decode bytes with
    | .ok text => .ok text
    | .error e => .error (.typeError (.notText e))
  else .error (.typeError (.notString v))

/-! ### Allocation and collection -/

/-- An image together with a further holder of roots. -/
abbrev Rooted (ρ : Type) := Image × ρ

/-- The journal with a report of the collection that led from one state of the
heap to another, if there was one. -/
def reportCollection (before : Heap.Stats) (top : Nat) (after : Heap) (j : Journal) : Journal :=
  if before.collections < after.stats.collections then
    j.record (.collected after.stats.collections top after.stats.lastCopied)
  else j

/-- Runs an operation on the heap that may collect, the roots being the
globals and then those of the holder. -/
def tracing {ρ α : Type} (act : Action (Heap.Rooted (Array Value × ρ)) α) :
    Action (Rooted ρ) α := fun (⟨globals, heap, journal⟩, holder) =>
  let stats := heap.stats
  let top := heap.top
  match act (heap, (globals, holder)) with
  | .ok a (heap, (globals, holder)) =>
    let journal := reportCollection stats top heap journal
    .ok a (⟨globals, heap, journal⟩, holder)
  | .error e (heap, (globals, holder)) =>
    let journal := reportCollection stats top heap journal
    .error e (⟨globals, heap, journal⟩, holder)

/-- Allocates an object with as many fields as its class has. -/
def alloc {ρ : Type} (P : Program) (R : Roots ρ) (cls : ClassId) (fields : List Value) :
    Action (Rooted ρ) Value := do
  if fields.length = P.fieldCount cls then
    let (v, _) ← tracing (Heap.alloc P.fieldCount (Roots.array.pair R) cls fields)
    return v
  else throw (.typeError (.fieldCount cls (P.fieldCount cls) fields.length))

/-- Allocates an array. -/
def allocArray {ρ : Type} (P : Program) (R : Roots ρ) (elements : List Value) :
    Action (Rooted ρ) Value :=
  alloc P R (.array elements.length) elements

/-- Allocates a string: an array of its bytes, and an object with the array in
its first field. -/
def allocString {ρ : Type} (P : Program) (R : Roots ρ) (text : String) :
    Action (Rooted ρ) Value := do
  let cls ← Action.ofExcept (P.builtin .string)
  let count := P.fieldCount cls
  if count = 0 then throw (.typeError (.noFields cls))
  let bytes := (Utf8.encode text).map fun b => P.nat b.toNat
  let array ← allocArray P R bytes
  alloc P R cls (array :: List.replicate (count - 1) .nil)

/-- Collects. -/
def collect {ρ : Type} (P : Program) (R : Roots ρ) : Action (Rooted ρ) Unit :=
  tracing (Heap.collect P.fieldCount (Roots.array.pair R))

end Image

end EffectMachine
