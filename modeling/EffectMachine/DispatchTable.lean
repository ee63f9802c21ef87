/-
Packing the dispatch table.

Every method gets an offset such that slot `c + offset` is its own for each
class `c` that implements it. Methods are placed one after the other, in the
order of their names, each at the least offset that leaves its slots to itself:
no slot is negative and no slot has been taken.

* `MethodRow`: a method with its implementations;
* `DispatchTable.findStart`: first fit. A row is placed by the slot of its
  smallest class, which is where it starts; at the end of the table every row
  fits, so the search is finite;
* `pack`: offsets for all methods and the table that holds their
  implementations.
-/
import EffectMachine.Link.Error
import EffectMachine.Sorting

namespace EffectMachine

/-- A method with its implementations, in any order. -/
structure MethodRow where
  name : String
  implementations : Array Implementation := #[]
deriving DecidableEq

/-- Methods with their offsets, and the table that the offsets lead into. -/
structure DispatchTable where
  methods : Array Method := #[]
  implementations : Array Implementation := #[]
deriving DecidableEq

namespace DispatchTable

/-- The table while it is being packed. -/
abbrev Slots := Array Implementation

/-- Whether a slot can still be taken; past the end all can. -/
def isFree (slots : Slots) (slot : Nat) : Bool :=
  match slots[slot]? with
  | some i => i.isEmpty
  | none => true

/-- How far a class lies above the smallest class of its row. -/
def gap (least : ClassId) (i : Implementation) : Nat :=
  (i.cls.code.toInt - least.code.toInt).toNat

/-- Whether a row can start at a slot. -/
def fits (slots : Slots) (least : ClassId) (row : List Implementation) (start : Nat) : Bool :=
  row.all fun i => isFree slots (start + gap least i)

/-- The first slot, from `start` on, at which a row can start. -/
def findStartFrom (slots : Slots) (least : ClassId) (row : List Implementation) (start : Nat) :
    Nat → Nat
  | 0 => start
  | tries + 1 =>
    if fits slots least row start then start
    else findStartFrom slots least row (start + 1) tries

/-- The first slot at which a row can start. -/
def findStart (slots : Slots) (least : ClassId) (row : List Implementation) : Nat :=
  findStartFrom slots least row 0 slots.size

/-- The table with empty slots added up to a size. -/
def extend (slots : Slots) (size : Nat) : Slots :=
  slots ++ Array.replicate (size - slots.size) Implementation.empty

/-- The table with one slot taken. -/
def put (slots : Slots) (slot : Nat) (i : Implementation) : Slots :=
  (extend slots (slot + 1)).setIfInBounds slot i

/-- The table with a row placed at a slot. -/
def place (slots : Slots) (least : ClassId) (start : Nat) (row : List Implementation) : Slots :=
  row.foldl (fun slots i => put slots (start + gap least i) i) slots

/-- The class that two neighbours of a row have in common, if there are such. -/
def duplicate? : List Implementation → Option ClassId
  | i :: j :: rest => if i.cls = j.cls then some i.cls else duplicate? (j :: rest)
  | _ => none

/-- The implementations of a row in the order of their classes. -/
def sortRow (row : MethodRow) : List Implementation :=
  sortBy (fun i j => i.cls.code ≤ j.cls.code) row.implementations.toList

/-- Packs one method: its offset and the table with its row. -/
def packRow (slots : Slots) (row : MethodRow) : Except LinkError (Int32 × Slots) :=
  let sorted := sortRow row
  match duplicate? sorted with
  | some cls => .error (.duplicateImplementation row.name cls)
  | none =>
    match sorted with
    | [] => .ok (0, slots)
    | first :: _ =>
      let start := findStart slots first.cls sorted
      .ok (Int32.ofInt (start - first.cls.code.toInt), place slots first.cls start sorted)

/-- Packs methods in the order given, each with the number under which its
offset is kept. -/
def packRows : List (Nat × MethodRow) → Array Int32 → Slots → Except LinkError (Array Int32 × Slots)
  | [], offsets, slots => .ok (offsets, slots)
  | (index, row) :: rest, offsets, slots =>
    match packRow slots row with
    | .error e => .error e
    | .ok (offset, slots) => packRows rest (offsets.setIfInBounds index offset) slots

/-- The methods, numbered, in the order of their names. -/
def order (rows : Array MethodRow) : List (Nat × MethodRow) :=
  sortBy (fun a b => a.2.name ≤ b.2.name) (rows.toList.zipIdx.map fun (row, index) => (index, row))

end DispatchTable

open DispatchTable in
/-- Offsets for all methods, which keep their positions, and the table of their
implementations. A method implemented twice for a class is refused. -/
def pack (rows : Array MethodRow) : Except LinkError DispatchTable :=
  match packRows (order rows) (Array.replicate rows.size 0) #[] with
  | .error e => .error e
  | .ok (offsets, slots) =>
    .ok ⟨rows.zipWith (fun row offset => ⟨row.name, offset⟩) offsets, slots⟩

end EffectMachine
