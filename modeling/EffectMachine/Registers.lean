/-
The register file of a thread.

Frames are windows of one array of registers. The file never grows: naming a
register past its end is a stack overflow, and a range is refused as a whole
when it does not lie inside the file.

* `Registers.get`, `Registers.slice`: reading;
* `Registers.set`, `Registers.write`, `Registers.clear`: writing.
-/
import EffectMachine.Cells
import EffectMachine.Fault

namespace EffectMachine

/-- The registers of a thread. -/
abbrev Registers := Cells

namespace Registers

/-- The register at an index. -/
def get (rs : Registers) (index : Nat) : Except Fault Value :=
  match rs[index]? with
  | some v => .ok v
  | none => .error .stackOverflow

/-- The `count` registers from `base` on. -/
def slice (rs : Registers) (base count : Nat) : Except Fault (List Value) :=
  if base + count ≤ rs.size then .ok (rs.extract base (base + count)).toList
  else .error .stackOverflow

/-- The registers below `stop`, or all of them if there are fewer. -/
def live (rs : Registers) (stop : Nat) : List Value := (rs.extract 0 stop).toList

/-- Sets the register at an index. -/
def set (index : Nat) (v : Value) : Action Registers Unit := fun rs =>
  if index < rs.size then .ok () (rs.setIfInBounds index v) else .error .stackOverflow rs

/-- Replaces consecutive registers from `base` on. -/
def write (base : Nat) (vs : List Value) : Action Registers Unit := fun rs =>
  if base + vs.length ≤ rs.size then .ok () (Cells.overwrite rs base vs)
  else .error .stackOverflow rs

/-- Unsets the registers from `start` up to but without `stop`; an empty range
lies everywhere. -/
def clear (start stop : Nat) : Action Registers Unit := fun rs =>
  if stop ≤ start then .ok () rs
  else if stop ≤ rs.size then
    .ok () (Cells.overwrite rs start (List.replicate (stop - start) .nil))
  else .error .stackOverflow rs

end Registers

end EffectMachine
