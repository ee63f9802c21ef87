/-
The journal: what linking, loading and running report on the way.

* `Entry`: one report, with the facts it is about;
* `Entry.level` and `Entry.message`: how weighty it is and how it reads;
* `Journal`: the reports so far. Reports on progress are kept only by a verbose
  journal; what natives publish is always kept.
-/
import EffectMachine.Thread

namespace EffectMachine

/-- How weighty a report is. -/
inductive Level where
  /-- A milestone of linking, loading or collecting. -/
  | debug
  /-- A step of a run. -/
  | trace
  /-- Something that a native publishes. -/
  | output
deriving DecidableEq

/-- One report. -/
inductive Entry where
  | loadingPackage (name path : String)
  | linkedPackage (name : String) (global : Nat) (initClass : ClassId)
  | linkedProgram (classes methods slots codeBytes : Nat)
  | registeredCore
  | loadedProgram (globals natives heapWords : Nat)
  | collected (number before after : Nat)
  | step (pos : UInt32) (instruction : Instruction) (frame frameEnd context : Nat) (value : Value)
  | native (name : String) (receiver : Value)
  | enteredContext (frame : Nat) (handler : Value)
  | triggered (method : MethodId) (handling via : Nat)
  | reified (words frame : Nat)
  | resumed (words frame : Nat)
  /-- A native publishes a value. -/
  | printed (value : Value)
  /-- A native publishes the state of its thread. -/
  | noted (thread : Thread)

namespace Entry

/-- The level of a report. -/
def level : Entry → Level
  | loadingPackage .. | linkedPackage .. | linkedProgram .. | registeredCore
  | loadedProgram .. | collected .. => .debug
  | step .. | native .. | enteredContext .. | triggered .. | reified .. | resumed .. => .trace
  | printed .. | noted .. => .output

/-- The wording of a report. -/
def message : Entry → String
  | loadingPackage name path => s!"loading package {name} from {path}"
  | linkedPackage name global initClass =>
    s!"linked package {name} (global {global}, init class {initClass.code.toInt})"
  | linkedProgram classes methods slots codeBytes =>
    s!"linked program: {classes} classes, {methods} methods, {slots} table slots, " ++
      s!"{codeBytes} code bytes"
  | registeredCore => "registered core natives"
  | loadedProgram globals natives heapWords =>
    s!"loaded program: {globals} globals, {natives} natives, heap {heapWords} words"
  | collected number before after =>
    s!"gc #{number}: {before} -> {after} words ({before - after} reclaimed)"
  | step pos instruction frame frameEnd context value =>
    s!"{alignRight 6 (toString pos.toNat)}: {alignLeft 24 instruction.text} " ++
      s!"frame={frame} end={frameEnd} ctx={context} value={value.text}"
  | native name receiver => s!"native {name} on {receiver.text}"
  | enteredContext frame handler => s!"enter context {frame} handler {handler.text}"
  | triggered method handling via => s!"trigger {method.text} handled at {handling} via {via}"
  | reified words frame => s!"reify {words} words at {frame}"
  | resumed words frame => s!"resume {words} words at {frame}"
  | printed value => value.text
  | noted thread => s!"thread at {thread.pos.toNat}"

end Entry

/-- The reports so far. -/
structure Journal where
  /-- Whether reports on progress are kept. -/
  verbose : Bool := false
  entries : Array Entry := #[]

namespace Journal

/-- The journal with one more report, if it keeps reports of this level. -/
def record (j : Journal) (e : Entry) : Journal :=
  if j.verbose || e.level = .output then { j with entries := j.entries.push e } else j

end Journal

end EffectMachine
