/-
Threads: the state of one run of a program.

* `Thread`: the next code position, the current frame, the innermost context
  record, the value register and the register file;
* `Thread.fresh`: a thread about to execute the first instruction. Registers 0
  and 1 hold the outermost context record, registers 2 and 3 the outermost
  return record, which returns to `Thread.halt`;
* `Thread.roots`: what a collection follows from a thread.
-/
import EffectMachine.Registers
import EffectMachine.Roots

namespace EffectMachine

/-- The number of registers of a return record and of a context record. -/
def recordSize : Nat := 2

/-- The state of one run. -/
structure Thread where
  /-- The code position of the next instruction. -/
  pos : UInt32
  /-- The register at which the current frame starts with its return record. -/
  frame : Nat
  /-- One more than the highest register, counted from the frame, that the
  frame has written. -/
  frameEnd : Nat
  /-- The register of the innermost context record. -/
  context : Nat
  /-- The value register. -/
  value : Value
  registers : Registers

namespace Thread

/-- The code position that ends a run when it is returned to. -/
def halt : UInt32 := 4294967295

/-- Whether the run has ended. -/
def halted (t : Thread) : Bool := t.pos = halt

/-- The end of the registers in use. -/
def liveEnd (t : Thread) : Nat := t.frame + t.frameEnd

/-- A thread at the start of a program whose integers are of class `int`. -/
def fresh (size : Nat) (int : ClassId) : Except Fault Thread :=
  if size < 2 * recordSize then .error .stackOverflow
  else
    .ok {
      pos := 0
      frame := recordSize
      frameEnd := recordSize
      context := 0
      value := .nil
      registers := (Cells.fresh size).overwrite 0 [⟨int, 0⟩, .nil, ⟨int, 0⟩, ⟨int, halt⟩] }

/-- The roots of a thread: the value register, then the registers in use. -/
def roots : Roots Thread where
  get t := t.value :: t.registers.live t.liveEnd
  set t
    | [] => t
    | v :: vs => { t with value := v, registers := Cells.overwrite t.registers 0 vs }
  get_set t vs h := by
    cases vs with
    | nil => simp at h
    | cons v vs =>
      -- The registers written back are as many as those that were listed.
      have hlen : vs.length = min t.liveEnd t.registers.size := by
        simpa [Registers.live] using h
      simp only [liveEnd, Registers.live]
      congr 1
      exact Cells.extract_overwrite_zero t.registers vs (t.frame + t.frameEnd) hlen

end Thread

end EffectMachine
