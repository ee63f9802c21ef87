/-
The machine: a thread running in an image.

* `Machine`, with the mark that a native leaves when it hands control on;
* `Machine.ret` and `Machine.tailCall`: how a native hands control on;
* `Machine.returnValue`: leaving a frame through its return record. A return
  record is two registers: the distance back to the caller's frame, and the
  code position to go on at;
* `Machine.alloc` and its kin: allocation with the registers in use as roots.
-/
import EffectMachine.Context
import EffectMachine.Image

namespace EffectMachine

/-- How a native has handed control on. -/
inductive Transfer where
  /-- To its caller. -/
  | returned
  /-- To a method of the value register, called in its own place. -/
  | call (method : MethodId)
deriving DecidableEq

/-- A thread running in an image. -/
structure Machine where
  image : Image
  thread : Thread
  /-- How the running native has handed control on, if it has. -/
  transfer : Option Transfer := none

/-- An operation of the machine. -/
abbrev MachineM := Action Machine

namespace Machine

/-! ### Parts of the machine -/

/-- An operation on the image. -/
def onImage {α : Type} (act : Action Image α) : MachineM α :=
  fun ⟨image, thread, transfer⟩ =>
    match act image with
    | .ok a image => .ok a ⟨image, thread, transfer⟩
    | .error e image => .error e ⟨image, thread, transfer⟩

/-- An operation on the register file. -/
def onRegisters {α : Type} (act : Action Registers α) : MachineM α :=
  fun ⟨image, ⟨pos, frame, frameEnd, context, value, registers⟩, transfer⟩ =>
    match act registers with
    | .ok a registers =>
      .ok a ⟨image, ⟨pos, frame, frameEnd, context, value, registers⟩, transfer⟩
    | .error e registers =>
      .error e ⟨image, ⟨pos, frame, frameEnd, context, value, registers⟩, transfer⟩

/-- An operation on the image that may collect, the thread holding further
roots. -/
def tracing {α : Type} (act : Action (Image.Rooted Thread) α) : MachineM α :=
  fun ⟨image, thread, transfer⟩ =>
    match act (image, thread) with
    | .ok a (image, thread) => .ok a ⟨image, thread, transfer⟩
    | .error e (image, thread) => .error e ⟨image, thread, transfer⟩

/-- Something that the machine's state determines. -/
def read {α : Type} (f : Machine → α) : MachineM α := fun m => .ok (f m) m

/-- Something that the machine's state determines, or a fault. -/
def query {α : Type} (f : Machine → Except Fault α) : MachineM α := fun m =>
  match f m with
  | .ok a => .ok a m
  | .error e => .error e m

/-- The current frame. -/
def frame : MachineM Nat := read (·.thread.frame)

/-- The end of the current frame. -/
def frameEnd : MachineM Nat := read (·.thread.frameEnd)

/-- The innermost context record. -/
def context : MachineM Nat := read (·.thread.context)

/-- The value register. -/
def value : MachineM Value := read (·.thread.value)

/-- The code position of the next instruction. -/
def pos : MachineM UInt32 := read (·.thread.pos)

/-- A register. -/
def register (index : Nat) : MachineM Value := query (·.thread.registers.get index)

/-- Sets a register. -/
def setRegister (index : Nat) (v : Value) : MachineM Unit := onRegisters (Registers.set index v)

/-- Changes the thread. -/
def updateThread (f : Thread → Thread) : MachineM Unit :=
  fun ⟨image, thread, transfer⟩ => .ok () ⟨image, f thread, transfer⟩

/-- Sets the value register. -/
def setValue (v : Value) : MachineM Unit := updateThread fun t => { t with value := v }

/-- Sets the code position of the next instruction. -/
def jump (target : UInt32) : MachineM Unit := updateThread fun t => { t with pos := target }

/-- Adds a report to the journal. -/
def record (e : Entry) : MachineM Unit :=
  fun ⟨⟨globals, heap, journal⟩, thread, transfer⟩ =>
    .ok () ⟨⟨globals, heap, journal.record e⟩, thread, transfer⟩

/-! ### What natives read and publish -/

/-- An argument of the running native. -/
def arg (index : Nat) : MachineM Value := do
  register ((← frame) + recordSize + index)

/-- An integer argument of the running native. -/
def intArg (P : Program) (index : Nat) : MachineM Int32 := do
  Action.ofExcept (P.intValue (← arg index))

/-- A field of an object. -/
def field (P : Program) (v : Value) (index : Nat) : MachineM Value :=
  query (·.image.field P v index)

/-- Publishes a value. -/
def print (v : Value) : MachineM Unit := record (.printed v)

/-- Publishes the state of the thread. -/
def note : MachineM Unit := do record (.noted (← read (·.thread)))

/-! ### Allocation -/

/-- Allocates an object. -/
def alloc (P : Program) (cls : ClassId) (fields : List Value) : MachineM Value :=
  tracing (Image.alloc P Thread.roots cls fields)

/-- Allocates an array. -/
def allocArray (P : Program) (elements : List Value) : MachineM Value :=
  tracing (Image.allocArray P Thread.roots elements)

/-- Allocates a string. -/
def allocString (P : Program) (text : String) : MachineM Value :=
  tracing (Image.allocString P Thread.roots text)

/-- Collects. -/
def collect (P : Program) : MachineM Unit := tracing (Image.collect P Thread.roots)

/-! ### Handing control on -/

/-- Marks how the running native hands control on, which it may do once. -/
def claim (how : Transfer) : MachineM Unit := fun m =>
  match m with
  | ⟨image, thread, none⟩ => .ok () ⟨image, thread, some how⟩
  | ⟨image, thread, some mark⟩ => .error .nativeTransferredTwice ⟨image, thread, some mark⟩

/-- The integer in a register that belongs to a record. -/
def readInt (P : Program) (index : Nat) : MachineM Int32 :=
  query fun m => Context.readInt P m.thread.registers index

/-- Leaves the current frame through its return record. Context records that
do not end at or below the frame returned to belong to frames that are given
up, and are dropped. -/
def returnValue (P : Program) : MachineM Unit := do
  let frame ← frame
  let depth ← readInt P frame
  let target := (← register (frame + 1)).data
  if 0 ≤ depth.toInt ∧ depth.toInt ≤ frame then
    let depth := depth.toInt.toNat
    let caller := frame - depth
    let context ← query fun m => Context.unwind P m.thread.registers caller m.thread.context
    updateThread fun t => { t with
      context, frame := caller, frameEnd := max depth recordSize, pos := target }
  else throw (.corruptRecord frame)

/-- Returns a value from the running native to its caller. -/
def ret (P : Program) (v : Value) : MachineM Unit := do
  claim .returned
  setValue v
  returnValue P

/-- Calls a method in place of the running native. What the method returns goes
to the native's caller. -/
def tailCall (receiver : Value) (method : MethodId) (args : List Value) : MachineM Unit := do
  claim (.call method)
  onRegisters (Registers.write ((← frame) + recordSize) args)
  updateThread fun t => { t with
    frameEnd := max t.frameEnd (recordSize + args.length), value := receiver }

end Machine

end EffectMachine
