/-
Execution.

* `Machine.execute`: one instruction. An instruction that calls a method gives
  it back to be dispatched;
* `Machine.dispatchOnce`: one dispatch on the value register. A native may ask
  for a further one;
* `Machine.settle`: dispatches until control has arrived somewhere;
* `Machine.step`, `Machine.run`: an instruction with the dispatches it leads
  to, and a whole run;
* `Image.load`: a program made ready to run.

Natives can call each other without end, so `settle`, `step` and `run` take a
bound on the number of rounds and say whether they came to an end within it.
-/
import EffectMachine.Native

namespace EffectMachine

namespace Machine

/-! ### Instructions -/

/-- Stores the value register in a register of the frame. The registers that
are passed over become unset, so that all registers in use hold what the frame
wrote. -/
def store (r : Nat) : MachineM Unit := do
  let frame ← frame
  let stop ← frameEnd
  if stop ≤ r then
    onRegisters (Registers.clear (frame + stop) (frame + r))
    updateThread fun t => { t with frameEnd := r + 1 }
  setRegister (frame + r) (← value)

/-- Opens a frame `base` registers up, with a return record that leads back to
the next instruction. -/
def pushRecord (P : Program) (base : Nat) : MachineM Unit := do
  let frame ← frame
  let stop ← frameEnd
  let callee := frame + base
  onRegisters (Registers.clear (frame + stop) callee)
  setRegister callee (P.nat base)
  setRegister (callee + 1) (P.int (← pos).toInt32)
  updateThread fun t => { t with frame := callee, frameEnd := max (t.frameEnd - base) recordSize }

/-- Allocates an object whose fields are the registers of the frame from `base`
on. -/
def create (P : Program) (cls : ClassId) (base : Nat) : MachineM Unit := do
  let frame ← frame
  let fields ← query (·.thread.registers.slice (frame + base) (P.fieldCount cls))
  setValue (← alloc P cls fields)

/-- Executes the instruction at the current position, and gives the method that
is to be dispatched if it is a call. -/
def execute (P : Program) : MachineM (Option MethodId) := do
  let pos ← pos
  let instruction ← Action.ofExcept ((Instruction.decode P.code pos.toNat).mapError .decode)
  record (.step pos instruction (← frame) (← frameEnd) (← context) (← value))
  jump (pos + UInt32.ofNat instruction.size)
  match instruction with
  | .load r => do
    setValue (← register ((← frame) + r.toNat))
    return none
  | .store r => do
    store r.toNat
    return none
  | .natural n => do
    setValue (P.int n)
    return none
  | .globalLoad g => do
    setValue (← query (·.image.global g))
    return none
  | .globalStore g => do
    onImage (Image.setGlobal g (← value))
    return none
  | .create cls base => do
    create P cls base.toNat
    return none
  | .field index => do
    setValue (← field P (← value) index.toNat)
    return none
  | .ret => do
    returnValue P
    return none
  | .call method base => do
    if base = 1 then throw (.invalidCall base pos)
    if base ≠ 0 then pushRecord P base.toNat
    return some method

/-! ### Dispatch -/

/-- Forgets how a native has handed control on. -/
def clearTransfer : MachineM Unit := fun m => .ok () { m with transfer := none }

/-- Runs the native at an index, and gives the method that it calls in its own
place, if it does not return. -/
def runNative (P : Program) (natives : Natives) (index : UInt32) (receiver : Value) :
    MachineM (Option MethodId) := do
  let native ← Action.ofExcept (natives.get index)
  record (.native (natives.name index) receiver)
  clearTransfer
  native P receiver
  match ← read (·.transfer) with
  | none => throw (.nativeDidNotTransfer (natives.name index))
  | some .returned => do
    clearTransfer
    return none
  | some (.call method) => do
    clearTransfer
    return some method

/-- Dispatches a method on the value register in the current frame, and gives
the method that is to be dispatched next, if there is one. -/
def dispatchOnce (P : Program) (natives : Natives) (method : MethodId) :
    MachineM (Option MethodId) := do
  let receiver ← value
  match P.dispatch receiver.tag method with
  | none => throw (.dispatchMiss receiver.tag method)
  | some found =>
    match found.kind with
    | .standard => do
      jump found.entry
      return none
    | .handler => throw (.handlerBinding receiver.tag method)
    | .external => runNative P natives found.entry receiver

/-- Dispatches until there is nothing more to dispatch. The result is `false`
if that took more rounds than allowed. -/
def settle (P : Program) (natives : Natives) : Nat → Option MethodId → MachineM Bool
  | _, none => fun m => .ok true m
  | 0, some _ => fun m => .ok false m
  | rounds + 1, some method => fun m =>
    match dispatchOnce P natives method m with
    | .ok next m => settle P natives rounds next m
    | .error e m => .error e m

/-! ### Runs -/

/-- Executes one instruction with the dispatches it leads to. -/
def step (P : Program) (natives : Natives) (rounds : Nat) : MachineM Bool := do
  settle P natives rounds (← execute P)

/-- Runs until the thread halts, and gives the final value. There is none if
that took more rounds than allowed. -/
def run (P : Program) (natives : Natives) : Nat → MachineM (Option Value)
  | 0 => fun m => .ok (if m.thread.halted then some m.thread.value else none) m
  | rounds + 1 => fun m =>
    if m.thread.halted then .ok (some m.thread.value) m
    else
      match step P natives rounds m with
      | .ok true m => run P natives rounds m
      | .ok false m => .ok none m
      | .error e m => .error e m

/-- A machine with a fresh thread in an image. -/
def start (P : Program) (options : Options) (image : Image) : Except Fault Machine :=
  match Thread.fresh options.registers P.intClass with
  | .ok thread => .ok { image, thread }
  | .error e => .error e

end Machine

namespace Image

/-- Makes a program ready to run: its natives, and an image of unset globals.
Integers have to have a class. -/
def load (P : Program) (registry : Registry) (options : Options) (journal : Journal) :
    Except Fault (Natives × Image) := do
  let _ ← P.builtin .int
  let natives ← Natives.resolve registry P.externals
  let journal := journal.record
    (.loadedProgram P.globalCount.toNat natives.size options.heapWords)
  return (natives, fresh P options journal)

/-- Runs the program in a fresh thread. -/
def run (P : Program) (natives : Natives) (options : Options) (rounds : Nat) :
    Action Image (Option Value) := fun image =>
  match Machine.start P options image with
  | .error e => .error e image
  | .ok m =>
    match Machine.run P natives rounds m with
    | .ok v m => .ok v m.image
    | .error e m => .error e m.image

end Image

end EffectMachine
