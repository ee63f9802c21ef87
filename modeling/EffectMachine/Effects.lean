/-
Effect handlers.

A native at frame `F` enters a context: the return record moves up by one
record, and the context record takes its place, so that the body of the handled
computation runs in the frame above it.

    F + 2, F + 3   return record of the body
    F, F + 1       context record: distance to the previous one, handler

An effect triggered at frame `S`, and handled by the record at `C`, lays a
synthetic record under the handler in the same way.

    S + 4          the argument
    S + 2, S + 3   return record of the handler
    S, S + 1       synthetic record: distance to the previous one, marker of
                   the distance to `C`

A handler ends in one of three ways. It returns to the trigger, by an ordinary
return or from deeper down by `fastResume`. It gives up the handled computation
and returns from its context by `abort`. Or it makes the registers from `C` to
the end of its return record into a continuation by `reify`, which `resume`
lays back onto the registers as often as it is called.

* `Machine.enterContext`, `Machine.trigger`: entering a context, triggering;
* `Machine.fastResume`, `Machine.abort`: the two short ways out;
* `Machine.reify`, `Machine.resume`: continuations.
-/
import EffectMachine.Machine

namespace EffectMachine

/-- The least number of registers in a continuation: the context record, and
the synthetic record with the return record above it. -/
def minCapture : Nat := 3 * recordSize

/-- The distance from a context record to the return record of the computation
it handles, given the distance to the synthetic record. A computation that
triggers in its last call shares its frame with the trigger, which has moved
its return record up once more. -/
def bodyRecordOffset (syntheticOffset : Nat) : Nat :=
  if syntheticOffset = recordSize then 2 * recordSize else recordSize

namespace Machine

/-- Moves the return record at a frame up by one record; its depth grows by as
much, so that it leads to the same caller. -/
def shiftRecord (P : Program) (frame : Nat) : MachineM Unit := do
  let depth ← readInt P frame
  let target ← register (frame + 1)
  setRegister (frame + recordSize) (P.int (depth + Int32.ofNat recordSize))
  setRegister (frame + recordSize + 1) target

/-- The innermost synthetic record. -/
def innermostSynthetic (P : Program) : MachineM Nat :=
  query fun m => Context.synthetic P m.thread.registers m.thread.context

/-- The record that a synthetic record serves. -/
def handlingContext (ctx : Nat) : MachineM Nat :=
  query fun m => Context.handling m.thread.registers ctx

/-- Calls `body` with a handler installed, in place of the running native. -/
def enterContext (P : Program) (handler body : Value) : MachineM Unit := do
  if handler.tag = .empty then throw (.typeError (.notHandler handler))
  claim (.call .call)
  let frame ← frame
  shiftRecord P frame
  setRegister frame (P.nat (frame - (← context)))
  setRegister (frame + 1) handler
  updateThread fun t => { t with
    context := frame, frame := frame + recordSize, frameEnd := recordSize, value := body }
  record (.enteredContext frame handler)

/-- Calls the innermost handler that implements `method`, in place of the
running native. -/
def trigger (P : Program) (method : MethodId) (arg : Value) : MachineM Unit := do
  claim (.call method)
  let handling ← query fun m => Context.handler P m.thread.registers method m.thread.context
  let handler ← register (handling + 1)
  let frame ← frame
  shiftRecord P frame
  setRegister frame (P.nat (frame - (← context)))
  setRegister (frame + 1) ⟨.empty, UInt32.ofNat (frame - handling)⟩
  setRegister (frame + 2 * recordSize) arg
  updateThread fun t => { t with
    context := frame, frame := frame + recordSize, frameEnd := recordSize + 1, value := handler }
  record (.triggered method handling frame)

/-- Returns a value from the trigger that the innermost handler serves. -/
def fastResume (P : Program) (v : Value) : MachineM Unit := do
  let synthetic ← innermostSynthetic P
  updateThread fun t => { t with context := synthetic, frame := synthetic + recordSize }
  ret P v

/-- Gives up the handled computation and returns a value from the context of
the innermost handler. -/
def abort (P : Program) (v : Value) : MachineM Unit := do
  let synthetic ← innermostSynthetic P
  let handling ← handlingContext synthetic
  updateThread fun t => { t with context := handling, frame := handling + recordSize }
  ret P v

/-- Makes the handled computation into a continuation, leaves the context of
the innermost handler, and calls `body` there with the continuation. -/
def reify (P : Program) (body : Value) : MachineM Unit := do
  claim (.call .call)
  let synthetic ← innermostSynthetic P
  let handling ← handlingContext synthetic
  let shift := bodyRecordOffset (synthetic - handling)
  let bodyRecord := handling + shift
  let words := synthetic + 2 * recordSize - handling
  let captured ← query (·.thread.registers.slice handling words)
  -- The value register keeps the body in sight of the collections that follow.
  setValue body
  let array ← allocArray P captured
  let cls ← Action.ofExcept (P.builtin .continuation)
  let k ← alloc P cls [array]
  let parent ← query fun m => Context.parent P m.thread.registers handling
  let depth ← readInt P bodyRecord
  if depth < Int32.ofNat shift then throw (.corruptRecord bodyRecord)
  let target := (← register (bodyRecord + 1)).data
  setRegister handling (P.int (depth - Int32.ofNat shift))
  setRegister (handling + 1) (P.int target.toInt32)
  setRegister (handling + recordSize) k
  updateThread fun t => { t with
    context := parent, frame := handling, frameEnd := recordSize + 1 }
  record (.reified words handling)

/-- Lays a continuation back onto the registers at the current frame, and
returns a value from its trigger. What the continued computation returns goes
to the caller of the running native. -/
def resume (P : Program) (k v : Value) : MachineM Unit := do
  unless P.builtins.get? .continuation = some k.tag do
    throw (.typeError (.notContinuation k))
  let captured ← query fun m => do m.image.asArray (← m.image.field P k 0)
  if captured.length < minCapture then throw (.typeError (.shortCapture captured.length))
  let frame ← frame
  let depth ← readInt P frame
  let target := (← register (frame + 1)).data
  let syntheticOffset := captured.length - 2 * recordSize
  let shift := bodyRecordOffset syntheticOffset
  onRegisters (Registers.write frame captured)
  setRegister frame (P.nat (frame - (← context)))
  setRegister (frame + shift) (P.int (depth + Int32.ofNat shift))
  setRegister (frame + shift + 1) (P.int target.toInt32)
  let synthetic := frame + syntheticOffset
  updateThread fun t => { t with
    context := synthetic, frame := synthetic + recordSize, frameEnd := recordSize }
  record (.resumed captured.length frame)
  ret P v

end Machine

end EffectMachine
