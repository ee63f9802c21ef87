/-
Faults: why a run of the machine stops short.

* `TypeFault`: an operation got a value of the wrong shape;
* `Fault`: every way in which running can fail, with the facts of the case;
* `Fault.message`: its wording.
-/
import EffectMachine.Instruction
import EffectMachine.Text.Utf8

namespace EffectMachine

/-- A value, name or number that an operation cannot take. -/
inductive TypeFault where
  | notInteger (v : Value)
  | notBoolean (v : Value)
  | notArray (v : Value)
  | notString (v : Value)
  | notContinuation (v : Value)
  /-- A value of the empty class, which marks records and handles nothing. -/
  | notHandler (v : Value)
  /-- An object was to be made with a number of fields its class does not
  have. -/
  | fieldCount (cls : ClassId) (expected got : Nat)
  /-- The string class has no room for its bytes. -/
  | noFields (cls : ClassId)
  /-- The bytes of a string are no text. -/
  | notText (error : Utf8.Error)
  | noMethod (name : String)
  /-- A negative number was to name an effect. -/
  | notEffect (n : Int32)
  | division (dividend divisor : Int32)
  /-- A continuation holds too few registers to be resumed. -/
  | shortCapture (registers : Nat)
deriving DecidableEq

namespace TypeFault

/-- The wording of a type fault. -/
def message : TypeFault → String
  | notInteger v => s!"expected an integer, got {v.text}"
  | notBoolean v => s!"expected a boolean, got {v.text}"
  | notArray v => s!"expected an array, got {v.text}"
  | notString v => s!"expected a string, got {v.text}"
  | notContinuation v => s!"expected a continuation, got {v.text}"
  | notHandler v => s!"{v.text} cannot be installed as a handler"
  | fieldCount cls expected got => s!"{cls.text} takes {expected} fields, got {got}"
  | noFields cls => s!"{cls.text} has no fields"
  | notText error => error.message
  | noMethod name => s!"program has no method {name}"
  | notEffect n => s!"invalid effect method {n.toInt}"
  | division dividend divisor => s!"cannot divide {dividend.toInt} by {divisor.toInt}"
  | shortCapture registers => s!"continuation holds {registers} registers"

end TypeFault

/-- Why a run stops short. -/
inductive Fault where
  /-- A register outside the register file was named. -/
  | stackOverflow
  /-- There is no instruction to execute. -/
  | decode (error : DecodeError)
  /-- A call would lay its record over the caller's. -/
  | invalidCall (base : UInt8) (pos : UInt32)
  /-- The class of the receiver does not implement the method. -/
  | dispatchMiss (cls : ClassId) (method : MethodId)
  /-- The method is bound to a handler, which cannot be entered. -/
  | handlerBinding (cls : ClassId) (method : MethodId)
  | invalidGlobal (index : UInt32)
  | fieldOutOfRange (cls : ClassId) (index : Nat)
  /-- A value names heap words that are not in use. -/
  | invalidReference (cls : ClassId) (offset : UInt32)
  /-- Collecting did not free enough words. -/
  | outOfMemory (requested available : Nat)
  /-- The program names a native that is not registered. -/
  | unknownNative (name : String)
  | invalidNative (index : UInt32)
  /-- A native ended without handing control on. -/
  | nativeDidNotTransfer (name : String)
  /-- A native handed control on twice. -/
  | nativeTransferredTwice
  | unhandledEffect (method : MethodId)
  /-- A handler's operation was used where no handler runs. -/
  | notInHandler
  /-- A return or context record does not hold what it should. -/
  | corruptRecord (register : Nat)
  | typeError (fault : TypeFault)
  | missingBuiltin (kind : ClassKind)
deriving DecidableEq

namespace Fault

/-- The wording of a fault. -/
def message : Fault → String
  | stackOverflow => "Stack overflow"
  | decode error => error.message
  | invalidCall base pos => s!"Invalid call base {base.toNat} at {pos.toNat}"
  | dispatchMiss cls method => s!"{cls.text} does not implement {method.text}"
  | handlerBinding cls method =>
    s!"{cls.text} binds {method.text} as a handler, which cannot be called"
  | invalidGlobal index => s!"Invalid global index: {index.toNat}"
  | fieldOutOfRange cls index => s!"Field {index} out of range for {cls.text}"
  | invalidReference cls offset =>
    s!"Invalid reference to offset {offset.toNat} with {cls.text}"
  | outOfMemory requested available =>
    s!"Out of memory: {requested} words requested, {available} available"
  | unknownNative name => s!"Unknown native method: {name}"
  | invalidNative index => s!"Invalid native index: {index.toNat}"
  | nativeDidNotTransfer name =>
    s!"Native method {name} did not return or transfer control"
  | nativeTransferredTwice => "Native method transferred control twice"
  | unhandledEffect method => s!"Unhandled effect {method.text}"
  | notInHandler => "Not running inside an effect handler"
  | corruptRecord register =>
    s!"Corrupt frame or context record at register {register}"
  | typeError fault => s!"Type error: {fault.message}"
  | missingBuiltin kind => s!"Program has no {kind.name} class"

end Fault

/-- An operation on a state that may fault. What it did to the state before a
fault stays done. -/
abbrev Action (σ α : Type) := EStateM Fault σ α

end EffectMachine
