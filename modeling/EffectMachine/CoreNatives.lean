/-
The core natives: effects, integers, conditionals and arrays.

They ignore the receiver; what they work on are their arguments.

* `coreNatives`: the natives with their names;
* `Registry.core`: the registry that holds just these.
-/
import EffectMachine.Effects
import EffectMachine.Native

namespace EffectMachine

namespace CoreNatives

open Machine

/-! ### Effects -/

/-- Calls the second argument with the first one as a handler. -/
def enterContext : Native := fun P _ => do
  Machine.enterContext P (← arg 0) (← arg 1)

/-- Triggers the effect whose method number is the first argument. -/
def triggerEffect : Native := fun P _ => do
  let n ← intArg P 0
  if n < 0 then throw (.typeError (.notEffect n))
  Machine.trigger P ⟨n.toUInt32⟩ (← arg 1)

/-- Returns the argument from the context of the innermost handler. -/
def fastAbort : Native := fun P _ => do Machine.abort P (← arg 0)

/-- Returns the argument from the trigger that the innermost handler serves. -/
def fastResume : Native := fun P _ => do Machine.fastResume P (← arg 0)

/-- Calls the argument with the continuation of the handled computation. -/
def reify : Native := fun P _ => do Machine.reify P (← arg 0)

/-- Resumes the continuation that is the first argument with the second. -/
def resume : Native := fun P _ => do Machine.resume P (← arg 0) (← arg 1)

/-! ### Integers -/

/-- An operation on two integers. -/
def arithmetic (op : Int32 → Int32 → Except TypeFault Int32) : Native := fun P _ => do
  let a ← intArg P 0
  let b ← intArg P 1
  match op a b with
  | .ok n => ret P (P.int n)
  | .error e => throw (.typeError e)

/-- A comparison of two integers. -/
def comparison (test : Int32 → Int32 → Bool) : Native := fun P _ => do
  let a ← intArg P 0
  let b ← intArg P 1
  ret P (← Action.ofExcept (P.boolean (test a b)))

/-- The quotient rounded toward zero. There is none by zero, and none for the
least integer by minus one, whose quotient is no integer of the machine. -/
def divide (a b : Int32) : Except TypeFault Int32 :=
  if b = 0 ∨ (a = Int32.minValue ∧ b = -1) then .error (.division a b) else .ok (a / b)

/-! ### Conditionals -/

/-- Calls the second or the third argument, as the first one is true or
false. -/
def conditional : Native := fun P _ => do
  let condition ← Action.ofExcept (P.boolValue (← arg 0))
  tailCall (← arg (if condition then 1 else 2)) .call []

/-! ### Arrays -/

/-- The length of an array. -/
def arrayLength : Native := fun P _ => do
  let array ← arg 0
  match array.tag.arrayLength? with
  | some length => ret P (P.nat length)
  | none => throw (.typeError (.notArray array))

/-- An integer as an index of 64 bits: a negative one wraps around. -/
def wrapIndex (n : Int32) : Nat := (n.toInt % 18446744073709551616).toNat

/-- The array and the index, inside it, that the first two arguments name. -/
def arrayIndex (P : Program) : MachineM (Value × Nat) := do
  let array ← arg 0
  let index ← intArg P 1
  match array.tag.arrayLength? with
  | some length =>
    if wrapIndex index < length then return (array, wrapIndex index)
    else throw (.fieldOutOfRange array.tag (wrapIndex index))
  | none => throw (.typeError (.notArray array))

/-- An element of an array. -/
def arrayGet : Native := fun P _ => do
  let (array, index) ← arrayIndex P
  ret P (← field P array index)

/-- Sets an element of an array to the third argument, and returns that. -/
def arraySet : Native := fun P _ => do
  let (array, index) ← arrayIndex P
  let v ← arg 2
  onImage (Image.setField P array index v)
  ret P v

end CoreNatives

open CoreNatives in
/-- The core natives with their names. -/
def coreNatives : List (String × Native) :=
  [("core:enter_context", enterContext),
    ("core:trigger_effect", triggerEffect),
    ("core:fast_abort_handler", fastAbort),
    ("core:fast_resume_handler", fastResume),
    ("core:reify_handler_context", reify),
    ("core:resume_handler", resume),
    ("core:int_add", arithmetic fun a b => .ok (a + b)),
    ("core:int_sub", arithmetic fun a b => .ok (a - b)),
    ("core:int_mul", arithmetic fun a b => .ok (a * b)),
    ("core:int_div", arithmetic divide),
    ("core:int_eq", comparison fun a b => a = b),
    ("core:int_lt", comparison fun a b => a < b),
    ("core:if", conditional),
    ("core:array_len", arrayLength),
    ("core:array_get", arrayGet),
    ("core:array_set", arraySet)]

/-- The registry of the core natives. -/
def Registry.core : Registry := Registry.insertAll {} coreNatives

end EffectMachine
