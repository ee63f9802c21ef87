/-
Integers and booleans of a program.

Both are inline values of classes that the program's builtin table names.

* `Program.int`, `Program.intValue`: integers;
* `Program.boolean`, `Program.boolValue`: booleans;
* `Program.builtin`: the class of a builtin kind.
-/
import EffectMachine.Fault
import EffectMachine.Program

namespace EffectMachine

namespace Program

/-- The class of a builtin kind. -/
def builtin (P : Program) (kind : ClassKind) : Except Fault ClassId :=
  match P.builtins.get? kind with
  | some c => .ok c
  | none => .error (.missingBuiltin kind)

/-- The class of the program's integers. -/
def intClass (P : Program) : ClassId := P.builtins.int

/-- An integer. -/
def int (P : Program) (n : Int32) : Value := ⟨P.intClass, n.toUInt32⟩

/-- A natural number as an integer. -/
def nat (P : Program) (n : Nat) : Value := P.int (Int32.ofNat n)

/-- The number that a value denotes, if it is an integer. -/
def intValue (P : Program) (v : Value) : Except Fault Int32 :=
  if v.tag = P.intClass then .ok v.signed else .error (.typeError (.notInteger v))

/-- A boolean. -/
def boolean (P : Program) (b : Bool) : Except Fault Value :=
  match P.builtin (if b then .truth else .falsehood) with
  | .ok c => .ok ⟨c, 0⟩
  | .error e => .error e

/-- The truth value that a value denotes, if it is a boolean. -/
def boolValue (P : Program) (v : Value) : Except Fault Bool :=
  if P.builtins.get? .truth = some v.tag then .ok true
  else if P.builtins.get? .falsehood = some v.tag then .ok false
  else .error (.typeError (.notBoolean v))

/-- The method of a name, which has to exist. -/
def method (P : Program) (name : String) : Except Fault MethodId :=
  match P.methodId? name with
  | some m => .ok m
  | none => .error (.typeError (.noMethod name))

end Program

end EffectMachine
