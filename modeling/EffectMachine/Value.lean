/-
Values.

Every value is a class and 32 bits of data. Whether the data is the value
itself or the place of an object on the heap depends on the class alone: a
class without fields is never allocated, so its data is inline.

* `Value`, with `Value.nil`, the content of what was never written;
* `Value.signed`, the inline data read as a signed integer;
* `Value.text`, the form in which messages show a value.
-/
import EffectMachine.ClassId

namespace EffectMachine

/-- A class with 32 bits of data: an inline scalar or a heap offset. -/
structure Value where
  tag : ClassId
  data : UInt32
deriving DecidableEq

namespace Value

/-- The value of everything unset. -/
def nil : Value := ⟨.empty, 0⟩

instance : Inhabited Value := ⟨nil⟩

/-- Whether this is the unset value. -/
def isNil (v : Value) : Bool := v = nil

/-- The data read as a signed integer. -/
def signed (v : Value) : Int32 := v.data.toInt32

/-- The heap offset that the data names, for a value of a class with fields. -/
def offset (v : Value) : Nat := v.data.toNat

/-- The form in which messages show a value. -/
def text (v : Value) : String := s!"<{v.tag.text}:{v.data.toNat}>"

end Value

end EffectMachine
