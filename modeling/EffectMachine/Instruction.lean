/-
The instruction set.

An instruction is one opcode byte followed by operands of fixed size, words
being little-endian. Registers are counted from the current frame.

* `Opcode`: the nine opcodes with their bytes, names and operand sizes;
* `Instruction.encode` and `Instruction.decode`: bytes and back;
* `DecodeError`: why no instruction can be read at a position;
* `Instruction.decodeAll`: the instructions of a whole code, with their
  positions;
* `listing`: the printed form of a code, one instruction a line.
-/
import EffectMachine.Value
import EffectMachine.Word

namespace EffectMachine

/-! ### Opcodes -/

/-- The operations of the machine. -/
inductive Opcode where
  /-- The value register becomes a register of the frame. -/
  | load
  /-- A register of the frame becomes the value register. -/
  | store
  /-- The value register becomes an integer. -/
  | natural
  /-- The value register becomes a global. -/
  | globalLoad
  /-- A global becomes the value register. -/
  | globalStore
  /-- A new object takes its fields from the frame. -/
  | create
  /-- The value register becomes one of its own fields. -/
  | field
  /-- The value register is returned to the caller. -/
  | ret
  /-- A method is dispatched on the value register. -/
  | call
deriving DecidableEq

namespace Opcode

/-- The byte of an opcode. -/
def byte : Opcode → UInt8
  | load => 0
  | store => 1
  | natural => 2
  | globalLoad => 3
  | globalStore => 4
  | create => 5
  | field => 6
  | ret => 7
  | call => 8

/-- The opcode of a byte. -/
def ofByte? : UInt8 → Option Opcode
  | 0 => some load
  | 1 => some store
  | 2 => some natural
  | 3 => some globalLoad
  | 4 => some globalStore
  | 5 => some create
  | 6 => some field
  | 7 => some ret
  | 8 => some call
  | _ => none

/-- The mnemonic of an opcode. -/
def name : Opcode → String
  | load => "LOAD"
  | store => "STORE"
  | natural => "NATURAL"
  | globalLoad => "GLOBAL_LOAD"
  | globalStore => "GLOBAL_STORE"
  | create => "CREATE"
  | field => "FIELD"
  | ret => "RET"
  | call => "CALL"

/-- The number of bytes that follow an opcode. -/
def operandSize : Opcode → Nat
  | load | store => 1
  | natural | globalLoad | globalStore | field => 4
  | create | call => 5
  | ret => 0

@[simp] theorem ofByte?_byte (op : Opcode) : ofByte? op.byte = some op := by
  cases op <;> rfl

end Opcode

/-! ### Instructions -/

/-- An instruction with its operands. -/
inductive Instruction where
  | load (register : UInt8)
  | store (register : UInt8)
  | natural (value : Int32)
  | globalLoad (global : UInt32)
  | globalStore (global : UInt32)
  /-- The fields of the new object start at register `base`. -/
  | create (cls : ClassId) (base : UInt8)
  | field (index : UInt32)
  | ret
  /-- The callee's frame opens `base` registers up; `0` reuses the caller's. -/
  | call (method : MethodId) (base : UInt8)
deriving DecidableEq

/-- Why no instruction can be read at a position. -/
inductive DecodeError where
  /-- The byte there is no opcode. -/
  | invalidOpcode (byte : UInt8) (pos : Nat)
  /-- The operands run past the end of the code. -/
  | truncated (opcode : Opcode) (pos : Nat)
  /-- The position is not inside the code. -/
  | outOfRange (pos : Nat)
deriving DecidableEq

namespace DecodeError

/-- The wording of a decoding failure. -/
def message : DecodeError → String
  | invalidOpcode byte pos => s!"Invalid opcode {byte.toNat} at {pos}"
  | truncated opcode pos => s!"Truncated {opcode.name} instruction at {pos}"
  | outOfRange pos => s!"Code position {pos} out of range"

end DecodeError

namespace Instruction

/-- The opcode of an instruction. -/
def opcode : Instruction → Opcode
  | load _ => .load
  | store _ => .store
  | natural _ => .natural
  | globalLoad _ => .globalLoad
  | globalStore _ => .globalStore
  | create _ _ => .create
  | field _ => .field
  | ret => .ret
  | call _ _ => .call

/-- The number of bytes of an instruction. -/
def size (i : Instruction) : Nat := 1 + i.opcode.operandSize

/-- The operand bytes of an instruction. -/
def operands : Instruction → List UInt8
  | load r | store r => [r]
  | natural n => Word.bytes n.toUInt32
  | globalLoad g | globalStore g | field g => Word.bytes g
  | create c base => Word.bytes c.code.toUInt32 ++ [base]
  | ret => []
  | call m base => Word.bytes m.index ++ [base]

/-- The bytes of an instruction. -/
def encode (i : Instruction) : List UInt8 := i.opcode.byte :: i.operands

/-- The instruction of an opcode whose operands start at `pos`, if they lie
inside the code. -/
def ofOperands? (op : Opcode) (code : Code) (pos : Nat) : Option Instruction :=
  match op with
  | .load => do return load (← code[pos]?)
  | .store => do return store (← code[pos]?)
  | .natural => do return natural (← Word.read? code pos).toInt32
  | .globalLoad => do return globalLoad (← Word.read? code pos)
  | .globalStore => do return globalStore (← Word.read? code pos)
  | .create => do return create ⟨(← Word.read? code pos).toInt32⟩ (← code[pos + 4]?)
  | .field => do return field (← Word.read? code pos)
  | .ret => some ret
  | .call => do return call ⟨← Word.read? code pos⟩ (← code[pos + 4]?)

/-- The instruction at a position of the code. -/
def decode (code : Code) (pos : Nat) : Except DecodeError Instruction :=
  match code[pos]? with
  | none => .error (.outOfRange pos)
  | some byte =>
    match Opcode.ofByte? byte with
    | none => .error (.invalidOpcode byte pos)
    | some op =>
      match ofOperands? op code (pos + 1) with
      | none => .error (.truncated op pos)
      | some instruction => .ok instruction

/-- Every instruction takes up at least its opcode byte. -/
theorem size_pos (i : Instruction) : 0 < i.size := by
  unfold size
  omega

@[simp] theorem length_encode (i : Instruction) : i.encode.length = i.size := by
  cases i <;> rfl

/-- The instructions from position `pos` to the end of the code, each with its
position. -/
def decodeFrom (code : Code) (pos : Nat) : Except DecodeError (List (Nat × Instruction)) :=
  if pos < code.size then
    match decode code pos with
    | .error e => .error e
    | .ok instruction =>
      match decodeFrom code (pos + instruction.size) with
      | .error e => .error e
      | .ok rest => .ok ((pos, instruction) :: rest)
  else .ok []
termination_by code.size - pos
decreasing_by
  have := instruction.size_pos
  omega

/-- The instructions of a whole code, each with its position. -/
def decodeAll (code : Code) : Except DecodeError (List (Nat × Instruction)) :=
  decodeFrom code 0

/-- The printed form of an instruction. -/
def text (i : Instruction) : String :=
  match i with
  | load r | store r => s!"{i.opcode.name} r{r.toNat}"
  | natural n => s!"{i.opcode.name} {n.toInt}"
  | globalLoad g | globalStore g => s!"{i.opcode.name} g{g.toNat}"
  | create c base => s!"{i.opcode.name} {c.code.toInt} r{base.toNat}"
  | field index => s!"{i.opcode.name} {index.toNat}"
  | ret => i.opcode.name
  | call m base => s!"{i.opcode.name} m{m.index.toNat} {base.toNat}"

end Instruction

/-! ### Listings -/

/-- The text with blanks in front up to a width. -/
def alignRight (width : Nat) (text : String) : String :=
  String.ofList (text.toList.leftpad width ' ')

/-- The text with blanks behind up to a width. -/
def alignLeft (width : Nat) (text : String) : String :=
  String.ofList (text.toList.rightpad width ' ')

/-- One line of a listing: the position in six columns, then the
instruction. -/
def listingLine (pos : Nat) (i : Instruction) : String :=
  s!"{alignRight 6 (toString pos)}: {i.text}\n"

/-- The printed form of a code, one instruction a line. -/
def listing (code : Code) : Except DecodeError String :=
  match Instruction.decodeAll code with
  | .error e => .error e
  | .ok lines => .ok (String.join (lines.map fun (pos, i) => listingLine pos i))

end EffectMachine
