/-
Taking a code array apart into instructions. The instructions follow one another without gaps
from the first byte to the last, and every target must be the beginning of one of them.
-/

import Std.Data.ExtTreeSet
import JavaClass.Code.Instruction
import JavaClass.Reader

namespace JavaClass.Code

/-! ### One instruction -/

/-- The offset that lies `displacement` after `offset`, which must be inside a code array of
`length` bytes. -/
def resolveTarget (length offset : Nat) (displacement : Int) : Except Error Nat :=
  let target := offset + displacement
  if 0 ≤ target && target < length then .ok target.toNat
  else .error (.invalidOffset target.toNat (.targetOutside offset))

/-- Reads a displacement of sixteen bits. -/
def readShortTarget (length offset : Nat) : Reader Nat := do
  resolveTarget length offset (← Reader.i16).toInt

/-- Reads a displacement of thirty-two bits. -/
def readWideTarget (length offset : Nat) : Reader Nat := do
  resolveTarget length offset (← Reader.i32).toInt

/-- Reads the operands of a `tableswitch`. -/
def readTableSwitch (length offset : Nat) : Reader Operands := do
  discard (Reader.take (switchPadding offset))
  let default ← readWideTarget length offset
  let low ← Reader.i32
  let high ← Reader.i32
  if high.toInt < low.toInt then
    throw (.malformed (.crossedSwitchBounds offset low.toInt high.toInt))
  let count := (high.toInt - low.toInt + 1).toNat
  Reader.ensure (4 * count)
  return .tableSwitch default low high (← Reader.many (readWideTarget length offset) count)

/-- Reads the operands of a `lookupswitch`. -/
def readLookupSwitch (length offset : Nat) : Reader Operands := do
  discard (Reader.take (switchPadding offset))
  let default ← readWideTarget length offset
  let count := (← Reader.i32).toInt
  if count < 0 then throw (.malformed (.negativePairCount offset))
  Reader.ensure (8 * count.toNat)
  let pair : Reader (Int32 × Nat) := do
    let key ← Reader.i32
    return (key, ← readWideTarget length offset)
  return .lookupSwitch default (← Reader.many pair count.toNat)

/-- Reads the operands of a wide form: the widened opcode and an index of two bytes, with a
constant of two bytes for `iinc`. -/
def readWideForm (offset : Nat) : Reader Operands := do
  let widened ← Reader.u8
  if !Opcode.isWidenable widened then throw (.invalidOpcode widened (offset + 1))
  return .plain (widened :: (← Reader.take (if widened == Opcode.iinc then 4 else 2)))

/-- Reads what follows the opcode of the instruction at `offset`, in a code array of `length`
bytes. -/
def readOperands (length offset : Nat) (opcode : UInt8) : Reader Operands :=
  if Opcode.isShortBranch opcode then return .branch (← readShortTarget length offset)
  else if Opcode.isWideBranch opcode then return .branch (← readWideTarget length offset)
  else if opcode == Opcode.tableswitch then readTableSwitch length offset
  else if opcode == Opcode.lookupswitch then readLookupSwitch length offset
  else if opcode == Opcode.wide then readWideForm offset
  else
    match Opcode.operandLength? opcode with
    | none => throw (.invalidOpcode opcode offset)
    | some count => return .plain (← Reader.take count)

/-! ### All instructions -/

/-- Reads the instructions from `offset` on, of a code array of `length` bytes, after those
already `seen` in reverse order. The first `pending` bytes still belong to the last of them.
Offsets are kept in thirty-two bits elsewhere: the array is taken to be shorter than `2 ^ 32` bytes,
where counting in so many bits is counting. -/
def decodeFrom (length offset pending : Nat) (seen : List Instruction) :
    Bytes → Except Error (List Instruction)
  | [] => .ok seen.reverse
  | opcode :: rest =>
    match pending with
    | pending + 1 => decodeFrom length (offset + 1) pending seen rest
    | 0 =>
      match readOperands length offset opcode rest with
      | .error (.truncated _) => .error (.malformed (.cutInstruction offset))
      | .error error => .error error
      | .ok (operands, _) =>
        let instruction := { offset, opcode, operands : Instruction }
        decodeFrom length (offset + 1) (instruction.length - 1) (instruction :: seen) rest

/-- Whether every target is the beginning of an instruction. -/
def checkTargets (instructions : List Instruction) : Except Error Unit :=
  let starts := Std.ExtTreeSet.ofList (instructions.map Instruction.offset)
  instructions.forM fun instruction =>
    instruction.targets.forM fun target =>
      if starts.contains target then .ok ()
      else .error (.invalidOffset target (.targetOf instruction.offset))

/-- The instructions of a code array. -/
def decode (code : Bytes) : Except Error (List Instruction) :=
  match decodeFrom code.length 0 0 [] code with
  | .error error => .error error
  | .ok instructions =>
    match checkTargets instructions with
    | .error error => .error error
    | .ok () => .ok instructions

end JavaClass.Code
