/-
Instructions. An instruction is kept with the offset it stands at and with its targets as offsets
too, not as displacements, so that it means the same wherever it is moved. `encode` writes it down
where it stands; the only parts that depend on the place are the displacements and the padding
that aligns a switch.
-/

import JavaClass.Bytes
import JavaClass.Code.Opcode

namespace JavaClass

/-- What follows an opcode. -/
inductive Operands
  /-- Bytes that mean the same everywhere. A wide form begins with the opcode it widens. -/
  | plain (bytes : Bytes)
  | branch (target : Nat)
  | tableSwitch (default : Nat) (low high : Int32) (targets : List Nat)
  | lookupSwitch (default : Nat) (pairs : List (Int32 × Nat))
  deriving DecidableEq, Repr

/-- An instruction at an offset of a code array. -/
structure Instruction where
  offset : Nat
  opcode : UInt8
  operands : Operands
  deriving DecidableEq, Repr

/-- How many bytes stand between the opcode of a switch at `offset` and its operands, which begin
at a multiple of four. -/
def switchPadding (offset : Nat) : Nat := (4 - (offset + 1) % 4) % 4

namespace Instruction

/-- How many bytes the instruction would take at `offset`. An instruction of a code array that is
shorter than `2 ^ 32` bytes is shorter than that as well; who lays out longer ones has to say what
becomes of the count. -/
def lengthAt (instruction : Instruction) (offset : Nat) : Nat :=
  match instruction.operands with
  | .plain bytes => 1 + bytes.length
  | .branch _ => if Opcode.isWideBranch instruction.opcode then 5 else 3
  | .tableSwitch _ _ _ targets => 1 + switchPadding offset + 12 + 4 * targets.length
  | .lookupSwitch _ pairs => 1 + switchPadding offset + 8 + 8 * pairs.length

/-- How many bytes the instruction takes. -/
def length (instruction : Instruction) : Nat := instruction.lengthAt instruction.offset

/-- Where control may go from here other than to the next instruction. -/
def targets (instruction : Instruction) : List Nat :=
  match instruction.operands with
  | .plain _ => []
  | .branch target => [target]
  | .tableSwitch default _ _ targets => default :: targets
  | .lookupSwitch default pairs => default :: pairs.map Prod.snd

/-- Whether the instruction has no targets. -/
def isBranchFree (instruction : Instruction) : Bool :=
  match instruction.operands with
  | .plain _ => true
  | _ => false

/-- The constant the instruction uses. -/
def poolIndex? (instruction : Instruction) : Option UInt16 :=
  match instruction.operands with
  | .plain (high :: rest) =>
    if instruction.opcode == Opcode.ldc then some high.toUInt16
    else if Opcode.hasPoolIndex instruction.opcode then
      rest.head?.map fun low => BigEndian.ofBytes16 high low
    else none
  | _ => none

/-- The instruction with every target replaced, or the failure to replace one. -/
def retarget (instruction : Instruction) (replace : Nat → Except ε Nat) :
    Except ε Instruction := do
  let operands ← match instruction.operands with
    | .plain bytes => pure (.plain bytes)
    | .branch target => pure (.branch (← replace target))
    | .tableSwitch default low high targets =>
      pure (.tableSwitch (← replace default) low high (← targets.mapM replace))
    | .lookupSwitch default pairs =>
      pure (.lookupSwitch (← replace default)
        (← pairs.mapM fun (key, target) => return (key, ← replace target)))
  return { instruction with operands }

/-- What a short branch becomes when its displacement needs more than sixteen bits: the same branch
in its wide form or, since conditional branches have none, the opposite branch to the instruction
behind a wide jump, and that jump. -/
def promoted (instruction : Instruction) : List Instruction :=
  match instruction.operands with
  | .branch target =>
    match Opcode.opposite? instruction.opcode with
    | some opposite =>
      [⟨instruction.offset, opposite, .branch (instruction.offset + 8)⟩,
        ⟨instruction.offset + 3, Opcode.gotoW, .branch target⟩]
    | none => [⟨instruction.offset, Opcode.widened instruction.opcode, .branch target⟩]
  | _ => [instruction]

/-- The bytes of the instruction where it stands. -/
def encode (instruction : Instruction) : Bytes :=
  let displacement (target : Nat) : Int := (target : Int) - (instruction.offset : Int)
  let padding := List.replicate (switchPadding instruction.offset) 0
  instruction.opcode ::
    match instruction.operands with
    | .plain bytes => bytes
    | .branch target =>
      if Opcode.isWideBranch instruction.opcode then BigEndian.signed32 (displacement target)
      else BigEndian.signed16 (displacement target)
    | .tableSwitch default low high targets =>
      padding ++ BigEndian.signed32 (displacement default) ++ BigEndian.word32 low.toUInt32 ++
        BigEndian.word32 high.toUInt32 ++
        targets.flatMap fun target => BigEndian.signed32 (displacement target)
    | .lookupSwitch default pairs =>
      padding ++ BigEndian.signed32 (displacement default) ++
        BigEndian.word32 (UInt32.ofNat pairs.length) ++
        pairs.flatMap fun (key, target) =>
          BigEndian.word32 key.toUInt32 ++ BigEndian.signed32 (displacement target)

end Instruction

end JavaClass
