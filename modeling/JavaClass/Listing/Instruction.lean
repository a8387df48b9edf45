/-
Instructions in words. An instruction that uses a constant shows it; any other shows its operands as
the bytes they are, except that targets and the operands of wide forms are shown as numbers.
-/

import JavaClass.Code.Instruction
import JavaClass.Pool.Description

namespace JavaClass.Instruction

/-- Bytes two by two, as signed numbers, each behind a blank. A byte left over is not shown. -/
def signedPairs : Bytes → String
  | high :: low :: rest =>
    " " ++ toString (BigEndian.ofBytes16 high low).toInt16.toInt ++ signedPairs rest
  | _ => ""

/-- The cases of a switch between braces, its default being the last of them. -/
def switchCases (cases : List (Int × Nat)) (default : Nat) : String :=
  " \x7b" ++ String.join (cases.map fun (key, target) => s!" {key}: {target},") ++
    s!" default: {default} \x7d"

/-- The operands of an instruction as listings show them. -/
def operandText (instruction : Instruction) : String :=
  match instruction.operands with
  | .plain bytes =>
    if instruction.opcode == Opcode.wide then
      " " ++ Opcode.label (bytes.headD 0) ++ signedPairs bytes.tail
    else String.join (bytes.map fun byte => " " ++ toString byte.toNat)
  | .branch target => s!" {target}"
  | .tableSwitch default low _ targets =>
    switchCases (targets.zipIdx.map fun (target, index) => (low.toInt + index, target)) default
  | .lookupSwitch default pairs =>
    switchCases (pairs.map fun (key, target) => (key.toInt, target)) default

/-- The instruction as listings show it. -/
def render (pool : Pool) (instruction : Instruction) : String :=
  Opcode.label instruction.opcode ++
    match instruction.poolIndex? with
    | some index => s!" #{index.toNat} // " ++ pool.describe index
    | none => instruction.operandText

end JavaClass.Instruction
