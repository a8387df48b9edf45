/-
Rebuilding code around edits. The new code is a row of pieces: the instructions that stay, the
code put in place of others and the code put between them. A piece that was or replaces an
instruction is anchored at that instruction's old offset, and the anchors with the new offsets
are the map through which everything else that refers to the code is moved.

Pieces are laid out one behind the other from offset zero. Moving them can take a target out of
the reach of a branch with a displacement of sixteen bits; such a branch is promoted to a form
with thirty-two bits. That form is longer, so the pieces are laid out again, until no branch is
strained. A promotion is never taken back, hence there are at most as many rounds as branches.

A conditional branch has no long form. Its promotion is the opposite branch around a long jump,
which makes the instruction after the jump a target that was none before. Where every target
needs a stack map frame that is not allowed, and the edit is refused instead.
-/

import JavaClass.Code.Edit
import JavaClass.Code.OffsetMap

namespace JavaClass.Code

/-! ### Pieces -/

/-- A piece of the new code. -/
inductive Piece
  /-- New code between instructions. -/
  | inserted (code : Bytes)
  /-- New code in place of the instruction at an offset. -/
  | substitute (offset : Nat) (code : Bytes)
  /-- An instruction that stays, and whether its branch is promoted. -/
  | kept (instruction : Instruction) (promoted : Bool)
  deriving DecidableEq, Repr

namespace Piece

/-- The old offset that the piece stands for. -/
def anchor? : Piece → Option Nat
  | inserted _ => none
  | substitute offset _ => some offset
  | kept instruction _ => some instruction.offset

/-- How many bytes the piece takes at `offset`. A promoted conditional branch is a branch of three
bytes and a jump of five. -/
def lengthAt (piece : Piece) (offset : Nat) : Nat :=
  match piece with
  | inserted code | substitute _ code => code.length
  | kept instruction false => instruction.lengthAt offset
  | kept instruction true => if Opcode.isConditional instruction.opcode then 8 else 5

/-- Whether the piece is a promoted branch. -/
def isPromoted : Piece → Bool
  | kept _ promoted => promoted
  | _ => false

/-- The target of a branch that may still have to be promoted. -/
def shortTarget? : Piece → Option Nat
  | kept ⟨_, opcode, .branch target⟩ false =>
    if Opcode.isShortBranch opcode then some target else none
  | _ => none

/-- The piece with its branch promoted. -/
def promote : Piece → Piece
  | kept instruction _ => kept instruction true
  | piece => piece

end Piece

/-- The pieces of edited code, in order: before each instruction what is inserted there, then what
replaces it or the instruction itself, and at the end what is inserted behind all of them. -/
def pieces (edits : EditTable) (length : Nat) (instructions : List Instruction) : List Piece :=
  instructions.flatMap (fun instruction =>
    (edits.insertions instruction.offset).map .inserted ++
      [match edits.replacement? instruction.offset with
        | some code => .substitute instruction.offset code
        | none => .kept instruction false]) ++
    (edits.insertions length).map .inserted

/-! ### Laying pieces out -/

/-- A piece at its new offset. -/
structure Placed where
  offset : Nat
  piece : Piece
  deriving DecidableEq, Repr

/-- Pieces at their new offsets, the length of the whole, and where everything went. -/
structure Layout where
  placed : List Placed
  length : Nat
  map : OffsetMap

/-- Places pieces one behind the other from `offset` on, behind those already `seen` in reverse
order. The offset behind the last comes with them. Offsets are counted in thirty-two bits: a piece
counts for what thirty-two bits hold of its length, and a count that runs over begins again at zero.
-/
def placeFrom (offset : UInt32) (seen : List Placed) : List Piece → List Placed × UInt32
  | [] => (seen.reverse, offset)
  | piece :: rest =>
    placeFrom (offset + .ofNat (piece.lengthAt offset.toNat)) (⟨offset.toNat, piece⟩ :: seen) rest

/-- Where the anchors of placed pieces went, and the end of code of `oldLength` bytes. -/
def anchors (oldLength : Nat) (placed : List Placed) (newLength : Nat) : OffsetMap :=
  .ofList (placed.filterMap (fun part => part.piece.anchor?.map fun old => (old, part.offset)) ++
    [(oldLength, newLength)])

/-- Lays the pieces of what were `oldLength` bytes out, if they are not too long for a method. Their
length is what was counted: whether it ran over is not looked at. -/
def layOut (oldLength : Nat) (pieces : List Piece) : Except Error Layout :=
  let (placed, count) := placeFrom 0 [] pieces
  let length := count.toNat
  if longestCode < length then .error (.codeTooLarge length)
  else .ok ⟨placed, length, anchors oldLength placed length⟩

/-! ### Promoting branches -/

/-- Whether a displacement fits into sixteen bits. -/
def isShort (displacement : Int) : Bool := -32768 ≤ displacement && displacement < 32768

/-- A placed piece, promoted if it is a branch that does not reach its target any more. Promoting
a conditional branch takes permission. -/
def Placed.relax (allowed : Bool) (map : OffsetMap) (part : Placed) : Except Error Piece :=
  match part.piece.shortTarget? with
  | none => .ok part.piece
  | some target => do
    let target ← map.move .target target
    if isShort ((target : Int) - (part.offset : Int)) then return part.piece
    match part.piece with
    | .kept instruction _ =>
      if Opcode.isConditional instruction.opcode && !allowed then
        throw (.unsupportedEdit (.needsFrame instruction.offset))
    | _ => pure ()
    return part.piece.promote

/-- How many branches are promoted. -/
def promotions (pieces : List Piece) : Nat := pieces.countP Piece.isPromoted

/-- Lays pieces out until no branch is strained. With as many `rounds` as there are branches that
may still have to be promoted, none is left when the rounds are used up. -/
def settle (allowed : Bool) (oldLength : Nat) : Nat → List Piece → Except Error Layout
  | 0, pieces => layOut oldLength pieces
  | rounds + 1, pieces => do
    let layout ← layOut oldLength pieces
    let relaxed ← layout.placed.mapM (Placed.relax allowed layout.map)
    if promotions relaxed = promotions pieces then return layout
    else settle allowed oldLength rounds relaxed

/-! ### Writing the new code -/

/-- The bytes of a placed piece. -/
def Placed.encode (map : OffsetMap) (part : Placed) : Except Error Bytes :=
  match part.piece with
  | .inserted code | .substitute _ code => .ok code
  | .kept instruction promoted => do
    let moved ← { instruction with offset := part.offset }.retarget (map.move .target)
    return if promoted then moved.promoted.flatMap Instruction.encode
      else moved.encode

/-- Edited code, with what there is to know about the way it came from the old one. -/
structure Relocation where
  code : Bytes
  map : OffsetMap
  promotions : Nat

/-- Applies edits to code. Conditional branches are only promoted if that is `allowed`. Old offsets
have thirty-two bits, so a code array is taken to be shorter than `2 ^ 32` bytes; a longer one, of
which the decoded offsets would not be the counted ones, is refused before anything is laid out. -/
def relocate (code : Bytes) (edits : List CodeEdit) (allowed : Bool) :
    Except Error Relocation := do
  if UInt32.size ≤ code.length then throw (.codeTooLarge code.length)
  let instructions ← decode code
  let starts := Std.ExtTreeSet.ofList (instructions.map Instruction.offset)
  CodeEdit.checkAll starts code.length [] edits
  let pieces := pieces (EditTable.ofList edits) code.length instructions
  let branches := pieces.countP fun piece => piece.shortTarget?.isSome
  let layout ← settle allowed code.length branches pieces
  let parts ← layout.placed.mapM (Placed.encode layout.map)
  return { code := parts.flatten, map := layout.map
           promotions := promotions (layout.placed.map Placed.piece) }

end JavaClass.Code
