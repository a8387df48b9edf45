/-
What the map of old offsets to new ones is made of, and how far it moves them. It has an entry for
every old instruction and for the old end, in this order, and no entry moves behind a later one. As
long as every instruction that stays takes as many bytes as before, which only promoted branches and
switches may not, an old offset moves by what the edits in front of it make longer: by all that is
inserted at or before it, and by what the replacements before it are longer than what they replace.
An instruction is moved by what is inserted at it but not by what replaces it.
-/

import JavaClass.Proofs.Code.Relocation

namespace JavaClass.Code

open CodeEdit

/-! ### What edits make longer -/

/-- What some of a list of edits come to together. -/
def total (chosen : CodeEdit → Bool) (amount : CodeEdit → Int) (edits : List CodeEdit) : Int :=
  ((edits.filter chosen).map amount).sum

/-- How many bytes edits put in at or before an offset. -/
def insertedUpTo (edits : List CodeEdit) (offset : Nat) : Int :=
  total (fun edit => !edit.isReplacement && decide (edit.offset ≤ offset))
    (fun edit => edit.code.length) edits

/-- How many bytes the instruction at an offset takes. -/
def takenAt (instructions : List Instruction) (offset : Nat) : Nat :=
  ((instructions.find? fun instruction => instruction.offset == offset).map
    Instruction.length).getD 0

/-- By how many bytes the code that replaces instructions before an offset is longer than these. -/
def gainedBefore (edits : List CodeEdit) (instructions : List Instruction) (offset : Nat) : Int :=
  total (fun edit => edit.isReplacement && decide (edit.offset < offset))
    (fun edit => edit.code.length - takenAt instructions edit.offset) edits

/-- Where an old offset goes if nothing but the edits changes the length of anything. -/
def shifted (edits : List CodeEdit) (instructions : List Instruction) (offset : Nat) : Int :=
  offset + insertedUpTo edits offset + gainedBefore edits instructions offset

section step

variable {edits : List CodeEdit} {offset next : Nat} (ordered : offset < next)
  (clear : ∀ edit ∈ edits, edit.offset ≤ offset ∨ next ≤ edit.offset)

include ordered clear

end step

namespace Relocates

variable {code : Bytes} {edits : List CodeEdit} {allowed : Bool} {relocation : Relocation}
  {marked : List (Instruction × Bool)} {parts : List Bytes}
  (relocates : Relocates code edits allowed relocation marked parts)

include relocates

theorem ascending :
    Ascending (anchorPairs (placedFrom 0 (markedPieces edits code.length marked)) ++
      [(code.length, endFrom 0 (markedPieces edits code.length marked))]) :=
  ascending_markedPieces relocates.tiles_old

end Relocates

namespace Laid

variable {code : Bytes} {edits : List CodeEdit} {allowed : Bool} {relocation : Relocation}
  {marked : List (Instruction × Bool)} {layout : Layout} {parts : List Bytes}
  (laid : Laid code edits allowed relocation marked layout parts)

include laid

end Laid

end JavaClass.Code
