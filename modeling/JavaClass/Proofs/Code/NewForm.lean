/-
What stands in edited code for an old instruction: the code that was put in its place, or the
instruction itself with its targets moved, as it was or promoted. It takes as many bytes as were
left for it when the code was laid out, begins where the map sends the instruction, and ends before
anything that comes behind the instruction. So every offset that the map knows goes behind all bytes
of the form or in front of them all, on the side of the instruction where it was before. None of
this depends on whether the new code decodes.
-/

import JavaClass.Proofs.Code.Relocation

namespace JavaClass.Code

open CodeEdit

/-! ### Bytes of pieces -/

/-- The bytes of a piece lie where the piece was laid. -/
theorem exists_around {map : OffsetMap} {place : Nat} {pieces : List Piece} {parts : List Bytes}
    (encoded : List.Forall₂ (fun part bytes => Placed.encode map part = .ok bytes)
      (placedFrom place pieces) parts)
    (fills : ∀ part ∈ placedFrom place pieces, ∀ bytes, part.encode map = .ok bytes →
      bytes.length = part.piece.lengthAt part.offset)
    {part : Placed} (member : part ∈ placedFrom place pieces) :
    ∃ before form after, part.encode map = .ok form ∧
      parts.flatten = before ++ form ++ after ∧ place + before.length = part.offset := by
  induction pieces generalizing place parts with
  | nil => cases member
  | cons piece rest inductionHypothesis =>
    rw [placedFrom] at encoded fills member
    cases encoded with
    | @cons _ bytes _ others here later =>
      obtain ⟨fillsHere, fillsLater⟩ := List.forall_mem_cons.mp fills
      cases member with
      | head => exact ⟨[], bytes, others.flatten, here, rfl, rfl⟩
      | tail _ member =>
        obtain ⟨before, form, after, encoded, split, offset⟩ :=
          inductionHypothesis later fillsLater member
        refine ⟨bytes ++ before, form, after, encoded, ?_, ?_⟩
        · rw [List.flatten_cons, split, List.append_assoc, List.append_assoc, List.append_assoc]
        · have length : bytes.length = piece.lengthAt place := fillsHere bytes here
          rw [List.length_append, length, ← Nat.add_assoc]
          exact offset

/-! ### Forms -/

namespace Relocates

variable {code : Bytes} {edits : List CodeEdit} {allowed : Bool} {relocation : Relocation}
  {marked : List (Instruction × Bool)} {parts : List Bytes}
  (relocates : Relocates code edits allowed relocation marked parts)

include relocates

theorem fills {part : Placed}
    (member : part ∈ placedFrom 0 (markedPieces edits code.length marked)) {bytes : Bytes}
    (encoded : part.encode relocation.map = .ok bytes) :
    bytes.length = part.piece.lengthAt part.offset :=
  length_of_encode (fun _ kept =>
    relocates.promotable (relocates.kept_of_part member kept).1 rfl) encoded

/-- The bytes that stand for a marked instruction lie where the map sends it. -/
theorem exists_lying {mark : Instruction × Bool} (member : mark ∈ marked) :
    ∃ place form, ⟨place, anchoredPiece edits mark⟩ ∈
        placedFrom 0 (markedPieces edits code.length marked) ∧
      relocation.map.get? mark.1.offset = some place ∧
      Placed.encode relocation.map ⟨place, anchoredPiece edits mark⟩ = .ok form ∧
      ∃ before after, relocation.code = before ++ form ++ after ∧ before.length = place := by
  obtain ⟨place, partMember, here, -⟩ := relocates.exists_part member
  obtain ⟨before, form, after, encoded, split, length⟩ := exists_around relocates.encoded
    (fun part member bytes => relocates.fills member) partMember
  rw [Nat.zero_add] at length
  exact ⟨place, form, partMember, here, encoded, before, after, relocates.code_eq.trans split,
    length⟩

end Relocates

end JavaClass.Code
