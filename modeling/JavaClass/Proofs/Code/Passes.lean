/-
The passes in which edited code is laid out. There is at most one more of them than there are
branches of sixteen bits that are not replaced, and while places can be counted no piece ever moves
towards the beginning: a promoted branch is longer than it was, and although a switch that is moved
may need less padding than before, what it ends at is padded up to a multiple of four and so does
not come earlier. Code that is too long in one pass therefore stays so whatever else is promoted.

Every pass knows where each old instruction and the old end go. Since the targets of decoded code
are among these, no look-up of a target fails, neither between two passes nor when the code is
written. What edits that can be made come to is thus decided by the passes alone.
-/

import JavaClass.Proofs.Code.Relocation

namespace JavaClass

/-! ### What does not move back -/

namespace Code

open CodeEdit

/-- Where the pieces of a row are placed when they are laid out. -/
def slots (row : List Piece) : List Placed := (placeFrom 0 [] row).1

section mono

variable {allowed : Bool} {pieces wider : List Piece}
  (widened : List.Forall₂ (Piece.Widens allowed) pieces wider)

include widened

end mono

/-- Promotions that are allowed anyhow are allowed if all are. -/
theorem ProperMarks.permitted {allowed : Bool} {edits : List CodeEdit}
    {marked : List (Instruction × Bool)} (proper : ProperMarks allowed edits marked) :
    ProperMarks true edits marked := by
  intro mark member promoted
  obtain ⟨promotable, stays⟩ := proper mark member promoted
  exact ⟨⟨promotable.branch, promotable.short, fun _ => rfl⟩, stays⟩

/-! ### Counting what may be promoted -/

theorem isSome_shortTarget?_kept {instruction : Instruction}
    (suits : instruction.operands.Suits instruction.opcode) :
    (Piece.kept instruction false).shortTarget?.isSome =
      Opcode.isShortBranch instruction.opcode := by
  obtain ⟨offset, opcode, operands⟩ := instruction
  cases operands with
  | plain bytes => exact suits.1.symm
  | branch target =>
    show (if Opcode.isShortBranch opcode = true then some target else none).isSome = _
    cases Opcode.isShortBranch opcode <;> rfl
  | tableSwitch default low high targets =>
    rw [suits.1]
    rfl
  | lookupSwitch default pairs =>
    rw [suits.1]
    rfl

/-- A piece is written if the targets of an instruction that stays are found. -/
theorem Placed.exists_encode {map : OffsetMap} {part : Placed}
    (found : ∀ instruction promoted, part.piece = .kept instruction promoted →
      ∀ target ∈ instruction.targets, (map.get? target).isSome = true) :
    ∃ bytes, part.encode map = .ok bytes := by
  obtain ⟨place, piece⟩ := part
  cases piece with
  | inserted code => exact ⟨code, rfl⟩
  | substitute _ code => exact ⟨code, rfl⟩
  | kept instruction promoted =>
    have moves : ∀ target ∈ ({ instruction with offset := place } : Instruction).targets,
        map.move .target target = .ok (map.destination target) := by
      intro target isTarget
      obtain ⟨moved, sent⟩ :=
        Option.isSome_iff_exists.mp (found instruction promoted rfl target isTarget)
      rw [OffsetMap.move_eq_ok_iff, OffsetMap.destination, sent]
      rfl
    simp only [Placed.encode, retarget_eq_ok moves]
    exact ⟨_, rfl⟩

/-! ### The passes over decoded code -/

section passes

variable {code : Bytes} {edits : List CodeEdit} {allowed : Bool} {instructions : List Instruction}
  {later : List (List Piece)} {result : Except Error Layout}
  (decoded : decode code = .ok instructions)
  (run : Settles allowed code.length
    (pieces (EditTable.ofList edits) code.length instructions :: later) result)

include run

/-- Every pass lays out the old instructions, marked as promoted or not. -/
theorem exists_marks_of_pass {row : List Piece}
    (member : row ∈ pieces (EditTable.ofList edits) code.length instructions :: later) :
    ∃ marked, marked.map Prod.fst = instructions ∧ ProperMarks allowed edits marked ∧
      row = markedPieces edits code.length marked := by
  have widened : List.Forall₂ (Piece.Widens allowed)
      (pieces (EditTable.ofList edits) code.length instructions) row := by
    rcases List.mem_cons.mp member with rfl | member
    · exact widens_row_refl _ _
    · exact List.rel_of_pairwise_cons run.pairwise member
  rw [pieces_eq_markedPieces] at widened
  obtain ⟨marked, same, proper, whole⟩ :=
    exists_marks_of_widens (properMarks_unmarked allowed edits instructions) widened
  rw [List.map_map] at same
  exact ⟨marked, same.trans (List.map_id _), proper, whole⟩

include decoded

theorem isSome_get?_of_pass {row : List Piece} {layout : Layout}
    (member : row ∈ pieces (EditTable.ofList edits) code.length instructions :: later)
    (laidOut : layOut code.length row = .ok layout)
    {instruction : Instruction} {promoted : Bool} (kept : .kept instruction promoted ∈ row)
    {target : Nat} (isTarget : target ∈ instruction.targets) :
    (layout.map.get? target).isSome = true := by
  obtain ⟨marked, rfl, -, rfl⟩ := exists_marks_of_pass run member
  obtain ⟨tiles, closed⟩ := decode_eq_ok_iff.mp decoded
  obtain ⟨all, map⟩ := all_of_layOut laidOut
  obtain ⟨_, _, _, impossible⟩ | ⟨mark, markMember, same⟩ := mem_markedPieces kept
  · cases impossible
  · obtain ⟨rfl, -⟩ := anchoredPiece_eq_kept same.symm
    rw [map, isSome_get?_anchors_iff tiles all]
    exact .inl (closed instruction (List.mem_map_of_mem markMember) target isTarget)

/-- The layout that comes out of the passes is written down. -/
theorem exists_encode_of_settled {layout : Layout} (settled : result = .ok layout) :
    ∃ parts, layout.placed.mapM (Placed.encode layout.map) = .ok parts := by
  subst settled
  obtain ⟨row, member, laidOut, -⟩ := run.settled_of_ok
  refine Outcome.exists_mapM_eq_ok fun part partMember => Placed.exists_encode ?_
  intro instruction promoted kept target isTarget
  have pieceMember := piece_mem_of_layOut laidOut partMember
  rw [kept] at pieceMember
  exact isSome_get?_of_pass decoded run member laidOut pieceMember isTarget

end passes

section checked

variable {code : Bytes} {edits : List CodeEdit} {instructions : List Instruction}
  (short : code.length < UInt32.size) (decoded : decode code = .ok instructions)
  (checked :
    checkAll (.ofList (instructions.map Instruction.offset)) code.length [] edits = .ok ())

include short decoded checked

theorem relocate_eq_bind (allowed : Bool) :
    relocate code edits allowed = do
      let layout ← settleEdits allowed code.length edits instructions
      let parts ← layout.placed.mapM (Placed.encode layout.map)
      return ⟨parts.flatten, layout.map, promotions (layout.placed.map Placed.piece)⟩ := by
  rw [relocate, if_neg (Nat.not_le_of_lt short), Outcome.bind_of_ok decoded]
  exact Outcome.bind_of_ok checked

theorem relocate_of_settle_error {allowed : Bool} {error : Error}
    (failed : settleEdits allowed code.length edits instructions = .error error) :
    relocate code edits allowed = .error error := by
  rw [relocate_eq_bind short decoded checked]
  simp only [failed, bind, Except.bind]

/-- What a layout is written as is what edits come to, whether or not promotions were allowed on the
way to it. -/
theorem relocate_of_settle_ok {allowed : Bool} {layout : Layout} {parts : List Bytes}
    (settled : settleEdits allowed code.length edits instructions = .ok layout)
    (encoded : layout.placed.mapM (Placed.encode layout.map) = .ok parts) :
    relocate code edits allowed =
      .ok ⟨parts.flatten, layout.map, promotions (layout.placed.map Placed.piece)⟩ := by
  rw [relocate_eq_bind short decoded checked]
  simp only [settled, encoded, bind, Except.bind]
  rfl

end checked

end Code

end JavaClass
