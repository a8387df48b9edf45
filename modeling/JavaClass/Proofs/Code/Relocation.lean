/-
Edited code, and what it is to consist of. The pieces stand one behind the other where they were
laid out. Together they are a row of instructions that fills the new code, and the map sends an old
instruction to where the piece for it begins. A piece that takes no room may lie at the very end,
and a promoted conditional branch may be the last instruction, so a target is the beginning of an
instruction or the end of the code. If nothing leads to the end, the new code decodes; it does so if
no instruction is replaced by nothing and something comes behind every promoted conditional branch.
-/

import JavaClass.Proofs.Code.Counting
import JavaClass.Proofs.Code.Emission

namespace JavaClass.Code

open CodeEdit

/-! ### Rows of pieces -/

theorem Tiles.beginsAt {length offset : Nat} {bytes : Bytes} {instructions : List Instruction}
    (tiles : Tiles length offset bytes instructions) (filled : bytes ≠ []) :
    BeginsAt instructions offset := by
  cases tiles with
  | nil => exact (filled rfl).elim
  | cons => exact ⟨_, List.mem_cons_self, rfl⟩

theorem BeginsAt.append_right {before after : List Instruction} {offset : Nat}
    (begins : BeginsAt after offset) : BeginsAt (before ++ after) offset := by
  obtain ⟨instruction, member, here⟩ := begins
  exact ⟨instruction, List.mem_append_right _ member, here⟩

section rows

variable {allowed : Bool} {length : Nat} {map : OffsetMap}

/-- Sound pieces stand one behind the other, and end where the layout ends. -/
theorem stands_row (bounded : length ≤ longestCode + 1) {place : Nat} {pieces : List Piece}
    {parts : List Bytes} (room : endFrom place pieces ≤ longestCode)
    (within : endFrom place pieces ≤ length)
    (sound : ∀ part ∈ placedFrom place pieces, part.Sound allowed length map.destination)
    (encoded : List.Forall₂ (fun part bytes => Placed.encode map part = .ok bytes)
      (placedFrom place pieces) parts) :
    Stands length place parts.flatten
        ((placedFrom place pieces).flatMap (Placed.image map.destination)) ∧
      place + parts.flatten.length = endFrom place pieces := by
  induction pieces generalizing place parts with
  | nil =>
    cases encoded
    exact ⟨.nil _ _, rfl⟩
  | cons piece rest inductionHypothesis =>
    rw [placedFrom] at sound encoded ⊢
    rw [endFrom] at room within ⊢
    cases encoded with
    | @cons _ bytes _ others first later =>
      obtain ⟨soundFirst, soundLater⟩ := List.forall_mem_cons.mp sound
      have here : place ≤ longestCode := by
        have behind := le_endFrom (place + piece.lengthAt place) rest
        omega
      obtain ⟨stands, takes⟩ := stands_of_sound bounded here soundFirst first
      obtain ⟨standsLater, ends⟩ := inductionHypothesis room within soundLater later
      have takes : bytes.length = piece.lengthAt place := takes
      rw [List.flatten_cons, List.flatMap_cons, List.length_append, takes, ← Nat.add_assoc]
      refine ⟨stands.append ?_, ends⟩
      rw [takes]
      exact standsLater

/-- Wherever pieces begin, an instruction does, if there is anything left to come. -/
theorem beginsAt_of_split (bounded : length ≤ longestCode + 1) {place : Nat}
    {front back : List Piece} {parts : List Bytes}
    (room : endFrom place (front ++ back) ≤ longestCode)
    (within : endFrom place (front ++ back) ≤ length)
    (sound : ∀ part ∈ placedFrom place (front ++ back),
      part.Sound allowed length map.destination)
    (encoded : List.Forall₂ (fun part bytes => Placed.encode map part = .ok bytes)
      (placedFrom place (front ++ back)) parts)
    (more : endFrom place front < endFrom place (front ++ back)) :
    BeginsAt ((placedFrom place (front ++ back)).flatMap (Placed.image map.destination))
      (endFrom place front) := by
  rw [placedFrom_append] at sound encoded ⊢
  rw [endFrom_append] at room within more
  have encodedBack := List.forall₂_drop (placedFrom place front).length encoded
  rw [List.drop_left] at encodedBack
  have soundBack := (List.forall_mem_append.mp sound).2
  obtain ⟨stands, ends⟩ := stands_row bounded room within soundBack encodedBack
  rw [List.flatMap_append]
  refine BeginsAt.append_right (stands.tiles.beginsAt fun empty => ?_)
  rw [empty] at ends
  have same : endFrom place front = endFrom (endFrom place front) back := ends
  omega

end rows

/-- A short branch has its target and no other. -/
theorem shortTarget?_of_mem {instruction : Instruction} {target : Nat}
    (suits : instruction.operands.Suits instruction.opcode)
    (short : Opcode.isShortBranch instruction.opcode = true)
    (member : target ∈ instruction.targets) :
    (Piece.kept instruction false).shortTarget? = some target := by
  obtain ⟨offset, opcode, operands⟩ := instruction
  cases operands with
  | plain bytes => cases member
  | branch target' =>
    rw [List.mem_singleton.mp member]
    exact if_pos short
  | tableSwitch default low high targets =>
    rw [suits.1] at short
    cases short
  | lookupSwitch default pairs =>
    rw [suits.1] at short
    cases short

theorem targets_eq_nil_of_isBranchFree {instruction : Instruction}
    (free : instruction.isBranchFree = true) : instruction.targets = [] := by
  obtain ⟨offset, opcode, operands⟩ := instruction
  cases operands with
  | plain bytes => rfl
  | branch | tableSwitch | lookupSwitch => cases free

theorem not_isTarget_of_free {code : Bytes} {place : Nat}
    (free : ∃ own, decode code = .ok own ∧
      ∀ instruction ∈ own, instruction.isBranchFree = true)
    {instruction : Instruction} (member : instruction ∈ instructionsAt place code) {target : Nat} :
    target ∉ instruction.targets := by
  obtain ⟨own, decoded, free⟩ := free
  rw [instructionsAt, decoded] at member
  obtain ⟨shifted, shiftedMember, rfl⟩ := List.mem_map.mp member
  show target ∉ shifted.targets
  rw [targets_eq_nil_of_isBranchFree (free shifted shiftedMember)]
  exact List.not_mem_nil

/-- A promoted branch goes where it went before or, if it is conditional, past itself. -/
theorem target_of_image_promoted {move : Nat → Nat} {place offset oldTarget : Nat} {opcode : UInt8}
    {instruction : Instruction}
    (member : instruction ∈ image move place ⟨offset, opcode, .branch oldTarget⟩ true)
    {target : Nat} (isTarget : target ∈ instruction.targets) :
    target = move oldTarget ∨ target = place + 8 ∧ Opcode.isConditional opcode = true := by
  have known := Opcode.isSome_opposite? opcode
  unfold image at member
  cases found : Opcode.opposite? opcode with
  | some opposite =>
    rw [found] at member known
    cases member with
    | head => exact .inr ⟨List.mem_singleton.mp isTarget, known.symm⟩
    | tail _ last =>
      rw [List.mem_singleton.mp last] at isTarget
      exact .inl (List.mem_singleton.mp isTarget)
  | none =>
    rw [found] at member
    rw [List.mem_singleton.mp member] at isTarget
    exact .inl (List.mem_singleton.mp isTarget)

/-- The targets in a piece are old targets moved and the place behind a promoted conditional
branch. -/
theorem target_of_image {allowed : Bool} {length : Nat} {move : Nat → Nat} {part : Placed}
    (sound : part.Sound allowed length move) {instruction : Instruction}
    (member : instruction ∈ part.image move) {target : Nat}
    (isTarget : target ∈ instruction.targets) :
    ∃ old promoted, part.piece = .kept old promoted ∧
      ((∃ oldTarget ∈ old.targets, target = move oldTarget) ∨
        promoted = true ∧ Opcode.isConditional old.opcode = true ∧ target = part.offset + 8) := by
  obtain ⟨place, piece⟩ := part
  cases piece with
  | inserted code => exact absurd isTarget (not_isTarget_of_free sound member)
  | substitute _ code => exact absurd isTarget (not_isTarget_of_free sound member)
  | kept old promoted =>
    refine ⟨old, promoted, rfl, ?_⟩
    cases promoted with
    | false =>
      have inImage : instruction ∈ image move place old false := member
      rw [image_of_kept, List.mem_singleton] at inImage
      rw [inImage, Instruction.targets_relocated] at isTarget
      obtain ⟨oldTarget, oldMember, rfl⟩ := List.mem_map.mp isTarget
      exact .inl ⟨oldTarget, oldMember, rfl⟩
    | true =>
      obtain ⟨promotable, -⟩ := sound.2.2.1 rfl
      obtain ⟨offset, opcode, operands⟩ := old
      obtain ⟨⟨oldTarget, rfl⟩, -, -⟩ := promotable
      rcases target_of_image_promoted member isTarget with moved | ⟨past, conditional⟩
      · exact .inl ⟨oldTarget, List.mem_cons_self, moved⟩
      · exact .inr ⟨rfl, conditional, past⟩

/-! ### What applying edits comes to -/

/-- What laying decoded code out with edits comes to. -/
abbrev settleEdits (allowed : Bool) (length : Nat) (edits : List CodeEdit)
    (instructions : List Instruction) : Except Error Layout :=
  let row := pieces (EditTable.ofList edits) length instructions
  settle allowed length (shortBranches row) row

/-- Edits were applied to code: its instructions, each marked as promoted or not, gave a row of
pieces that was laid out and settled, and the new code is what those pieces are written as. -/
structure Laid (code : Bytes) (edits : List CodeEdit) (allowed : Bool) (relocation : Relocation)
    (marked : List (Instruction × Bool)) (layout : Layout) (parts : List Bytes) : Prop where
  decoded : decode code = .ok (marked.map Prod.fst)
  fit : Fit (marked.map Prod.fst) code.length edits
  proper : ProperMarks allowed edits marked
  laidOut : layOut code.length (markedPieces edits code.length marked) = .ok layout
  settled : ∀ part ∈ layout.placed, part.Settled layout.map
  encoded : List.Forall₂ (fun part bytes => Placed.encode layout.map part = .ok bytes)
    layout.placed parts
  map_eq : relocation.map = layout.map
  code_eq : relocation.code = parts.flatten
  promotions_eq : relocation.promotions = marked.countP Prod.snd

/-- The layout that comes out of the passes over decoded code, written down. -/
theorem exists_laid_of_settle {code : Bytes} {edits : List CodeEdit} {allowed : Bool}
    {instructions : List Instruction} {layout : Layout} {parts : List Bytes}
    (decoded : decode code = .ok instructions) (fit : Fit instructions code.length edits)
    (settled : settleEdits allowed code.length edits instructions = .ok layout)
    (encoded : layout.placed.mapM (Placed.encode layout.map) = .ok parts) :
    ∃ marked, Laid code edits allowed
      ⟨parts.flatten, layout.map, promotions (layout.placed.map Placed.piece)⟩ marked layout
      parts := by
  rw [settleEdits, pieces_eq_markedPieces] at settled
  obtain ⟨final, widened, laidOut, allSettled⟩ := settled_of_settle (Nat.le_refl _) settled
  obtain ⟨marked, same, proper, rfl⟩ :=
    exists_marks_of_widens (properMarks_unmarked allowed edits instructions) widened
  obtain rfl : instructions = marked.map Prod.fst := by
    rw [same, List.map_map]
    exact (List.map_id _).symm
  refine ⟨marked, decoded, fit, proper, laidOut, allSettled, Outcome.mapM_eq_ok_iff.mp encoded, rfl,
    rfl, ?_⟩
  show promotions (layout.placed.map Placed.piece) = _
  rw [(all_of_layOut laidOut).1, promotions_markedPieces _ proper]

/-- What there is to edits that were made: code that is short enough and decodes, edits that fit it,
and the layout that the passes come to, written down. -/
theorem exists_of_relocate {code : Bytes} {edits : List CodeEdit} {allowed : Bool}
    {relocation : Relocation} (relocated : relocate code edits allowed = .ok relocation) :
    code.length < UInt32.size ∧ ∃ instructions layout parts, decode code = .ok instructions ∧
      Fit instructions code.length edits ∧
      settleEdits allowed code.length edits instructions = .ok layout ∧
      layout.placed.mapM (Placed.encode layout.map) = .ok parts ∧
      relocation =
        ⟨parts.flatten, layout.map, promotions (layout.placed.map Placed.piece)⟩ := by
  simp only [relocate, Outcome.refuse_eq_ok_iff, Outcome.bind_eq_ok_iff,
    Outcome.pure_eq_ok_iff] at relocated
  obtain ⟨short, instructions, decoded, _, checked, layout, settled, parts, encoded, rfl⟩ :=
    relocated
  exact ⟨Nat.lt_of_not_le short, instructions, layout, parts, decoded,
    (checkAll_eq_ok_iff.mp checked).1, settled, encoded, rfl⟩

theorem exists_laid {code : Bytes} {edits : List CodeEdit} {allowed : Bool}
    {relocation : Relocation} (relocated : relocate code edits allowed = .ok relocation) :
    ∃ marked layout parts, Laid code edits allowed relocation marked layout parts := by
  obtain ⟨-, instructions, layout, parts, decoded, fit, settled, encoded, rfl⟩ :=
    exists_of_relocate relocated
  obtain ⟨marked, laid⟩ := exists_laid_of_settle decoded fit settled encoded
  exact ⟨marked, layout, parts, laid⟩

/-- Edits were applied to code, and no count ran over: the pieces lie one behind the other, and the
map sends old offsets to where their pieces lie. -/
structure Relocates (code : Bytes) (edits : List CodeEdit) (allowed : Bool)
    (relocation : Relocation) (marked : List (Instruction × Bool)) (parts : List Bytes) :
    Prop where
  decoded : decode code = .ok (marked.map Prod.fst)
  fit : Fit (marked.map Prod.fst) code.length edits
  proper : ProperMarks allowed edits marked
  bounded : endFrom 0 (markedPieces edits code.length marked) ≤ longestCode
  map_eq : relocation.map =
    .ofList (anchorPairs (placedFrom 0 (markedPieces edits code.length marked)) ++
      [(code.length, endFrom 0 (markedPieces edits code.length marked))])
  settled : ∀ part ∈ placedFrom 0 (markedPieces edits code.length marked),
    part.Settled relocation.map
  encoded : List.Forall₂ (fun part bytes => Placed.encode relocation.map part = .ok bytes)
    (placedFrom 0 (markedPieces edits code.length marked)) parts
  code_eq : relocation.code = parts.flatten
  promotions_eq : relocation.promotions = marked.countP Prod.snd

namespace Laid

variable {code : Bytes} {edits : List CodeEdit} {allowed : Bool} {relocation : Relocation}
  {marked : List (Instruction × Bool)} {layout : Layout} {parts : List Bytes}
  (laid : Laid code edits allowed relocation marked layout parts)

include laid

theorem tiles_old : Tiles code.length 0 code (marked.map Prod.fst) :=
  (decode_eq_ok_iff.mp laid.decoded).1

theorem placed_eq (addressable : Addressable code edits) :
    layout.placed = placedFrom 0 (markedPieces edits code.length marked) := by
  obtain ⟨-, rfl⟩ := (layOut_eq_ok_iff (addressable.endFrom_lt laid.tiles_old)).mp laid.laidOut
  rfl

theorem relocates (addressable : Addressable code edits) :
    Relocates code edits allowed relocation marked parts := by
  obtain ⟨bounded, rfl⟩ :=
    (layOut_eq_ok_iff (addressable.endFrom_lt laid.tiles_old)).mp laid.laidOut
  have same := laid.map_eq
  exact {
    decoded := laid.decoded
    fit := laid.fit
    proper := laid.proper
    bounded
    map_eq := same
    settled := same ▸ laid.settled
    encoded := same ▸ laid.encoded
    code_eq := laid.code_eq
    promotions_eq := laid.promotions_eq }

/-- Whatever the places come to, an old instruction goes to its piece. -/
theorem get?_eq_some_iff {old new : Nat} :
    relocation.map.get? old = some new ↔
      (∃ part ∈ layout.placed, part.piece.anchor? = some old ∧ part.offset = new) ∨
      old = code.length ∧ new = layout.length := by
  obtain ⟨all, map⟩ := all_of_layOut laid.laidOut
  rw [laid.map_eq, map]
  exact get?_anchors_eq_some_iff laid.tiles_old all

end Laid

theorem exists_relocates {code : Bytes} {edits : List CodeEdit} {allowed : Bool}
    {relocation : Relocation} (addressable : Addressable code edits)
    (relocated : relocate code edits allowed = .ok relocation) :
    ∃ marked parts, Relocates code edits allowed relocation marked parts := by
  obtain ⟨marked, layout, parts, laid⟩ := exists_laid relocated
  exact ⟨marked, parts, laid.relocates addressable⟩

/-- Whether nothing in edited code of `length` bytes leads to its end: every target of an
instruction that stays goes to something in it, and something comes behind every promoted
conditional branch. -/
structure LeadsInside (edits : List CodeEdit) (move : Nat → Nat) (length : Nat)
    (marked : List (Instruction × Bool)) : Prop where
  targets : ∀ mark ∈ marked, replacementAt? edits mark.1.offset = none →
    ∀ target ∈ mark.1.targets, move target < length
  behind : ∀ mark ∈ marked, mark.2 = true → Opcode.isConditional mark.1.opcode = true →
    move mark.1.offset + 8 < length

namespace Relocates

variable {code : Bytes} {edits : List CodeEdit} {allowed : Bool} {relocation : Relocation}
  {marked : List (Instruction × Bool)} {parts : List Bytes}
  (relocates : Relocates code edits allowed relocation marked parts)

include relocates

theorem tiles_old : Tiles code.length 0 code (marked.map Prod.fst) :=
  (decode_eq_ok_iff.mp relocates.decoded).1

/-! ### Where old offsets go -/

theorem increasing (noGap : LeaveNoGap edits) :
    Increasing (anchorPairs (placedFrom 0 (markedPieces edits code.length marked)) ++
      [(code.length, endFrom 0 (markedPieces edits code.length marked))]) :=
  increasing_markedPieces relocates.tiles_old noGap

theorem get?_eq_some_iff {old new : Nat} :
    relocation.map.get? old = some new ↔
      (∃ part ∈ placedFrom 0 (markedPieces edits code.length marked),
        part.piece.anchor? = some old ∧ part.offset = new) ∨
      old = code.length ∧ new = endFrom 0 (markedPieces edits code.length marked) := by
  rw [relocates.map_eq]
  exact get?_anchors_eq_some_iff relocates.tiles_old (map_piece_placedFrom 0 _)

theorem le_end_of_get? {old new : Nat} (found : relocation.map.get? old = some new) :
    new ≤ endFrom 0 (markedPieces edits code.length marked) := by
  obtain ⟨part, member, -, rfl⟩ | ⟨-, rfl⟩ := relocates.get?_eq_some_iff.mp found
  · exact Nat.le_trans (Nat.le_add_right _ _) (mem_placedFrom_bounds member).2
  · exact Nat.le_refl _

/-- The map keeps the order of offsets, and no offset goes behind the end. -/
theorem orderly (noGap : LeaveNoGap edits) : relocation.map.Orderly := by
  refine ⟨fun firstFound secondFound => ?_, fun found => ?_⟩
  · rw [relocates.map_eq] at firstFound secondFound
    exact get?_ofList_lt_iff (relocates.increasing noGap) firstFound secondFound
  · exact Nat.le_trans (relocates.le_end_of_get? found) relocates.bounded

theorem get?_length : relocation.map.get? code.length =
    some (endFrom 0 (markedPieces edits code.length marked)) :=
  relocates.get?_eq_some_iff.mpr (.inr ⟨rfl, rfl⟩)

theorem destination_length :
    relocation.map.destination code.length =
      endFrom 0 (markedPieces edits code.length marked) := by
  rw [OffsetMap.destination, relocates.get?_length]
  rfl

theorem destination_of_part {part : Placed} {old : Nat}
    (member : part ∈ placedFrom 0 (markedPieces edits code.length marked))
    (anchored : part.piece.anchor? = some old) :
    relocation.map.get? old = some part.offset ∧ relocation.map.destination old = part.offset := by
  have found := relocates.get?_eq_some_iff.mpr (.inl ⟨part, member, anchored, rfl⟩)
  refine ⟨found, ?_⟩
  rw [OffsetMap.destination, found]
  rfl

/-- What stands for a marked instruction is laid where the map sends it. -/
theorem exists_part {mark : Instruction × Bool} (member : mark ∈ marked) :
    ∃ place, ⟨place, anchoredPiece edits mark⟩ ∈
        placedFrom 0 (markedPieces edits code.length marked) ∧
      relocation.map.get? mark.1.offset = some place ∧
      relocation.map.destination mark.1.offset = place := by
  have pieceMember : anchoredPiece edits mark ∈ markedPieces edits code.length marked :=
    anchoredPiece_mem_markedPieces member
  obtain ⟨place, partMember⟩ := exists_place pieceMember 0
  exact ⟨place, partMember,
    relocates.destination_of_part partMember (anchor?_anchoredPiece edits mark)⟩

theorem get?_of_beginsAt {old : Nat} (begins : BeginsAt (marked.map Prod.fst) old) :
    relocation.map.get? old = some (relocation.map.destination old) := by
  obtain ⟨part, member, anchored⟩ := (exists_part_iff (map_piece_placedFrom 0 _)).mpr begins
  obtain ⟨found, same⟩ := relocates.destination_of_part member anchored
  rw [found, same]

theorem target_of_stays {mark : Instruction × Bool} (member : mark ∈ marked) {target : Nat}
    (isTarget : target ∈ mark.1.targets) : BeginsAt (marked.map Prod.fst) target :=
  (decode_eq_ok_iff.mp relocates.decoded).2 _ (List.mem_map_of_mem member) target isTarget

/-- The pieces hold what edited code is to consist of. -/
theorem flatMap_image : (placedFrom 0 (markedPieces edits code.length marked)).flatMap
      (Placed.image relocation.map.destination) =
    rebuilt edits code.length relocation.map.destination marked :=
  flatMap_image_markedPieces
    (fun _ member _ anchored => (relocates.destination_of_part member anchored).2)
    relocates.destination_length

/-- A piece that stays is that of a marked instruction, and lies where the map sends it. -/
theorem kept_of_part {part : Placed}
    (member : part ∈ placedFrom 0 (markedPieces edits code.length marked))
    {instruction : Instruction} {promoted : Bool} (kept : part.piece = .kept instruction promoted) :
    (instruction, promoted) ∈ marked ∧ replacementAt? edits instruction.offset = none ∧
      relocation.map.destination instruction.offset = part.offset := by
  have pieceMember := piece_mem_of_mem_placedFrom member
  have anchored : part.piece.anchor? = some instruction.offset := by rw [kept]; rfl
  have same := (relocates.destination_of_part member anchored).2
  rw [kept] at pieceMember
  obtain ⟨_, _, _, impossible⟩ | ⟨mark, markMember, whole⟩ := mem_markedPieces pieceMember
  · cases impossible
  · obtain ⟨rfl, stays⟩ := anchoredPiece_eq_kept whole.symm
    exact ⟨markMember, stays, same⟩

/-! ### Leading inside -/

theorem promotable {mark : Instruction × Bool} (member : mark ∈ marked)
    (promoted : mark.2 = true) : mark.1.Promotable allowed :=
  (relocates.proper mark member promoted).1

/-- Behind the piece of a promoted conditional branch is where the branch skips to. -/
theorem exists_split_of_promoted {mark : Instruction × Bool} (member : mark ∈ marked)
    (promoted : mark.2 = true) (conditional : Opcode.isConditional mark.1.opcode = true) :
    ∃ front back, markedPieces edits code.length marked =
        (front ++ [.kept mark.1 mark.2]) ++ back ∧
      endFrom 0 (front ++ [.kept mark.1 mark.2]) =
        relocation.map.destination mark.1.offset + 8 := by
  obtain ⟨place, partMember, -, here⟩ := relocates.exists_part member
  obtain ⟨front, back, split, lies⟩ := exists_split_of_mem_placedFrom partMember
  have kept := anchoredPiece_of_stays (relocates.proper mark member promoted).2
  have eight : (Piece.kept mark.1 mark.2).lengthAt (endFrom 0 front) = 8 := by
    rw [promoted]
    exact if_pos conditional
  refine ⟨front, back, ?_, ?_⟩
  · rw [split, kept, List.append_assoc, List.singleton_append]
  · rw [endFrom_append, endFrom, eight, endFrom, here, ← lies]

/-- Nothing leads behind the end. -/
theorem leadsInside_succ : LeadsInside edits relocation.map.destination
    (endFrom 0 (markedPieces edits code.length marked) + 1) marked where
  targets mark member _ target isTarget := Nat.lt_succ_of_le <| relocates.le_end_of_get? <|
    relocates.get?_of_beginsAt (relocates.target_of_stays member isTarget)
  behind mark member promoted conditional := by
    obtain ⟨front, back, split, ends⟩ :=
      relocates.exists_split_of_promoted member promoted conditional
    rw [← ends, split, endFrom_append 0 (front ++ _)]
    exact Nat.lt_succ_of_le (le_endFrom _ _)

/-- Every piece can be decoded where it lies, in code of as many bytes as everything leads inside
of. -/
theorem sound {length : Nat}
    (leads : LeadsInside edits relocation.map.destination length marked) :
    ∀ part ∈ placedFrom 0 (markedPieces edits code.length marked),
      part.Sound allowed length relocation.map.destination := by
  rintro ⟨place, piece⟩ member
  cases piece with
  | inserted code =>
    obtain ⟨offset, _, given, ⟨⟩⟩ | ⟨mark, -, same⟩ :=
      mem_markedPieces (piece_mem_of_mem_placedFrom member)
    · exact relocates.fit.decodes _ (mem_of_mem_insertionsAt given)
    · have anchored := anchor?_anchoredPiece edits mark
      rw [← same] at anchored
      cases anchored
  | substitute offset code =>
    obtain ⟨_, _, _, impossible⟩ | ⟨mark, -, same⟩ :=
      mem_markedPieces (piece_mem_of_mem_placedFrom member)
    · cases impossible
    · exact relocates.fit.decodes _ (mem_of_replacementAt? (replaced_of_anchoredPiece same.symm))
  | kept instruction promoted =>
    obtain ⟨markMember, stays, same⟩ := relocates.kept_of_part member rfl
    have old : instruction ∈ marked.map Prod.fst := List.mem_map_of_mem markMember
    have suits := relocates.tiles_old.suits instruction old
    refine ⟨suits, leads.targets _ markMember stays, fun isPromoted => ?_,
      fun unpromoted short target isTarget => ?_⟩
    · refine ⟨relocates.promotable markMember isPromoted, fun conditional => ?_⟩
      have room := leads.behind _ markMember isPromoted conditional
      rwa [same] at room
    · have settled := relocates.settled _ member
      rw [show promoted = false from unpromoted] at settled
      obtain ⟨moved, found, near⟩ := settled target (shortTarget?_of_mem suits short isTarget)
      rw [OffsetMap.destination, found]
      exact near

/-- The pieces stand in the new code as in a longer one, whether or not something leads to its
end. -/
theorem stands_succ :
    Stands (endFrom 0 (markedPieces edits code.length marked) + 1) 0 relocation.code
        (rebuilt edits code.length relocation.map.destination marked) ∧
      relocation.code.length = endFrom 0 (markedPieces edits code.length marked) := by
  have row := stands_row (Nat.succ_le_succ relocates.bounded) relocates.bounded (Nat.le_succ _)
    (relocates.sound relocates.leadsInside_succ) relocates.encoded
  rw [Nat.zero_add, ← relocates.code_eq, relocates.flatMap_image] at row
  exact row

theorem length_code :
    relocation.code.length = endFrom 0 (markedPieces edits code.length marked) :=
  relocates.stands_succ.2

/-- Wherever pieces begin, an instruction does, if there is anything left to come. -/
theorem beginsAt_split {front back : List Piece}
    (split : markedPieces edits code.length marked = front ++ back)
    (more : endFrom 0 front < relocation.code.length) :
    BeginsAt (rebuilt edits code.length relocation.map.destination marked)
      (endFrom 0 front) := by
  have room := relocates.bounded
  have sound := relocates.sound relocates.leadsInside_succ
  have encoded := relocates.encoded
  rw [relocates.length_code] at more
  rw [← relocates.flatMap_image]
  rw [split] at room sound encoded more ⊢
  exact beginsAt_of_split (Nat.succ_le_succ room) room (Nat.le_succ _) sound encoded more

/-- A place up to which pieces lie is the beginning of an instruction or the end. -/
theorem isBoundary_split {front back : List Piece}
    (split : markedPieces edits code.length marked = front ++ back) :
    IsBoundary (rebuilt edits code.length relocation.map.destination marked)
      relocation.code.length (endFrom 0 front) := by
  have within := le_endFrom (endFrom 0 front) back
  rw [← endFrom_append, ← split, ← relocates.length_code] at within
  rcases Nat.lt_or_eq_of_le within with more | same
  · exact .inl (relocates.beginsAt_split split more)
  · exact .inr same

/-- Everything goes to an instruction of the new code or to its end. -/
theorem isBoundary_of_get? {old new : Nat} (found : relocation.map.get? old = some new) :
    IsBoundary (rebuilt edits code.length relocation.map.destination marked)
      relocation.code.length new := by
  obtain ⟨part, member, -, rfl⟩ | ⟨-, rfl⟩ := relocates.get?_eq_some_iff.mp found
  · obtain ⟨front, back, split, place⟩ := exists_split_of_mem_placedFrom member
    rw [place]
    exact relocates.isBoundary_split split
  · exact .inr relocates.length_code.symm

/-- A target of the new code is an old one moved, or the place behind a promoted conditional
branch. -/
theorem target_of_rebuilt {instruction : Instruction}
    (member : instruction ∈ rebuilt edits code.length relocation.map.destination marked)
    {target : Nat} (isTarget : target ∈ instruction.targets) :
    ∃ mark ∈ marked, replacementAt? edits mark.1.offset = none ∧
      ((∃ oldTarget ∈ mark.1.targets, target = relocation.map.destination oldTarget) ∨
        mark.2 = true ∧ Opcode.isConditional mark.1.opcode = true ∧
          target = relocation.map.destination mark.1.offset + 8) := by
  rw [← relocates.flatMap_image] at member
  obtain ⟨part, partMember, inImage⟩ := List.mem_flatMap.mp member
  have sound := relocates.sound relocates.leadsInside_succ part partMember
  obtain ⟨old, promoted, kept, origin⟩ := target_of_image sound inImage isTarget
  obtain ⟨markMember, stays, same⟩ := relocates.kept_of_part partMember kept
  refine ⟨_, markMember, stays, ?_⟩
  rwa [same]

/-- Every target of the new code is the beginning of an instruction or the end. -/
theorem isBoundary_of_target {instruction : Instruction}
    (member : instruction ∈ rebuilt edits code.length relocation.map.destination marked)
    {target : Nat} (isTarget : target ∈ instruction.targets) :
    IsBoundary (rebuilt edits code.length relocation.map.destination marked)
      relocation.code.length target := by
  obtain ⟨mark, markMember, stays, ⟨oldTarget, wasTarget, rfl⟩ | ⟨promoted, conditional, rfl⟩⟩ :=
    relocates.target_of_rebuilt member isTarget
  · exact relocates.isBoundary_of_get?
      (relocates.get?_of_beginsAt (relocates.target_of_stays markMember wasTarget))
  · obtain ⟨front, back, split, ends⟩ :=
      relocates.exists_split_of_promoted markMember promoted conditional
    rw [← ends]
    exact relocates.isBoundary_split split

section inside

variable (leads : LeadsInside edits relocation.map.destination
  (endFrom 0 (markedPieces edits code.length marked)) marked)

include leads

theorem stands : Stands relocation.code.length 0 relocation.code
    (rebuilt edits code.length relocation.map.destination marked) := by
  have row := stands_row (Nat.le_succ_of_le relocates.bounded) relocates.bounded (Nat.le_refl _)
    (relocates.sound leads) relocates.encoded
  rw [← relocates.code_eq, relocates.flatMap_image, ← relocates.length_code] at row
  exact row.1

/-- Every target of the new code is the beginning of an instruction. -/
theorem closed : Closed (rebuilt edits code.length relocation.map.destination marked) := by
  intro instruction member target isTarget
  refine (relocates.isBoundary_of_target member isTarget).resolve_right (Nat.ne_of_lt ?_)
  rw [relocates.length_code]
  obtain ⟨mark, markMember, stays, ⟨oldTarget, wasTarget, rfl⟩ | ⟨promoted, conditional, rfl⟩⟩ :=
    relocates.target_of_rebuilt member isTarget
  · exact leads.targets mark markMember stays oldTarget wasTarget
  · exact leads.behind mark markMember promoted conditional

/-- The new code decodes to what it is to consist of. -/
theorem decode_rebuilt :
    decode relocation.code =
      .ok (rebuilt edits code.length relocation.map.destination marked) :=
  decode_eq_ok_iff.mpr ⟨(relocates.stands leads).tiles, relocates.closed leads⟩

end inside

end Relocates

theorem orderly_of_relocate {code : Bytes} {edits : List CodeEdit} {allowed : Bool}
    {relocation : Relocation} (addressable : Addressable code edits)
    (relocated : relocate code edits allowed = .ok relocation) (noGap : LeaveNoGap edits) :
    relocation.map.Orderly := by
  obtain ⟨marked, parts, relocates⟩ := exists_relocates addressable relocated
  exact relocates.orderly noGap

/-! ### The edited code -/

/-- Whether instructions begin at an offset. -/
def StartAt (offset : Nat) (instructions : List Instruction) : Prop :=
  ∃ first rest, instructions = first :: rest ∧ first.offset = offset

theorem startAt_instructionsAt {code : Bytes} {own : List Instruction}
    (decoded : decode code = .ok own) (filled : code ≠ []) (place : Nat) :
    StartAt place (instructionsAt place code) := by
  have tiles := (decode_eq_ok_iff.mp decoded).1
  rw [instructionsAt, decoded]
  generalize start : 0 = offset at tiles
  cases tiles with
  | nil => exact (filled rfl).elim
  | @cons first _ _ later =>
    refine ⟨first.shift place, later.map (Instruction.shift place), rfl, ?_⟩
    show place + first.offset = place
    omega

end JavaClass.Code
