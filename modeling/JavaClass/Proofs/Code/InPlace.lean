/-
Code of the same length put in place of instructions. Nothing moves then: the pieces are laid out
where the instructions stood, every branch reaches its target as it did before and none is promoted,
and the map sends every offset to itself. An instruction that stays is written down again as it was,
except that the padding of a switch comes out as zeros.
-/

import JavaClass.Proofs.Code.Relocation

namespace JavaClass.Code

open CodeEdit

/-! ### Pieces where the instructions stood -/

/-- Whether edits only put code in place of instructions, and as much of it as there was. -/
structure InPlace (instructions : List Instruction) (edits : List CodeEdit) : Prop where
  replaces : ∀ edit ∈ edits, edit.isReplacement = true
  lengths : ∀ instruction ∈ instructions, ∀ code,
    replacementAt? edits instruction.offset = some code → code.length = instruction.length

theorem InPlace.insertionsAt_eq_nil {instructions : List Instruction} {edits : List CodeEdit}
    (inPlace : InPlace instructions edits) (offset : Nat) : insertionsAt edits offset = [] := by
  refine List.eq_nil_iff_forall_not_mem.mpr fun code member => ?_
  have replaces := inPlace.replaces _ (mem_of_mem_insertionsAt member)
  cases replaces

theorem isSome_replacementAt?_of_mem {edits : List CodeEdit} {offset : Nat} {code : Bytes}
    (member : .replace offset code ∈ edits) : (replacementAt? edits offset).isSome = true := by
  rw [replacementAt?, List.findSome?_isSome_iff]
  refine ⟨_, member, ?_⟩
  simp only [if_true, Option.isSome_some]

/-- The piece that stands for an instruction that is not promoted. -/
abbrev unmarkedPiece (edits : List CodeEdit) (instruction : Instruction) : Piece :=
  anchoredPiece edits (instruction, false)

theorem markedPieces_of_inPlace {edits : List CodeEdit}
    (none : ∀ offset, insertionsAt edits offset = []) (length : Nat)
    (instructions : List Instruction) :
    markedPieces edits length (instructions.map fun instruction => (instruction, false)) =
      instructions.map (unmarkedPiece edits) := by
  induction instructions with
  | nil => rw [List.map_nil, markedPieces, none, List.map_nil, List.map_nil]
  | cons instruction rest inductionHypothesis =>
    rw [List.map_cons, markedPieces, none, List.map_nil, List.nil_append, inductionHypothesis,
      List.map_cons]

theorem lengthAt_unmarkedPiece {edits : List CodeEdit} {instruction : Instruction}
    (same : ∀ code, replacementAt? edits instruction.offset = some code →
      code.length = instruction.length) :
    (unmarkedPiece edits instruction).lengthAt instruction.offset = instruction.length := by
  unfold unmarkedPiece anchoredPiece
  cases replaced : replacementAt? edits instruction.offset with
  | some code => exact same code replaced
  | none => rfl

/-- Pieces as long as the instructions they stand for lie where these stood. -/
theorem placedFrom_of_tiles {length offset : Nat} {bytes : Bytes}
    {instructions : List Instruction} (tiles : Tiles length offset bytes instructions)
    {piece : Instruction → Piece}
    (same : ∀ instruction ∈ instructions,
      (piece instruction).lengthAt instruction.offset = instruction.length) :
    placedFrom offset (instructions.map piece) =
        instructions.map (fun instruction => ⟨instruction.offset, piece instruction⟩) ∧
      endFrom offset (instructions.map piece) = offset + bytes.length := by
  induction tiles with
  | nil => exact ⟨rfl, rfl⟩
  | @cons first bytes rest later readable _ inductionHypothesis =>
    obtain ⟨sameFirst, sameLater⟩ := List.forall_mem_cons.mp same
    obtain ⟨placed, ends⟩ := inductionHypothesis sameLater
    have consumed := length_of_readable readable
    rw [List.map_cons, placedFrom, endFrom, sameFirst, placed, ends, List.map_cons,
      List.length_cons]
    exact ⟨rfl, by omega⟩

/-! ### A map that moves nothing -/

/-- The offsets of instructions and the end of the code, each with itself. -/
def fixedPairs (instructions : List Instruction) (length : Nat) : List (Nat × Nat) :=
  instructions.map (fun instruction => (instruction.offset, instruction.offset)) ++
    [(length, length)]

theorem anchorPairs_of_inPlace (edits : List CodeEdit) (instructions : List Instruction) :
    anchorPairs (instructions.map fun instruction =>
        ⟨instruction.offset, unmarkedPiece edits instruction⟩) =
      instructions.map fun instruction => (instruction.offset, instruction.offset) := by
  rw [anchorPairs, List.filterMap_map, ← List.filterMap_eq_map]
  congr 1
  funext instruction
  show Option.map _ (anchoredPiece edits (instruction, false)).anchor? = _
  rw [anchor?_anchoredPiece]
  rfl

theorem increasing_fixedPairs {code : Bytes} {instructions : List Instruction}
    (tiles : Tiles code.length 0 code instructions) :
    Increasing (fixedPairs instructions code.length) := by
  refine List.pairwise_append.mpr ⟨?_, List.pairwise_singleton _ _, ?_⟩
  · rw [List.pairwise_map]
    exact tiles.increasing.imp fun ordered => ⟨ordered, ordered⟩
  · rintro _ member _ lastMember
    obtain ⟨instruction, inCode, rfl⟩ := List.mem_map.mp member
    rw [List.mem_singleton.mp lastMember]
    have within := (tiles.bounds instruction inCode).2
    have positive := length_pos instruction
    have before : instruction.offset < code.length := by omega
    exact ⟨before, before⟩

/-- Whether a map sends the instructions and the end of the code to themselves, and nothing else
anywhere. -/
def Fixes (map : OffsetMap) (instructions : List Instruction) (length : Nat) : Prop :=
  ∀ old new, map.get? old = some new ↔ new = old ∧ IsBoundary instructions length old

theorem fixes_fixedPairs {code : Bytes} {instructions : List Instruction}
    (tiles : Tiles code.length 0 code instructions) :
    Fixes (.ofList (fixedPairs instructions code.length)) instructions code.length := by
  intro old new
  rw [get?_ofList_eq_some_iff (increasing_fixedPairs tiles).keyed, fixedPairs, List.mem_append,
    List.mem_map, List.mem_singleton, Prod.mk.injEq]
  constructor
  · rintro (⟨instruction, member, same⟩ | ⟨rfl, rfl⟩)
    · obtain ⟨rfl, rfl⟩ := Prod.mk.inj same
      exact ⟨rfl, .inl ⟨instruction, member, rfl⟩⟩
    · exact ⟨rfl, .inr rfl⟩
  · rintro ⟨rfl, ⟨instruction, member, rfl⟩ | rfl⟩
    · exact .inl ⟨instruction, member, rfl⟩
    · exact .inr ⟨rfl, rfl⟩

/-! ### Nothing is promoted -/

theorem Tiles.reaches {length offset : Nat} {bytes : Bytes} {instructions : List Instruction}
    (tiles : Tiles length offset bytes instructions) :
    ∀ instruction ∈ instructions, instruction.Reaches length := by
  induction tiles with
  | nil => exact List.forall_mem_nil _
  | cons readable _ inductionHypothesis =>
    exact List.forall_mem_cons.mpr ⟨readable.1.2, inductionHypothesis⟩

theorem isShort_of_inReach {length offset target : Nat} (reach : InReach length offset 15 target) :
    isShort ((target : Int) - (offset : Int)) = true := by
  obtain ⟨-, low, high⟩ := reach
  rw [isShort, Bool.and_eq_true, decide_eq_true_iff, decide_eq_true_iff]
  exact ⟨low, high⟩

/-- An instruction is itself if its targets are replaced by themselves. -/
theorem retarget_eq_self {replace : Nat → Except Error Nat} {instruction : Instruction}
    (same : ∀ target ∈ instruction.targets, replace target = .ok target) :
    instruction.retarget replace = .ok instruction := by
  have retargeted : instruction.retarget replace =
      .ok (instruction.relocated id instruction.offset) := retarget_eq_ok same
  refine retargeted.trans (congrArg Except.ok ?_)
  obtain ⟨offset, opcode, operands⟩ := instruction
  cases operands with
  | plain | branch => rfl
  | tableSwitch default low high targets =>
    simp only [Instruction.relocated, Operands.mapTargets, id, List.map_id]
  | lookupSwitch default pairs =>
    simp only [Instruction.relocated, Operands.mapTargets, id, List.map_id']

/-- The bytes that stand for an instruction after edits in place. -/
def patched (edits : List CodeEdit) (instruction : Instruction) : Bytes :=
  (replacementAt? edits instruction.offset).getD instruction.encode

/-- What stands for the instructions after edits in place, each where its instruction stood. -/
def standing (edits : List CodeEdit) (instructions : List Instruction) : List Placed :=
  instructions.map fun instruction => ⟨instruction.offset, unmarkedPiece edits instruction⟩

section fixed

variable {map : OffsetMap} {instructions : List Instruction} {length : Nat}
  (fixes : Fixes map instructions length)

include fixes

theorem Fixes.move {use : OffsetUse} {offset : Nat}
    (boundary : IsBoundary instructions length offset) : map.move use offset = .ok offset :=
  OffsetMap.move_eq_ok_iff.mpr ((fixes offset offset).mpr ⟨rfl, boundary⟩)

/-- A piece that lies where its instruction stood reaches what it reached. -/
theorem Fixes.relax (closed : Closed instructions) {instruction : Instruction}
    (member : instruction ∈ instructions) (reaches : instruction.Reaches length)
    (edits : List CodeEdit) (allowed : Bool) :
    Placed.relax allowed map ⟨instruction.offset, unmarkedPiece edits instruction⟩ =
      .ok (unmarkedPiece edits instruction) := by
  unfold Placed.relax
  simp only
  cases short : (unmarkedPiece edits instruction).shortTarget? with
  | none => rfl
  | some target =>
    obtain ⟨kept, same, branch, isShortBranch⟩ := Piece.eq_kept_of_shortTarget? short
    obtain ⟨marks, -⟩ := anchoredPiece_eq_kept same
    obtain rfl : instruction = kept := congrArg Prod.fst marks
    have isTarget := mem_targets_of_branch branch
    have near := isShort_of_inReach ((reaches_iff_of_short isShortBranch).mp reaches _ isTarget)
    have moved : map.move .target target = .ok target :=
      fixes.move (.inl (closed instruction member target isTarget))
    simp only [moved]
    show (if isShort _ = true then pure _ else _) = _
    rw [if_pos near]
    rfl

/-- An instruction whose targets stay is written down as it was. -/
theorem Fixes.encode (closed : Closed instructions) {instruction : Instruction}
    (member : instruction ∈ instructions) (edits : List CodeEdit) :
    Placed.encode map ⟨instruction.offset, unmarkedPiece edits instruction⟩ =
      .ok (patched edits instruction) := by
  unfold unmarkedPiece anchoredPiece patched
  cases replacementAt? edits instruction.offset with
  | some code => rfl
  | none =>
    have kept : instruction.retarget (map.move .target) = .ok instruction :=
      retarget_eq_self fun target isTarget =>
        fixes.move (.inl (closed instruction member target isTarget))
    simp only [Placed.encode, kept]
    rfl

theorem Fixes.mapM_relax (closed : Closed instructions)
    (reach : ∀ instruction ∈ instructions, instruction.Reaches length) (edits : List CodeEdit)
    (allowed : Bool) :
    (standing edits instructions).mapM (Placed.relax allowed map) =
      .ok (instructions.map (unmarkedPiece edits)) := by
  rw [standing, Outcome.mapM_eq_ok_iff, List.forall₂_map_left_iff, List.forall₂_map_right_iff,
    List.forall₂_same]
  exact fun instruction member =>
    fixes.relax closed member (reach instruction member) edits allowed

theorem Fixes.mapM_encode (closed : Closed instructions) (edits : List CodeEdit) :
    (standing edits instructions).mapM (Placed.encode map) =
      .ok (instructions.map (patched edits)) := by
  rw [standing, Outcome.mapM_eq_ok_iff, List.forall₂_map_left_iff, List.forall₂_map_right_iff,
    List.forall₂_same]
  exact fun instruction member => fixes.encode closed member edits

end fixed

/-- Pieces as long as the instructions they stand for are laid out where these stood, unless they
are too long together. -/
theorem layOut_eq_ok_iff_of_inPlace {code : Bytes} {edits : List CodeEdit}
    {instructions : List Instruction} (short : code.length < UInt32.size)
    (tiles : Tiles code.length 0 code instructions) (inPlace : InPlace instructions edits)
    {layout : Layout} :
    layOut code.length (instructions.map (unmarkedPiece edits)) = .ok layout ↔
      code.length ≤ longestCode ∧ layout = ⟨standing edits instructions, code.length,
        .ofList (fixedPairs instructions code.length)⟩ := by
  obtain ⟨placed, ends⟩ := placedFrom_of_tiles tiles
    fun instruction member => lengthAt_unmarkedPiece (inPlace.lengths instruction member)
  rw [Nat.zero_add] at ends
  have map : anchors code.length (standing edits instructions) code.length =
      .ofList (fixedPairs instructions code.length) :=
    congrArg (fun pairs => OffsetMap.ofList (pairs ++ [(code.length, code.length)]))
      (anchorPairs_of_inPlace edits instructions)
  rw [layOut_eq_ok_iff (by rwa [ends]), placed, ends, ← map]
  rfl

theorem promotions_unmarkedPieces (edits : List CodeEdit) (instructions : List Instruction) :
    promotions (instructions.map (unmarkedPiece edits)) = 0 := by
  rw [promotions, List.countP_map, List.countP_eq_zero]
  intro instruction _ promoted
  have unpromoted : (unmarkedPiece edits instruction).isPromoted = false := by
    unfold unmarkedPiece anchoredPiece
    cases replacementAt? edits instruction.offset with
    | some code => rfl
    | none => rfl
  rw [Function.comp_apply, unpromoted] at promoted
  exact Bool.false_ne_true promoted

/-- If the first round promotes nothing, the first layout is the last. -/
theorem settle_eq_layOut {allowed : Bool} {oldLength : Nat} {pieces : List Piece}
    (idle : ∀ layout, layOut oldLength pieces = .ok layout →
      layout.placed.mapM (Placed.relax allowed layout.map) = .ok pieces) (rounds : Nat) :
    settle allowed oldLength rounds pieces = layOut oldLength pieces := by
  cases rounds with
  | zero => rfl
  | succ rounds =>
    rw [settle]
    cases laidOut : layOut oldLength pieces with
    | error error => rfl
    | ok layout =>
      simp only [idle layout laidOut, bind, Except.bind, if_true]
      rfl

/-- Code edited in place is laid out once. -/
theorem settle_of_inPlace {code : Bytes} {edits : List CodeEdit} {instructions : List Instruction}
    (short : code.length < UInt32.size) (decoded : decode code = .ok instructions)
    (inPlace : InPlace instructions edits) (allowed : Bool) :
    settleEdits allowed code.length edits instructions =
      layOut code.length (instructions.map (unmarkedPiece edits)) := by
  obtain ⟨tiles, closed⟩ := decode_eq_ok_iff.mp decoded
  rw [settleEdits, pieces_eq_markedPieces, markedPieces_of_inPlace inPlace.insertionsAt_eq_nil]
  refine settle_eq_layOut (fun layout laidOut => ?_) _
  obtain ⟨-, rfl⟩ := (layOut_eq_ok_iff_of_inPlace short tiles inPlace).mp laidOut
  exact (fixes_fixedPairs tiles).mapM_relax closed tiles.reaches edits allowed

/-! ### Code edited in place -/

/-- What edits in place come to: what stands for the instructions one behind the other, no longer
than a method may be, no branch promoted, and every offset where it was. -/
structure Patched (edits : List CodeEdit) (length : Nat) (instructions : List Instruction)
    (relocation : Relocation) : Prop where
  bounded : length ≤ longestCode
  code_eq : relocation.code = (instructions.map (patched edits)).flatten
  promotions_eq : relocation.promotions = 0
  fixes : Fixes relocation.map instructions length

theorem patched_of_relocate {code : Bytes} {edits : List CodeEdit} {allowed : Bool}
    {relocation : Relocation} {instructions : List Instruction}
    (relocated : relocate code edits allowed = .ok relocation)
    (decoded : decode code = .ok instructions) (inPlace : InPlace instructions edits) :
    Patched edits code.length instructions relocation := by
  obtain ⟨short, _, layout, parts, same, -, settled, encoded, rfl⟩ := exists_of_relocate relocated
  obtain rfl := Except.ok.inj (decoded.symm.trans same)
  obtain ⟨tiles, closed⟩ := decode_eq_ok_iff.mp decoded
  have fixes := fixes_fixedPairs tiles
  rw [settle_of_inPlace short decoded inPlace] at settled
  obtain ⟨bounded, rfl⟩ := (layOut_eq_ok_iff_of_inPlace short tiles inPlace).mp settled
  refine ⟨bounded, ?_, ?_, fixes⟩
  · rw [fixes.mapM_encode closed edits] at encoded
    exact congrArg List.flatten (Except.ok.inj encoded).symm
  · show promotions ((standing edits instructions).map Placed.piece) = 0
    rw [standing, List.map_map]
    exact promotions_unmarkedPieces edits instructions

/-! ### What the new code decodes to -/

/-- The instructions that stand for an instruction after edits in place. -/
def successors (edits : List CodeEdit) (instruction : Instruction) : List Instruction :=
  match replacementAt? edits instruction.offset with
  | some code => instructionsAt instruction.offset code
  | none => [instruction]

section edited

variable {edits : List CodeEdit}
  (decodes : ∀ edit ∈ edits, ∃ own, decode edit.code = .ok own ∧
    ∀ instruction ∈ own, instruction.isBranchFree = true)

theorem length_patched {instruction : Instruction}
    (same : ∀ code, replacementAt? edits instruction.offset = some code →
      code.length = instruction.length) :
    (patched edits instruction).length = instruction.length := by
  unfold patched
  cases replaced : replacementAt? edits instruction.offset with
  | some code => exact same code replaced
  | none => exact Stands.length_encode instruction

include decodes

/-- What stands for an instruction stands where the instruction stood. -/
theorem stands_patched {length : Nat} {instruction : Instruction}
    (suits : instruction.operands.Suits instruction.opcode)
    (reaches : instruction.Reaches length) :
    Stands length instruction.offset (patched edits instruction)
      (successors edits instruction) := by
  unfold patched successors
  cases replaced : replacementAt? edits instruction.offset with
  | some code =>
    obtain ⟨own, decoded, free⟩ := decodes _ (mem_of_replacementAt? replaced)
    exact stands_instructionsAt decoded free length instruction.offset
  | none => exact Stands.encode instruction suits reaches

theorem stands_row_patched {length offset : Nat} {bytes : Bytes}
    {instructions : List Instruction} (tiles : Tiles length offset bytes instructions)
    (inPlace : InPlace instructions edits) :
    Stands length offset (instructions.map (patched edits)).flatten
        (instructions.flatMap (successors edits)) ∧
      (instructions.map (patched edits)).flatten.length = bytes.length := by
  induction tiles with
  | nil => exact ⟨.nil _ _, rfl⟩
  | @cons first bytes rest later readable _ inductionHypothesis =>
    obtain ⟨sameFirst, sameLater⟩ := List.forall_mem_cons.mp inPlace.lengths
    obtain ⟨stands, ends⟩ := inductionHypothesis ⟨inPlace.replaces, sameLater⟩
    have consumed := length_of_readable readable
    have takes := length_patched sameFirst
    rw [List.map_cons, List.flatten_cons, List.flatMap_cons, List.length_append, ends, takes,
      List.length_cons]
    refine ⟨(stands_patched decodes readable.1.1 readable.1.2).append ?_, by omega⟩
    rw [takes]
    exact stands

/-- Where an instruction began, one begins. -/
theorem beginsAt_successors {instructions : List Instruction}
    (inPlace : InPlace instructions edits) {offset : Nat} (begins : BeginsAt instructions offset) :
    BeginsAt (instructions.flatMap (successors edits)) offset := by
  obtain ⟨instruction, member, rfl⟩ := begins
  obtain ⟨first, firstMember, here⟩ : BeginsAt (successors edits instruction)
      instruction.offset := by
    unfold successors
    cases replaced : replacementAt? edits instruction.offset with
    | some code =>
      obtain ⟨own, decoded, -⟩ := decodes _ (mem_of_replacementAt? replaced)
      have filled : code ≠ [] := by
        have positive := length_pos instruction
        rw [← inPlace.lengths instruction member code replaced] at positive
        exact List.ne_nil_of_length_pos positive
      obtain ⟨first, rest, starts, here⟩ := startAt_instructionsAt decoded filled
        instruction.offset
      have starts : instructionsAt instruction.offset code = first :: rest := starts
      show BeginsAt (instructionsAt instruction.offset code) instruction.offset
      rw [starts]
      exact ⟨first, List.mem_cons_self, here⟩
    | none => exact ⟨instruction, List.mem_singleton_self _, rfl⟩
  exact ⟨first, List.mem_flatMap.mpr ⟨instruction, member, firstMember⟩, here⟩

theorem closed_successors {instructions : List Instruction}
    (inPlace : InPlace instructions edits) (closed : Closed instructions) :
    Closed (instructions.flatMap (successors edits)) := by
  intro instruction member target isTarget
  obtain ⟨old, oldMember, inSuccessors⟩ := List.mem_flatMap.mp member
  unfold successors at inSuccessors
  cases replaced : replacementAt? edits old.offset with
  | some code =>
    rw [replaced] at inSuccessors
    have free := decodes _ (mem_of_replacementAt? replaced)
    exact absurd isTarget (not_isTarget_of_free free inSuccessors)
  | none =>
    rw [replaced] at inSuccessors
    obtain rfl := List.mem_singleton.mp inSuccessors
    exact beginsAt_successors decodes inPlace (closed _ oldMember target isTarget)

end edited

/-! ### What happens to the bytes -/

/-- Whether a position is in the padding of an instruction, which must be a switch. -/
def InPadding (instruction : Instruction) (position : Nat) : Prop :=
  (instruction.opcode = Opcode.tableswitch ∨ instruction.opcode = Opcode.lookupswitch) ∧
    instruction.offset < position ∧
    position ≤ instruction.offset + switchPadding instruction.offset

/-- Whether a position is one of those an instruction takes. -/
def Covers (instruction : Instruction) (position : Nat) : Prop :=
  instruction.offset ≤ position ∧ position < instruction.offset + instruction.length

theorem inPadding_of_lt {instruction : Instruction}
    (switch : instruction.opcode = Opcode.tableswitch ∨ instruction.opcode = Opcode.lookupswitch)
    {index : Nat} (inside : index < switchPadding instruction.offset) :
    InPadding instruction (instruction.offset + (index + 1)) :=
  ⟨switch, by omega, by omega⟩

/-- Zeros in front of a tail, and as many other bytes. -/
theorem getElem?_padded {count : Nat} {padding : Bytes} (padded : padding.length = count)
    (tail : Bytes) (index : Nat) :
    (List.replicate count 0 ++ tail)[index]? = (padding ++ tail)[index]? ∨
      index < count ∧ (List.replicate count 0 ++ tail)[index]? = some 0 := by
  by_cases inside : index < count
  · refine .inr ⟨inside, ?_⟩
    rw [List.getElem?_append_left (by rwa [List.length_replicate]), List.getElem?_replicate,
      if_pos inside]
  · have behind := Nat.le_of_not_lt inside
    refine .inl ?_
    rw [List.getElem?_append_right (by rwa [List.length_replicate]),
      List.getElem?_append_right (by rwa [padded]), List.length_replicate, padded]

theorem getElem?_operandBytes {instruction : Instruction}
    (suits : instruction.operands.Suits instruction.opcode) {padding : Bytes}
    (padded : padding.length = switchPadding instruction.offset) (index : Nat) :
    (instruction.operandBytes (List.replicate (switchPadding instruction.offset) 0))[index]? =
        (instruction.operandBytes padding)[index]? ∨
      InPadding instruction (instruction.offset + (index + 1)) ∧
        (instruction.operandBytes
          (List.replicate (switchPadding instruction.offset) 0))[index]? = some 0 := by
  obtain ⟨offset, opcode, operands⟩ := instruction
  cases operands with
  | plain | branch => exact .inl rfl
  | tableSwitch default low high targets =>
    exact (getElem?_padded padded _ index).imp_right fun ⟨inside, zero⟩ =>
      ⟨inPadding_of_lt (.inl suits.1) inside, zero⟩
  | lookupSwitch default pairs =>
    exact (getElem?_padded padded _ index).imp_right fun ⟨inside, zero⟩ =>
      ⟨inPadding_of_lt (.inr suits.1) inside, zero⟩

/-- A byte after edits in place: it is what it was, or a zero that pads a switch, or one of those of
an instruction that something was put in place of. -/
def ByteKept (edits : List CodeEdit) (instructions : List Instruction) (position : Nat)
    (before after : Option UInt8) : Prop :=
  after = before ∨
    (∃ instruction ∈ instructions, InPadding instruction position ∧ after = some 0) ∨
    ∃ instruction ∈ instructions, Covers instruction position ∧
      (replacementAt? edits instruction.offset).isSome = true

theorem ByteKept.cons {edits : List CodeEdit} {instructions : List Instruction} {position : Nat}
    {before after : Option UInt8} (kept : ByteKept edits instructions position before after)
    (first : Instruction) : ByteKept edits (first :: instructions) position before after := by
  obtain same | ⟨instruction, member, padding⟩ | ⟨instruction, member, covered⟩ := kept
  · exact .inl same
  · exact .inr (.inl ⟨instruction, List.mem_cons_of_mem _ member, padding⟩)
  · exact .inr (.inr ⟨instruction, List.mem_cons_of_mem _ member, covered⟩)

/-- The bytes that stand for one instruction. -/
theorem byteKept_patched {length : Nat} {edits : List CodeEdit} {instruction : Instruction}
    {bytes rest : Bytes} (readable : Readable length instruction bytes rest)
    {index : Nat} (inside : index < instruction.length) (others : List Instruction) :
    ByteKept edits (instruction :: others) (instruction.offset + index)
      (instruction.opcode :: bytes)[index]? (patched edits instruction)[index]? := by
  obtain ⟨⟨suits, -⟩, padding, padded, rfl⟩ := readable
  unfold patched
  cases replaced : replacementAt? edits instruction.offset with
  | some code =>
    refine .inr (.inr ⟨instruction, List.mem_cons_self, ⟨Nat.le_add_right _ _, ?_⟩, ?_⟩)
    · omega
    · rw [replaced]
      rfl
  | none =>
    rw [Option.getD_none, Instruction.encode_eq]
    cases index with
    | zero => exact .inl rfl
    | succ index =>
      have consumed := Instruction.length_operandBytes padded
      rw [List.getElem?_cons_succ, List.getElem?_cons_succ,
        List.getElem?_append_left (by omega)]
      obtain same | ⟨pads, zero⟩ := getElem?_operandBytes suits padded index
      · exact .inl same
      · exact .inr (.inl ⟨instruction, List.mem_cons_self, pads, zero⟩)

theorem byteKept_row {length offset : Nat} {bytes : Bytes} {instructions : List Instruction}
    (tiles : Tiles length offset bytes instructions) {edits : List CodeEdit}
    (inPlace : InPlace instructions edits) (index : Nat) :
    ByteKept edits instructions (offset + index) bytes[index]?
      (instructions.map (patched edits)).flatten[index]? := by
  induction tiles generalizing index with
  | nil => exact .inl rfl
  | @cons first bytes rest later readable _ inductionHypothesis =>
    obtain ⟨sameFirst, sameLater⟩ := List.forall_mem_cons.mp inPlace.lengths
    have takes := length_patched sameFirst
    rw [List.map_cons, List.flatten_cons]
    by_cases inside : index < first.length
    · rw [List.getElem?_append_left (by rwa [takes])]
      exact byteKept_patched readable inside later
    · have behind := Nat.le_of_not_lt inside
      have kept := inductionHypothesis ⟨inPlace.replaces, sameLater⟩ (index - first.length)
      have place : first.offset + first.length + (index - first.length) = first.offset + index := by
        omega
      obtain ⟨-, padding, padded, rfl⟩ := readable
      have consumed := Instruction.length_operandBytes padded
      have split : first.opcode :: (first.operandBytes padding ++ rest) =
          (first.opcode :: first.operandBytes padding) ++ rest := rfl
      rw [List.getElem?_append_right (by rwa [takes]), takes, split,
        List.getElem?_append_right (by rw [List.length_cons]; omega), List.length_cons, consumed,
        ← place]
      exact kept.cons first

/-! ### All of it together -/

/-- Code that was edited in place: as long as before, decoding to what stands for its instructions,
no branch promoted, every offset where it was, and every byte kept that is not part of what was put
in place of an instruction or of the padding of a switch. -/
structure Repaired (edits : List CodeEdit) (code : Bytes) (instructions : List Instruction)
    (relocation : Relocation) : Prop where
  bounded : code.length ≤ longestCode
  length_eq : relocation.code.length = code.length
  new : decode relocation.code = .ok (instructions.flatMap (successors edits))
  promotions_eq : relocation.promotions = 0
  fixes : Fixes relocation.map instructions code.length
  bytes : ∀ position, ByteKept edits instructions position code[position]?
    relocation.code[position]?

theorem repaired_of_relocate {code : Bytes} {edits : List CodeEdit} {allowed : Bool}
    {relocation : Relocation} {instructions : List Instruction}
    (relocated : relocate code edits allowed = .ok relocation)
    (decoded : decode code = .ok instructions) (inPlace : InPlace instructions edits) :
    Repaired edits code instructions relocation := by
  obtain ⟨-, _, _, _, same, fit, -⟩ := exists_of_relocate relocated
  obtain rfl := Except.ok.inj (decoded.symm.trans same)
  have decodes := fit.decodes
  obtain ⟨tiles, closed⟩ := decode_eq_ok_iff.mp decoded
  obtain ⟨bounded, code_eq, promotions_eq, fixes⟩ := patched_of_relocate relocated decoded inPlace
  obtain ⟨stands, length_eq⟩ := stands_row_patched decodes tiles inPlace
  rw [← code_eq] at stands length_eq
  refine ⟨bounded, length_eq, ?_, promotions_eq, fixes, fun position => ?_⟩
  · rw [decode_eq_ok_iff, length_eq]
    exact ⟨stands.tiles, closed_successors decodes inPlace closed⟩
  · have kept := byteKept_row tiles inPlace position
    rw [Nat.zero_add, ← code_eq] at kept
    exact kept

/-- A map that moves nothing keeps the order of offsets. -/
theorem Repaired.orderly {edits : List CodeEdit} {code : Bytes} {instructions : List Instruction}
    {relocation : Relocation} (repaired : Repaired edits code instructions relocation)
    (decoded : decode code = .ok instructions) : relocation.map.Orderly where
  lt_iff firstFound secondFound := by
    rw [((repaired.fixes _ _).mp firstFound).1, ((repaired.fixes _ _).mp secondFound).1]
  bounded found := by
    obtain ⟨rfl, ⟨instruction, member, rfl⟩ | rfl⟩ := (repaired.fixes _ _).mp found
    · have within := ((decode_eq_ok_iff.mp decoded).1.bounds instruction member).2
      have bounded := repaired.bounded
      omega
    · exact repaired.bounded

end JavaClass.Code
