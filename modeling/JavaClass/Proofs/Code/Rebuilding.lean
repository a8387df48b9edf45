/-
What edited code is to consist of. Every old instruction is marked as promoted or not; the new
instructions are then known, up to where they go: for each old one what is inserted in front of it,
then what replaces it or its image, and at the end what is inserted behind them all. A promoted jump
is the wide jump, a promoted conditional branch its opposite over a wide jump.

The pieces that the code is laid out from are the same row, and they stay so when they are promoted:
only the marks change. Since an instruction or what replaces it is never empty, there is always
something behind an instruction that is not the last, and the map sends each old offset to where its
image begins.
-/

import JavaClass.Proofs.Code.Edit
import JavaClass.Proofs.Code.Promotion

namespace JavaClass

/-- Operands with every target moved. Everything else stays. -/
def Operands.mapTargets (move : Nat → Nat) : Operands → Operands
  | .plain bytes => .plain bytes
  | .branch target => .branch (move target)
  | .tableSwitch default low high targets =>
    .tableSwitch (move default) low high (targets.map move)
  | .lookupSwitch default pairs =>
    .lookupSwitch (move default) (pairs.map fun pair => (pair.1, move pair.2))

/-- An instruction at a new place, with every target moved. -/
def Instruction.relocated (move : Nat → Nat) (place : Nat) (instruction : Instruction) :
    Instruction :=
  ⟨place, instruction.opcode, instruction.operands.mapTargets move⟩

namespace Code

open CodeEdit

/-! ### The new instructions -/

/-- What becomes of an instruction that stays, at its new place. -/
def image (move : Nat → Nat) (place : Nat) (instruction : Instruction) (promoted : Bool) :
    List Instruction :=
  match promoted, instruction.operands, Opcode.opposite? instruction.opcode with
  | true, .branch target, some opposite =>
    [⟨place, opposite, .branch (place + 8)⟩, ⟨place + 3, Opcode.gotoW, .branch (move target)⟩]
  | true, .branch target, none =>
    [⟨place, if instruction.opcode = Opcode.jsr then Opcode.jsrW else Opcode.gotoW,
      .branch (move target)⟩]
  | _, _, _ => [instruction.relocated move place]

/-- The instructions of new code, as they stand when it is put at `place`. -/
def instructionsAt (place : Nat) (code : Bytes) : List Instruction :=
  match decode code with
  | .ok instructions => instructions.map (Instruction.shift place)
  | .error _ => []

/-- The instructions of several stretches of new code, one behind the other from `place` on. -/
def instructionsFrom (place : Nat) : List Bytes → List Instruction
  | [] => []
  | code :: rest => instructionsAt place code ++ instructionsFrom (place + code.length) rest

/-- The instructions that are inserted in front of what goes to `place`. -/
def insertedBefore (edits : List CodeEdit) (place offset : Nat) : List Instruction :=
  instructionsFrom (place - (insertionsAt edits offset).flatten.length) (insertionsAt edits offset)

/-- What stands at its new place for an old instruction. -/
def substance (edits : List CodeEdit) (move : Nat → Nat) (place : Nat) (instruction : Instruction)
    (promoted : Bool) : List Instruction :=
  match replacementAt? edits instruction.offset with
  | some code => instructionsAt place code
  | none => image move place instruction promoted

/-- The instructions of edited code, given where offsets go and which branches are promoted. -/
def rebuilt (edits : List CodeEdit) (length : Nat) (move : Nat → Nat)
    (marked : List (Instruction × Bool)) : List Instruction :=
  marked.flatMap (fun mark =>
    insertedBefore edits (move mark.1.offset) mark.1.offset ++
      substance edits move (move mark.1.offset) mark.1 mark.2) ++
    insertedBefore edits (move length) length

/-! ### Pieces of marked instructions -/

/-- The piece that stands for an instruction. -/
def anchoredPiece (edits : List CodeEdit) (mark : Instruction × Bool) : Piece :=
  match replacementAt? edits mark.1.offset with
  | some code => .substitute mark.1.offset code
  | none => .kept mark.1 mark.2

theorem anchoredPiece_of_stays {edits : List CodeEdit} {mark : Instruction × Bool}
    (stays : replacementAt? edits mark.1.offset = none) :
    anchoredPiece edits mark = .kept mark.1 mark.2 := by
  rw [anchoredPiece, stays]

/-- The pieces of code whose instructions are marked as promoted or not. -/
def markedPieces (edits : List CodeEdit) (length : Nat) : List (Instruction × Bool) → List Piece
  | [] => (insertionsAt edits length).map .inserted
  | mark :: rest =>
    (insertionsAt edits mark.1.offset).map .inserted ++
      anchoredPiece edits mark :: markedPieces edits length rest

theorem pieces_eq_markedPieces (edits : List CodeEdit) (length : Nat)
    (instructions : List Instruction) :
    pieces (EditTable.ofList edits) length instructions =
      markedPieces edits length (instructions.map fun instruction => (instruction, false)) := by
  unfold pieces
  simp only [EditTable.insertions_ofList, EditTable.replacement?_ofList]
  induction instructions with
  | nil => rfl
  | cons instruction rest inductionHypothesis =>
    rw [List.flatMap_cons, List.append_assoc, inductionHypothesis, List.map_cons, markedPieces,
      List.append_assoc, List.singleton_append]
    rfl

/-- The marks that come about: only a branch that may be promoted and is not replaced. -/
def ProperMarks (allowed : Bool) (edits : List CodeEdit) (marked : List (Instruction × Bool)) :
    Prop :=
  ∀ mark ∈ marked, mark.2 = true →
    mark.1.Promotable allowed ∧ replacementAt? edits mark.1.offset = none

theorem properMarks_unmarked (allowed : Bool) (edits : List CodeEdit)
    (instructions : List Instruction) :
    ProperMarks allowed edits (instructions.map fun instruction => (instruction, false)) := by
  intro mark member promoted
  obtain ⟨instruction, -, rfl⟩ := List.mem_map.mp member
  cases promoted

theorem exists_of_widens_inserted {allowed : Bool} {codes : List Bytes} {pieces after : List Piece}
    (widened : List.Forall₂ (Piece.Widens allowed) (codes.map .inserted ++ pieces) after) :
    ∃ rest, List.Forall₂ (Piece.Widens allowed) pieces rest ∧
      after = codes.map .inserted ++ rest := by
  induction codes generalizing after with
  | nil => exact ⟨after, widened, rfl⟩
  | cons code codes inductionHypothesis =>
    cases widened with
    | cons widens others =>
      cases widens
      obtain ⟨rest, widened, rfl⟩ := inductionHypothesis others
      exact ⟨rest, widened, rfl⟩

/-- Promoting the piece of an instruction changes its mark. -/
theorem exists_mark_of_widens {allowed : Bool} {edits : List CodeEdit} {mark : Instruction × Bool}
    (proper : mark.2 = true →
      mark.1.Promotable allowed ∧ replacementAt? edits mark.1.offset = none)
    {after : Piece} (widened : (anchoredPiece edits mark).Widens allowed after) :
    ∃ promoted, after = anchoredPiece edits (mark.1, promoted) ∧
      (promoted = true →
        mark.1.Promotable allowed ∧ replacementAt? edits mark.1.offset = none) := by
  obtain ⟨instruction, promoted⟩ := mark
  unfold anchoredPiece at widened ⊢
  cases replaced : replacementAt? edits instruction.offset with
  | some code =>
    simp only [replaced] at widened proper ⊢
    cases widened
    exact ⟨promoted, rfl, proper⟩
  | none =>
    simp only [replaced] at widened proper ⊢
    generalize before : Piece.kept instruction promoted = piece at widened
    cases widened with
    | same => exact ⟨promoted, before.symm, proper⟩
    | promoted _ promotable =>
      obtain ⟨rfl, rfl⟩ := Piece.kept.inj before
      exact ⟨true, rfl, fun _ => ⟨promotable, trivial⟩⟩

/-- Promoting pieces changes the marks and nothing else. -/
theorem exists_marks_of_widens {allowed : Bool} {edits : List CodeEdit} {length : Nat}
    {marked : List (Instruction × Bool)} (proper : ProperMarks allowed edits marked)
    {after : List Piece}
    (widened : List.Forall₂ (Piece.Widens allowed) (markedPieces edits length marked) after) :
    ∃ marked', marked'.map Prod.fst = marked.map Prod.fst ∧ ProperMarks allowed edits marked' ∧
      after = markedPieces edits length marked' := by
  induction marked generalizing after with
  | nil =>
    rw [markedPieces, ← List.append_nil (List.map _ _)] at widened
    obtain ⟨rest, widenedRest, rfl⟩ := exists_of_widens_inserted widened
    cases widenedRest
    exact ⟨[], rfl, List.forall_mem_nil _, List.append_nil _⟩
  | cons mark marked inductionHypothesis =>
    obtain ⟨first, others⟩ := List.forall_mem_cons.mp proper
    rw [markedPieces] at widened
    obtain ⟨rest, widenedRest, rfl⟩ := exists_of_widens_inserted widened
    cases widenedRest with
    | cons widens widenedLater =>
      obtain ⟨promoted, rfl, firstProper⟩ := exists_mark_of_widens first widens
      obtain ⟨marked', same, othersProper, rfl⟩ := inductionHypothesis others widenedLater
      refine ⟨(mark.1, promoted) :: marked', ?_, ?_, rfl⟩
      · rw [List.map_cons, same, List.map_cons]
      · exact List.forall_mem_cons.mpr ⟨firstProper, othersProper⟩

/-! ### Where marked instructions go -/

theorem mem_markedPieces {edits : List CodeEdit} {length : Nat}
    {marked : List (Instruction × Bool)} {piece : Piece}
    (member : piece ∈ markedPieces edits length marked) :
    (∃ offset, ∃ code ∈ insertionsAt edits offset, piece = .inserted code) ∨
      ∃ mark ∈ marked, piece = anchoredPiece edits mark := by
  induction marked with
  | nil =>
    obtain ⟨code, inserted, rfl⟩ := List.mem_map.mp member
    exact .inl ⟨length, code, inserted, rfl⟩
  | cons mark rest inductionHypothesis =>
    rw [markedPieces, List.mem_append, List.mem_cons] at member
    obtain inserted | rfl | later := member
    · obtain ⟨code, given, rfl⟩ := List.mem_map.mp inserted
      exact .inl ⟨mark.1.offset, code, given, rfl⟩
    · exact .inr ⟨mark, List.mem_cons_self, rfl⟩
    · exact (inductionHypothesis later).imp_right fun ⟨other, member, same⟩ =>
        ⟨other, List.mem_cons_of_mem _ member, same⟩

theorem anchoredPiece_mem_markedPieces {edits : List CodeEdit} {length : Nat}
    {marked : List (Instruction × Bool)} {mark : Instruction × Bool} (member : mark ∈ marked) :
    anchoredPiece edits mark ∈ markedPieces edits length marked := by
  induction marked with
  | nil => cases member
  | cons other rest inductionHypothesis =>
    rw [markedPieces]
    refine List.mem_append_right _ ?_
    cases member with
    | head => exact List.mem_cons_self
    | tail _ member => exact List.mem_cons_of_mem _ (inductionHypothesis member)

theorem anchor?_anchoredPiece (edits : List CodeEdit) (mark : Instruction × Bool) :
    (anchoredPiece edits mark).anchor? = some mark.1.offset := by
  unfold anchoredPiece
  cases replacementAt? edits mark.1.offset with
  | some code => rfl
  | none => rfl

theorem filterMap_anchor?_inserted (codes : List Bytes) :
    (codes.map Piece.inserted).filterMap Piece.anchor? = [] := by
  rw [List.filterMap_eq_nil_iff]
  intro piece member
  obtain ⟨code, -, rfl⟩ := List.mem_map.mp member
  rfl

/-- The anchors are the old instructions, in their order. -/
theorem filterMap_anchor?_markedPieces (edits : List CodeEdit) (length : Nat)
    (marked : List (Instruction × Bool)) :
    (markedPieces edits length marked).filterMap Piece.anchor? =
      marked.map fun mark => mark.1.offset := by
  induction marked with
  | nil => exact filterMap_anchor?_inserted _
  | cons mark rest inductionHypothesis =>
    rw [markedPieces, List.filterMap_append, filterMap_anchor?_inserted, List.nil_append,
      List.filterMap_cons_some (anchor?_anchoredPiece edits mark), inductionHypothesis,
      List.map_cons]

/-- The pieces that are anchored are those of the old instructions. -/
theorem exists_part_iff {edits : List CodeEdit} {length : Nat}
    {marked : List (Instruction × Bool)} {placed : List Placed}
    (all : placed.map Placed.piece = markedPieces edits length marked) {old : Nat} :
    (∃ part ∈ placed, part.piece.anchor? = some old) ↔ BeginsAt (marked.map Prod.fst) old := by
  have anchors := filterMap_anchor?_markedPieces edits length marked
  rw [← all, List.filterMap_map] at anchors
  refine Iff.trans (List.mem_filterMap (f := Piece.anchor? ∘ Placed.piece)).symm ?_
  rw [anchors, List.mem_map]
  constructor
  · rintro ⟨mark, member, rfl⟩
    exact ⟨mark.1, List.mem_map_of_mem member, rfl⟩
  · rintro ⟨instruction, member, rfl⟩
    obtain ⟨mark, markMember, rfl⟩ := List.mem_map.mp member
    exact ⟨mark, markMember, rfl⟩

theorem anchorsFilled_markedPieces {edits : List CodeEdit} (noGap : LeaveNoGap edits)
    (length : Nat) (marked : List (Instruction × Bool)) :
    AnchorsFilled (markedPieces edits length marked) := by
  intro piece member anchored offset
  obtain ⟨place, code, -, rfl⟩ | ⟨mark, -, rfl⟩ := mem_markedPieces member
  · cases anchored
  · unfold anchoredPiece
    cases replaced : replacementAt? edits mark.1.offset with
    | some code =>
      have filled := noGap _ (mem_of_replacementAt? replaced) rfl
      exact List.length_pos_of_ne_nil filled
    | none =>
      obtain ⟨instruction, promoted⟩ := mark
      cases promoted with
      | false => exact lengthAt_pos instruction offset
      | true =>
        simp only [Piece.lengthAt]
        split <;> decide

/-- Whether an offset is that of an instruction or the end of the code. -/
def IsBoundary (instructions : List Instruction) (length offset : Nat) : Prop :=
  BeginsAt instructions offset ∨ offset = length

section sends

variable {code : Bytes} {edits : List CodeEdit} {marked : List (Instruction × Bool)}
  (tiles : Tiles code.length 0 code (marked.map Prod.fst))

include tiles

theorem anchors_ordered :
    ((markedPieces edits code.length marked).filterMap Piece.anchor?).Pairwise (· < ·) ∧
      ∀ old ∈ (markedPieces edits code.length marked).filterMap Piece.anchor?,
        old < code.length := by
  have old : (markedPieces edits code.length marked).filterMap Piece.anchor? =
      (marked.map Prod.fst).map Instruction.offset := by
    rw [filterMap_anchor?_markedPieces, List.map_map]
    rfl
  rw [old, List.pairwise_map, List.forall_mem_map]
  refine ⟨tiles.increasing, fun instruction member => ?_⟩
  have within := (tiles.bounds instruction member).2
  have positive := length_pos instruction
  omega

theorem ascending_markedPieces :
    Ascending (anchorPairs (placedFrom 0 (markedPieces edits code.length marked)) ++
      [(code.length, endFrom 0 (markedPieces edits code.length marked))]) :=
  ascending_anchors (anchors_ordered tiles).1 (anchors_ordered tiles).2

theorem increasing_markedPieces (noGap : LeaveNoGap edits) :
    Increasing (anchorPairs (placedFrom 0 (markedPieces edits code.length marked)) ++
      [(code.length, endFrom 0 (markedPieces edits code.length marked))]) :=
  increasing_anchors (anchors_ordered tiles).1 (anchors_ordered tiles).2
    (anchorsFilled_markedPieces noGap _ _)

section placed

variable {placed : List Placed}
  (all : placed.map Placed.piece = markedPieces edits code.length marked)

include all

/-- Wherever the pieces lie, an old instruction goes to its piece and the old end to the new one. -/
theorem get?_anchors_eq_some_iff {newLength old new : Nat} :
    (anchors code.length placed newLength).get? old = some new ↔
      (∃ part ∈ placed, part.piece.anchor? = some old ∧ part.offset = new) ∨
      old = code.length ∧ new = newLength := by
  have keyed := keyed_anchors (anchors_ordered tiles).1 (anchors_ordered tiles).2 all newLength
  refine (get?_ofList_eq_some_iff keyed).trans ?_
  rw [List.mem_append, mem_anchorPairs_iff, List.mem_singleton, Prod.mk.injEq]

theorem isSome_get?_anchors_iff {newLength old : Nat} :
    ((anchors code.length placed newLength).get? old).isSome = true ↔
      IsBoundary (marked.map Prod.fst) code.length old := by
  rw [Option.isSome_iff_exists]
  simp only [get?_anchors_eq_some_iff tiles all]
  constructor
  · rintro ⟨new, ⟨part, member, anchored, -⟩ | ⟨rfl, -⟩⟩
    · exact .inl ((exists_part_iff all).mp ⟨part, member, anchored⟩)
    · exact .inr rfl
  · rintro (begins | rfl)
    · obtain ⟨part, member, anchored⟩ := (exists_part_iff all).mpr begins
      exact ⟨part.offset, .inl ⟨part, member, anchored, rfl⟩⟩
    · exact ⟨_, .inr ⟨rfl, rfl⟩⟩

end placed

end sends

theorem countP_inserted {holds : Piece → Bool} (never : ∀ code, holds (.inserted code) = false)
    (codes : List Bytes) : (codes.map Piece.inserted).countP holds = 0 := by
  rw [List.countP_eq_zero]
  intro piece member
  obtain ⟨code, -, rfl⟩ := List.mem_map.mp member
  rw [never code]
  exact Bool.false_ne_true

theorem promotions_markedPieces {allowed : Bool} {edits : List CodeEdit} (length : Nat)
    {marked : List (Instruction × Bool)} (proper : ProperMarks allowed edits marked) :
    promotions (markedPieces edits length marked) = marked.countP Prod.snd := by
  unfold promotions
  induction marked with
  | nil => exact countP_inserted (fun _ => rfl) _
  | cons mark rest inductionHypothesis =>
    obtain ⟨first, others⟩ := List.forall_mem_cons.mp proper
    have same : (anchoredPiece edits mark).isPromoted = mark.2 := by
      unfold anchoredPiece
      cases replaced : replacementAt? edits mark.1.offset with
      | none => rfl
      | some code =>
        cases promoted : mark.2 with
        | false => rfl
        | true =>
          rw [(first promoted).2] at replaced
          cases replaced
    rw [markedPieces, List.countP_append, countP_inserted fun _ => rfl, Nat.zero_add,
      List.countP_cons, inductionHypothesis others, List.countP_cons, same]

/-! ### The new instructions, piece by piece -/

/-- The instructions that a placed piece holds. -/
def Placed.image (move : Nat → Nat) (part : Placed) : List Instruction :=
  match part.piece with
  | .inserted code | .substitute _ code => instructionsAt part.offset code
  | .kept instruction promoted => Code.image move part.offset instruction promoted

theorem endFrom_inserted (place : Nat) (codes : List Bytes) :
    endFrom place (codes.map .inserted) = place + codes.flatten.length := by
  induction codes generalizing place with
  | nil => rfl
  | cons code rest inductionHypothesis =>
    rw [List.map_cons, endFrom, inductionHypothesis, List.flatten_cons, List.length_append,
      ← Nat.add_assoc]
    rfl

theorem flatMap_image_inserted (move : Nat → Nat) (place : Nat) (codes : List Bytes) :
    (placedFrom place (codes.map .inserted)).flatMap (Placed.image move) =
      instructionsFrom place codes := by
  induction codes generalizing place with
  | nil => rfl
  | cons code rest inductionHypothesis =>
    rw [List.map_cons, placedFrom, List.flatMap_cons, inductionHypothesis, instructionsFrom]
    rfl

theorem image_anchoredPiece (edits : List CodeEdit) (move : Nat → Nat) (place : Nat)
    (mark : Instruction × Bool) :
    Placed.image move ⟨place, anchoredPiece edits mark⟩ =
      substance edits move place mark.1 mark.2 := by
  unfold substance anchoredPiece
  cases replacementAt? edits mark.1.offset with
  | some code => rfl
  | none => rfl

theorem insertedBefore_add (edits : List CodeEdit) (place offset : Nat) :
    insertedBefore edits (place + (insertionsAt edits offset).flatten.length) offset =
      instructionsFrom place (insertionsAt edits offset) := by
  rw [insertedBefore, Nat.add_sub_cancel]

/-- Pieces that lie where the map sends their anchors hold what edited code is to consist of. -/
theorem flatMap_image_markedPieces {edits : List CodeEdit} {length : Nat} {move : Nat → Nat}
    {marked : List (Instruction × Bool)} {place : Nat}
    (anchored : ∀ part ∈ placedFrom place (markedPieces edits length marked), ∀ old,
      part.piece.anchor? = some old → move old = part.offset)
    (last : move length = endFrom place (markedPieces edits length marked)) :
    (placedFrom place (markedPieces edits length marked)).flatMap (Placed.image move) =
      rebuilt edits length move marked := by
  induction marked generalizing place with
  | nil =>
    rw [markedPieces, endFrom_inserted] at last
    rw [markedPieces, flatMap_image_inserted, rebuilt, List.flatMap_nil, List.nil_append, last,
      insertedBefore_add]
  | cons mark rest inductionHypothesis =>
    rw [markedPieces, placedFrom_append, endFrom_inserted, placedFrom] at anchored
    rw [markedPieces, endFrom_append, endFrom_inserted, endFrom] at last
    have here : move mark.1.offset =
        place + (insertionsAt edits mark.1.offset).flatten.length :=
      anchored ⟨_, anchoredPiece edits mark⟩ (List.mem_append_right _ List.mem_cons_self) _
        (anchor?_anchoredPiece edits mark)
    have later := inductionHypothesis (fun part member => anchored part
      (List.mem_append_right _ (List.mem_cons_of_mem _ member))) last
    rw [markedPieces, placedFrom_append, endFrom_inserted, placedFrom, List.flatMap_append,
      List.flatMap_cons, flatMap_image_inserted, image_anchoredPiece, later]
    rw [rebuilt, rebuilt, List.flatMap_cons, here, insertedBefore_add]
    simp only [List.append_assoc]

/-! ### What lies behind a branch -/

theorem anchoredPiece_eq_kept {edits : List CodeEdit} {mark : Instruction × Bool}
    {instruction : Instruction} {promoted : Bool}
    (kept : anchoredPiece edits mark = .kept instruction promoted) :
    mark = (instruction, promoted) ∧ replacementAt? edits instruction.offset = none := by
  unfold anchoredPiece at kept
  cases replaced : replacementAt? edits mark.1.offset with
  | some code =>
    rw [replaced] at kept
    cases kept
  | none =>
    rw [replaced] at kept
    cases kept
    exact ⟨rfl, replaced⟩

theorem replaced_of_anchoredPiece {edits : List CodeEdit} {mark : Instruction × Bool}
    {offset : Nat} {code : Bytes}
    (substituted : anchoredPiece edits mark = .substitute offset code) :
    replacementAt? edits offset = some code := by
  unfold anchoredPiece at substituted
  cases replaced : replacementAt? edits mark.1.offset with
  | some _ =>
    rw [replaced] at substituted
    cases substituted
    exact replaced
  | none =>
    rw [replaced] at substituted
    cases substituted

end Code

end JavaClass
