/-
Edits for which conditional branches must not be promoted, beside the same edits for which they may.
A pass without the permission is the pass with it, except that it fails where that promotes a
conditional branch. Since a promotion is never taken back, the two run side by side through the same
rows until the first such branch; if there is none they end with the same layout, and otherwise the
branch is still promoted where the permissive passes end. In the new code the two forms of a branch
are told apart by their first byte, so the code itself tells which branches were promoted.
-/

import JavaClass.Proofs.Code.NewForm
import JavaClass.Proofs.Code.Passes
import JavaClass.Proofs.Row

namespace JavaClass

/-- The opposite of a conditional branch is another one. -/
theorem Opcode.ne_of_opposite? {opcode opposite : UInt8}
    (found : opposite? opcode = some opposite) : opposite ≠ opcode := by
  have all : ∀ number : Fin 256, opposite? (UInt8.ofNat number) ≠ some (UInt8.ofNat number) := by
    decide +kernel
  have here := all ⟨opcode.toNat, opcode.toNat_lt⟩
  rw [UInt8.ofNat_toNat, found] at here
  exact fun same => here (congrArg some same)

/-- The wide form of a branch of sixteen bits is another one. -/
theorem Opcode.widened_ne {opcode : UInt8} (short : isShortBranch opcode = true) :
    widened opcode ≠ opcode := by
  have all : ∀ number : Fin 256, isShortBranch (UInt8.ofNat number) = true →
      widened (UInt8.ofNat number) ≠ UInt8.ofNat number := by
    decide +kernel
  have here := all ⟨opcode.toNat, opcode.toNat_lt⟩
  rw [UInt8.ofNat_toNat] at here
  exact here short

namespace Code

open CodeEdit

/-! ### Detours -/

/-- The conditional branch that a piece is the promotion of. -/
def Piece.detour? : Piece → Option Instruction
  | kept instruction true =>
    if Opcode.isConditional instruction.opcode then some instruction else none
  | _ => none

theorem Piece.detour?_eq_some_iff {piece : Piece} {instruction : Instruction} :
    piece.detour? = some instruction ↔
      piece = .kept instruction true ∧ Opcode.isConditional instruction.opcode = true := by
  constructor
  · intro detour
    unfold detour? at detour
    split at detour
    · rw [Option.ite_none_right_eq_some, Option.some.injEq] at detour
      obtain ⟨conditional, rfl⟩ := detour
      exact ⟨rfl, conditional⟩
    · cases detour
  · rintro ⟨rfl, conditional⟩
    exact if_pos conditional

/-- What passes as a piece without permission to promote conditional branches. -/
def Piece.permit (piece : Piece) : Except Error Piece :=
  match piece.detour? with
  | some instruction => .error (.unsupportedEdit (.needsFrame instruction.offset))
  | none => .ok piece

theorem Piece.permit_eq_ok_iff {piece permitted : Piece} :
    piece.permit = .ok permitted ↔ piece.detour? = none ∧ permitted = piece := by
  unfold permit
  cases piece.detour? with
  | some instruction =>
    exact iff_of_false (fun impossible => nomatch impossible) fun impossible =>
      nomatch impossible.1
  | none =>
    rw [Except.ok.injEq, eq_self, true_and]
    exact eq_comm

theorem Piece.permit_eq_error_iff {piece : Piece} {error : Error} :
    piece.permit = .error error ↔ ∃ instruction, piece.detour? = some instruction ∧
      error = .unsupportedEdit (.needsFrame instruction.offset) := by
  unfold permit
  cases piece.detour? with
  | some instruction =>
    simp only [Except.error.injEq, Option.some.injEq, exists_eq_left']
    exact eq_comm
  | none =>
    exact iff_of_false (fun impossible => nomatch impossible) fun ⟨_, impossible, _⟩ =>
      nomatch impossible

/-- A promotion is never taken back. -/
theorem Piece.Widens.eq_of_detour {allowed : Bool} {piece wider : Piece}
    (widens : piece.Widens allowed wider) {instruction : Instruction}
    (detour : piece.detour? = some instruction) : wider = piece := by
  cases widens with
  | same => rfl
  | promoted => cases detour

/-- What becomes of a branch that does not reach its target. -/
theorem Placed.relax_of_strained {place target moved : Nat} {instruction : Instruction}
    {map : OffsetMap}
    (short : (Piece.kept instruction false).shortTarget? = some target)
    (found : map.get? target = some moved)
    (strained : isShort ((moved : Int) - (place : Int)) = false) (allowed : Bool) :
    Placed.relax allowed map ⟨place, .kept instruction false⟩ =
      if Opcode.isConditional instruction.opcode && !allowed then
        .error (.unsupportedEdit (.needsFrame instruction.offset))
      else .ok (.kept instruction true) := by
  have moves : map.move .target target = .ok moved := OffsetMap.move_eq_ok_iff.mpr found
  simp only [Placed.relax, short, moves, strained, bind, Except.bind, Bool.false_eq_true, if_false]
  split <;> rfl

/-- Without permission, a piece is relaxed as it is with permission and has to pass then. -/
theorem Placed.relax_false {part : Placed} (plain : part.piece.detour? = none)
    (map : OffsetMap) : part.relax false map = part.relax true map >>= Piece.permit := by
  have stays : part.piece.permit = .ok part.piece := Piece.permit_eq_ok_iff.mpr ⟨plain, rfl⟩
  obtain ⟨place, piece⟩ := part
  cases short : piece.shortTarget? with
  | none =>
    simp only [Placed.relax, short]
    exact stays.symm
  | some target =>
    obtain ⟨instruction, rfl, -, -⟩ := Piece.eq_kept_of_shortTarget? short
    cases found : map.get? target with
    | none =>
      simp only [Placed.relax, short, OffsetMap.move, found]
      rfl
    | some moved =>
      cases strained : isShort ((moved : Int) - (place : Int)) with
      | true =>
        have moves : map.move .target target = .ok moved := OffsetMap.move_eq_ok_iff.mpr found
        simp only [Placed.relax, short, moves, strained, if_true, bind, Except.bind]
        exact stays.symm
      | false =>
        rw [relax_of_strained short found strained, relax_of_strained short found strained]
        simp only [bind, Except.bind, Piece.permit, Piece.detour?, Bool.not_true, Bool.and_false,
          Bool.false_eq_true, Bool.not_false, Bool.and_true, if_false]
        cases Opcode.isConditional instruction.opcode <;> rfl

/-- What is relaxed without permission is relaxed in the same way with permission. -/
theorem Placed.relax_true_of_ok {part : Placed} {map : OffsetMap} {piece : Piece}
    (relaxed : part.relax false map = .ok piece) : part.relax true map = .ok piece := by
  cases detour : part.piece.detour? with
  | none =>
    rw [relax_false detour, Outcome.bind_eq_ok_iff] at relaxed
    obtain ⟨found, ran, permitted⟩ := relaxed
    obtain ⟨-, rfl⟩ := Piece.permit_eq_ok_iff.mp permitted
    exact ran
  | some instruction =>
    obtain ⟨kept, -⟩ := Piece.detour?_eq_some_iff.mp detour
    simp only [Placed.relax, kept, Piece.shortTarget?_kept_true] at relaxed ⊢
    exact relaxed

/-! ### One round with and without permission -/

theorem exists_mapM_relax_false_eq_error {map : OffsetMap} {placed : List Placed} {error : Error}
    (failed : placed.mapM (Placed.relax true map) = .error error) :
    ∃ other, placed.mapM (Placed.relax false map) = .error other := by
  cases ran : placed.mapM (Placed.relax false map) with
  | error other => exact ⟨other, rfl⟩
  | ok relaxed =>
    have row := (Outcome.mapM_eq_ok_iff.mp ran).imp fun _ _ done => Placed.relax_true_of_ok done
    rw [Outcome.mapM_eq_ok_iff.mpr row] at failed
    cases failed

theorem mapM_relax_false {map : OffsetMap} {placed : List Placed} {relaxed : List Piece}
    (plain : ∀ part ∈ placed, part.piece.detour? = none)
    (permissive : placed.mapM (Placed.relax true map) = .ok relaxed) :
    placed.mapM (Placed.relax false map) = relaxed.mapM Piece.permit := by
  rw [Outcome.mapM_eq_ok_iff] at permissive
  induction permissive with
  | nil => rfl
  | cons done _ inductionHypothesis =>
    obtain ⟨first, later⟩ := List.forall_mem_cons.mp plain
    rw [List.mapM_cons, List.mapM_cons, Placed.relax_false first, done, inductionHypothesis later]
    rfl

/-- Pieces all pass, or the first of them that is a detour does not. -/
theorem mapM_permit (pieces : List Piece) :
    (∀ piece ∈ pieces, piece.detour? = none) ∧ pieces.mapM Piece.permit = .ok pieces ∨
      ∃ piece ∈ pieces, ∃ instruction, piece.detour? = some instruction ∧
        pieces.mapM Piece.permit =
          .error (.unsupportedEdit (.needsFrame instruction.offset)) := by
  cases ran : pieces.mapM Piece.permit with
  | ok permitted =>
    have passes (piece permitted : Piece) :
        piece.permit = .ok permitted ↔ piece.detour? = none ∧ permitted = piece :=
      Piece.permit_eq_ok_iff
    obtain ⟨plain, same⟩ := (forall₂_iff_eq_map passes).mp (Outcome.mapM_eq_ok_iff.mp ran)
    rw [List.map_id'] at same
    exact .inl ⟨plain, congrArg Except.ok same⟩
  | error error =>
    obtain ⟨piece, member, refused⟩ := Outcome.exists_of_mapM_eq_error ran
    obtain ⟨instruction, detour, rfl⟩ := Piece.permit_eq_error_iff.mp refused
    exact .inr ⟨piece, member, instruction, detour, rfl⟩

/-! ### All passes with and without permission -/

/-- What the passes come to without permission, beside what they come to with permission: a failure
beside a failure, the same layout if no conditional branch is promoted in it, and otherwise the
refusal of one that is. -/
inductive Stricter : Except Error Layout → Except Error Layout → Prop
  | failed (error other : Error) : Stricter (.error error) (.error other)
  | agrees {layout : Layout} (plain : ∀ part ∈ layout.placed, part.piece.detour? = none) :
      Stricter (.ok layout) (.ok layout)
  | refused {layout : Layout} {part : Placed} {instruction : Instruction}
      (member : part ∈ layout.placed) (detour : part.piece.detour? = some instruction) :
      Stricter (.ok layout) (.error (.unsupportedEdit (.needsFrame instruction.offset)))

section passes

variable {oldLength : Nat} {pieces : List Piece} {layout : Layout}
  (laidOut : layOut oldLength pieces = .ok layout)

include laidOut

theorem exists_part_of_layOut {piece : Piece} (member : piece ∈ pieces) :
    ∃ part ∈ layout.placed, part.piece = piece := by
  rw [← (all_of_layOut laidOut).1] at member
  exact List.mem_map.mp member

theorem plain_of_layOut (plain : ∀ piece ∈ pieces, piece.detour? = none) :
    ∀ part ∈ layout.placed, part.piece.detour? = none :=
  fun _ member => plain _ (piece_mem_of_layOut laidOut member)

end passes

/-- What is a detour in one pass is one in the layout that comes out. -/
theorem Settles.exists_part_of_detour {allowed : Bool} {oldLength : Nat} {row : List Piece}
    {later : List (List Piece)} {layout : Layout}
    (run : Settles allowed oldLength (row :: later) (.ok layout)) {piece : Piece}
    {instruction : Instruction} (member : piece ∈ row) (detour : piece.detour? = some instruction) :
    ∃ part ∈ layout.placed, part.piece.detour? = some instruction := by
  obtain ⟨final, finalMember, laidOut, -⟩ := run.settled_of_ok
  have stays : piece ∈ final := by
    rcases List.mem_cons.mp finalMember with rfl | finalMember
    · exact member
    · have widened := List.rel_of_pairwise_cons run.pairwise finalMember
      obtain ⟨wider, widerMember, widens⟩ := exists_mem_of_forall₂_right widened.flip member
      rw [← widens.eq_of_detour detour]
      exact widerMember
  obtain ⟨part, partMember, rfl⟩ := exists_part_of_layOut laidOut stays
  exact ⟨part, partMember, detour⟩

/-- Without permission the passes run through the rows that they run through with permission, as far
as they get. -/
theorem Settles.exists_stricter {oldLength : Nat} {passes : List (List Piece)}
    {result : Except Error Layout} (run : Settles true oldLength passes result)
    (plain : ∀ row ∈ passes.head?, ∀ piece ∈ row, piece.detour? = none) :
    ∃ rows answer, rows.head? = passes.head? ∧ Settles false oldLength rows answer ∧
      Stricter result answer := by
  -- The induction is on the passes with permission. It carries that nothing in the row in front is
  -- a detour yet; from the first row that has one on, the passes without permission are over.
  induction run with
  | overfull refused => exact ⟨_, _, rfl, .overfull refused, .failed _ _⟩
  | strained laidOut refused =>
    obtain ⟨other, refusedToo⟩ := exists_mapM_relax_false_eq_error refused
    exact ⟨_, _, rfl, .strained laidOut refusedToo, .failed _ _⟩
  | @settled pieces relaxed layout laidOut round idle =>
    have plainHere := plain_of_layOut laidOut (plain _ rfl)
    have strictly := mapM_relax_false plainHere round
    obtain rfl := eq_of_promotions_eq (widens_of_round laidOut round) idle
    obtain ⟨-, passed⟩ | ⟨piece, member, instruction, detour, -⟩ := mapM_permit relaxed
    · exact ⟨_, _, rfl, .settled laidOut (strictly.trans passed) idle, .agrees plainHere⟩
    · rw [plain _ rfl piece member] at detour
      cases detour
  | @again pieces relaxed layout later result laidOut round busy others inductionHypothesis =>
    have strictly := mapM_relax_false (plain_of_layOut laidOut (plain _ rfl)) round
    obtain ⟨plainLater, passed⟩ | ⟨piece, member, instruction, detour, stopped⟩ :=
      mapM_permit relaxed
    · obtain ⟨rows, answer, starts, strictRun, stricter⟩ :=
        inductionHypothesis fun row same => Option.some.inj same ▸ plainLater
      cases rows with
      | nil => cases starts
      | cons row rest =>
        obtain rfl := Option.some.inj starts
        exact ⟨pieces :: row :: rest, answer, rfl,
          .again laidOut (strictly.trans passed) busy strictRun, stricter⟩
    · -- The detour is still there at the end, if the passes with permission have one.
      refine ⟨[pieces], _, rfl, .strained laidOut (strictly.trans stopped), ?_⟩
      cases result with
      | error error => exact .failed _ _
      | ok last =>
        obtain ⟨part, partMember, detourStays⟩ := others.exists_part_of_detour member detour
        exact .refused partMember detourStays

theorem settle_stricter {oldLength : Nat} {pieces : List Piece}
    (plain : ∀ piece ∈ pieces, piece.detour? = none) :
    Stricter (settle true oldLength (shortBranches pieces) pieces)
      (settle false oldLength (shortBranches pieces) pieces) := by
  obtain ⟨later, result, run, -⟩ := exists_settles true oldLength pieces
  obtain ⟨rows, answer, starts, strictRun, stricter⟩ :=
    run.exists_stricter fun row same => Option.some.inj same ▸ plain
  cases rows with
  | nil => cases starts
  | cons row rest =>
    obtain rfl := Option.some.inj starts
    rw [run.settle_eq (Nat.le_refl _), strictRun.settle_eq (Nat.le_refl _)]
    exact stricter

/-! ### What edited code tells of its promotions -/

/-- The bytes of a piece, if old offsets go where a map sends them. -/
def Piece.writtenBy (map : OffsetMap) : Piece → Bytes
  | inserted code | substitute _ code => code
  | kept instruction promoted =>
    let moved := instruction.relocated map.destination (map.destination instruction.offset)
    if promoted then moved.promoted.flatMap Instruction.encode else moved.encode

/-- Whether edited code is, from its beginning to its end, what the old instructions are written as
with the edits, each of them promoted or not as it is marked. -/
structure WrittenAs (code : Bytes) (edits : List CodeEdit) (relocation : Relocation)
    (marked : List (Instruction × Bool)) : Prop where
  decoded : decode code = .ok (marked.map Prod.fst)
  proper : ProperMarks true edits marked
  code_eq : relocation.code =
    (markedPieces edits code.length marked).flatMap (Piece.writtenBy relocation.map)

/-- Whether a branch is promoted in edited code. -/
def Promotes (code : Bytes) (edits : List CodeEdit) (relocation : Relocation)
    (instruction : Instruction) : Prop :=
  ∃ marked, WrittenAs code edits relocation marked ∧ (instruction, true) ∈ marked

/-- Whether a branch stands promoted in edited code, where the map sends it. -/
def StandsPromoted (relocation : Relocation) (instruction : Instruction) : Prop :=
  ∃ place before after, relocation.map.get? instruction.offset = some place ∧
    relocation.code = before ++
      (instruction.relocated relocation.map.destination place).promoted.flatMap
        Instruction.encode ++ after ∧
    before.length = place

/-- Whether no conditional branch of the old code that is not replaced is promoted in the new code.
-/
def KeepsConditionals (code : Bytes) (edits : List CodeEdit) (relocation : Relocation) : Prop :=
  ∀ instructions, decode code = .ok instructions → ∀ instruction ∈ instructions,
    Opcode.isConditional instruction.opcode = true →
    replacementAt? edits instruction.offset = none → ¬Promotes code edits relocation instruction

theorem promotable_of_isConditional {instruction : Instruction}
    (suits : instruction.operands.Suits instruction.opcode)
    (conditional : Opcode.isConditional instruction.opcode = true) :
    instruction.Promotable true := by
  have short : Opcode.isShortBranch instruction.opcode = true := by
    rw [Opcode.isShortBranch, conditional]
    rfl
  obtain ⟨target, found⟩ :=
    Option.isSome_iff_exists.mp ((isSome_shortTarget?_kept suits).trans short)
  obtain ⟨_, same, branch, -⟩ := Piece.eq_kept_of_shortTarget? found
  obtain ⟨rfl, -⟩ := Piece.kept.inj same
  exact ⟨⟨target, branch⟩, short, fun _ => rfl⟩

/-- The promotion of a branch does not begin with its opcode. -/
theorem exists_opcode_of_promoted {allowed : Bool} {instruction : Instruction}
    (promotable : instruction.Promotable allowed) (move : Nat → Nat) (place : Nat) :
    ∃ other rest, other ≠ instruction.opcode ∧
      (instruction.relocated move place).promoted.flatMap Instruction.encode = other :: rest := by
  obtain ⟨offset, opcode, operands⟩ := instruction
  obtain ⟨⟨target, rfl⟩, short, -⟩ := promotable
  unfold Instruction.promoted Instruction.relocated
  simp only [Operands.mapTargets]
  cases found : Opcode.opposite? opcode with
  | some opposite => exact ⟨opposite, _, Opcode.ne_of_opposite? found, rfl⟩
  | none => exact ⟨_, _, Opcode.widened_ne short, rfl⟩

/-- So the two forms of a branch are told apart, whatever comes behind them. -/
theorem Piece.writtenBy_ne {allowed : Bool} {instruction : Instruction}
    (promotable : instruction.Promotable allowed) (map : OffsetMap) (rest others : Bytes) :
    (kept instruction true).writtenBy map ++ rest ≠
      (kept instruction false).writtenBy map ++ others := by
  intro same
  obtain ⟨other, behind, differs, promoted⟩ := exists_opcode_of_promoted promotable
    map.destination (map.destination instruction.offset)
  have first : (kept instruction true).writtenBy map = other :: behind := promoted
  rw [first] at same
  exact differs (List.cons.inj same).1

section marks

variable {edits : List CodeEdit} {length : Nat} {map : OffsetMap}

theorem mark_eq_of_written {instruction : Instruction} {promoted marked : Bool}
    (proper : promoted = true →
      instruction.Promotable true ∧ replacementAt? edits instruction.offset = none)
    (other : marked = true →
      instruction.Promotable true ∧ replacementAt? edits instruction.offset = none)
    {rest others : Bytes}
    (same : (anchoredPiece edits (instruction, promoted)).writtenBy map ++ rest =
      (anchoredPiece edits (instruction, marked)).writtenBy map ++ others) : promoted = marked := by
  cases promoted with
  | true =>
    obtain ⟨promotable, stays⟩ := proper rfl
    rw [anchoredPiece_of_stays stays, anchoredPiece_of_stays stays] at same
    cases marked with
    | true => rfl
    | false => exact absurd same (Piece.writtenBy_ne promotable map rest others)
  | false =>
    cases marked with
    | true =>
      obtain ⟨promotable, stays⟩ := other rfl
      rw [anchoredPiece_of_stays stays, anchoredPiece_of_stays stays] at same
      exact absurd same.symm (Piece.writtenBy_ne promotable map others rest)
    | false => rfl

/-- What instructions are written as tells which of them are promoted. -/
theorem marks_eq_of_written {marked others : List (Instruction × Bool)}
    (alike : marked.map Prod.fst = others.map Prod.fst) (proper : ProperMarks true edits marked)
    (othersProper : ProperMarks true edits others)
    (same : (markedPieces edits length marked).flatMap (Piece.writtenBy map) =
      (markedPieces edits length others).flatMap (Piece.writtenBy map)) : marked = others := by
  induction marked generalizing others with
  | nil => exact (List.map_eq_nil_iff.mp alike.symm).symm
  | cons mark rest inductionHypothesis =>
    cases others with
    | nil => cases alike
    | cons other later =>
      obtain ⟨instruction, promoted⟩ := mark
      obtain ⟨otherInstruction, otherPromoted⟩ := other
      obtain ⟨here, behind⟩ := List.cons.inj alike
      obtain rfl : instruction = otherInstruction := here
      obtain ⟨first, properLater⟩ := List.forall_mem_cons.mp proper
      obtain ⟨otherFirst, otherLater⟩ := List.forall_mem_cons.mp othersProper
      rw [markedPieces, markedPieces, List.flatMap_append, List.flatMap_append, List.flatMap_cons,
        List.flatMap_cons] at same
      have same := List.append_cancel_left same
      obtain rfl := mark_eq_of_written first otherFirst same
      rw [inductionHypothesis behind properLater otherLater (List.append_cancel_left same)]

end marks

theorem WrittenAs.unique {code : Bytes} {edits : List CodeEdit} {relocation : Relocation}
    {marked others : List (Instruction × Bool)} (written : WrittenAs code edits relocation marked)
    (other : WrittenAs code edits relocation others) : marked = others :=
  marks_eq_of_written (Except.ok.inj (written.decoded.symm.trans other.decoded)) written.proper
    other.proper (written.code_eq.symm.trans other.code_eq)

theorem WrittenAs.promotes_iff {code : Bytes} {edits : List CodeEdit} {relocation : Relocation}
    {marked : List (Instruction × Bool)} (written : WrittenAs code edits relocation marked)
    {instruction : Instruction} :
    Promotes code edits relocation instruction ↔ (instruction, true) ∈ marked := by
  constructor
  · rintro ⟨others, other, member⟩
    rwa [written.unique other]
  · exact fun member => ⟨marked, written, member⟩

namespace Laid

variable {code : Bytes} {edits : List CodeEdit} {allowed : Bool} {relocation : Relocation}
  {marked : List (Instruction × Bool)} {layout : Layout} {parts : List Bytes}
  (laid : Laid code edits allowed relocation marked layout parts)

include laid

theorem destination_of_part {part : Placed} (member : part ∈ layout.placed)
    {old : Nat} (anchored : part.piece.anchor? = some old) :
    relocation.map.destination old = part.offset := by
  have found := laid.get?_eq_some_iff.mpr (.inl ⟨part, member, anchored, rfl⟩)
  rw [OffsetMap.destination, found]
  rfl

/-- Whatever the places come to, the new code is what its marked instructions are written as. -/
theorem writtenAs : WrittenAs code edits relocation marked where
  decoded := laid.decoded
  proper := laid.proper.permitted
  code_eq := by
    have row : parts = layout.placed.map fun part => part.piece.writtenBy relocation.map := by
      refine Outcome.eq_map_of_mapM (fun part member bytes encoded => ?_)
        (Outcome.mapM_eq_ok_iff.mpr laid.encoded)
      obtain ⟨place, piece⟩ := part
      cases piece with
      | inserted code | substitute _ code => exact Except.ok.inj encoded
      | kept instruction promoted =>
        have here : relocation.map.destination instruction.offset = place :=
          laid.destination_of_part member rfl
        rw [encode_kept encoded, ← laid.map_eq]
        simp only [Piece.writtenBy, here]
    rw [laid.code_eq, row, ← (all_of_layOut laid.laidOut).1, List.flatMap_map, List.flatMap_def]

/-- A detour in the layout is a conditional branch that is promoted. -/
theorem promotes_of_detour {part : Placed} (member : part ∈ layout.placed)
    {instruction : Instruction} (detour : part.piece.detour? = some instruction) :
    (instruction, true) ∈ marked ∧ Opcode.isConditional instruction.opcode = true ∧
      replacementAt? edits instruction.offset = none ∧
      Promotes code edits relocation instruction := by
  obtain ⟨kept, conditional⟩ := Piece.detour?_eq_some_iff.mp detour
  have pieceMember := piece_mem_of_layOut laid.laidOut member
  rw [kept] at pieceMember
  obtain ⟨_, _, _, impossible⟩ | ⟨mark, markMember, whole⟩ := mem_markedPieces pieceMember
  · cases impossible
  · obtain ⟨rfl, stays⟩ := anchoredPiece_eq_kept whole.symm
    exact ⟨markMember, conditional, stays, laid.writtenAs.promotes_iff.mpr markMember⟩

theorem keepsConditionals_iff :
    KeepsConditionals code edits relocation ↔
      ∀ part ∈ layout.placed, part.piece.detour? = none := by
  constructor
  · intro keeps part member
    refine Option.eq_none_iff_forall_ne_some.mpr fun instruction detour => ?_
    obtain ⟨markMember, conditional, stays, promotes⟩ := laid.promotes_of_detour member detour
    exact keeps _ laid.decoded instruction (List.mem_map_of_mem markMember) conditional stays
      promotes
  · intro plain instructions decoded instruction member conditional stays promotes
    have markMember := laid.writtenAs.promotes_iff.mp promotes
    have kept : anchoredPiece edits (instruction, true) ∈ markedPieces edits code.length marked :=
      anchoredPiece_mem_markedPieces markMember
    rw [anchoredPiece_of_stays stays] at kept
    obtain ⟨part, partMember, same⟩ := exists_part_of_layOut laid.laidOut kept
    have detour := Piece.detour?_eq_some_iff.mpr ⟨same, conditional⟩
    rw [plain part partMember] at detour
    cases detour

/-- As long as places can be counted, a promoted branch is one that stands promoted where the map
sends it. -/
theorem promotes_iff_standsPromoted (addressable : Addressable code edits)
    {instruction : Instruction} (member : instruction ∈ marked.map Prod.fst)
    (conditional : Opcode.isConditional instruction.opcode = true)
    (stays : replacementAt? edits instruction.offset = none) :
    Promotes code edits relocation instruction ↔ StandsPromoted relocation instruction := by
  have relocates := laid.relocates addressable
  rw [laid.writtenAs.promotes_iff]
  constructor
  · intro markMember
    obtain ⟨place, form, -, here, encoded, before, after, split, length⟩ :=
      relocates.exists_lying markMember
    rw [anchoredPiece_of_stays stays] at encoded
    rw [encode_kept encoded, if_pos rfl] at split
    exact ⟨place, before, after, here, split, length⟩
  · rintro ⟨place, before, after, here, split, length⟩
    have promotable := promotable_of_isConditional
      (laid.tiles_old.suits _ member) conditional
    obtain ⟨⟨_, promoted⟩, markMember, rfl⟩ := List.mem_map.mp member
    obtain ⟨otherPlace, form, -, otherHere, encoded, otherBefore, otherAfter, otherSplit,
      otherLength⟩ := relocates.exists_lying markMember
    obtain rfl : otherPlace = place := Option.some.inj (otherHere.symm.trans here)
    rw [anchoredPiece_of_stays stays] at encoded
    rw [otherSplit, List.append_assoc, List.append_assoc] at split
    obtain ⟨-, same⟩ := List.append_inj split (otherLength.trans length.symm)
    -- Both forms begin at one place, and the one that is not promoted begins with the old opcode.
    cases promoted with
    | true => exact markMember
    | false =>
      obtain ⟨other, rest, differs, begins⟩ := exists_opcode_of_promoted promotable
        relocation.map.destination otherPlace
      rw [encode_kept encoded, if_neg Bool.false_ne_true, begins] at same
      exact absurd (List.cons.inj same).1.symm differs

end Laid

/-! ### Edits with and without permission -/

/-- What edits come to without permission to promote conditional branches, beside what they come to
with permission. -/
inductive Agreement (code : Bytes) (edits : List CodeEdit) :
    Except Error Relocation → Except Error Relocation → Prop
  | failed (error other : Error) : Agreement code edits (.error error) (.error other)
  | agrees {relocation : Relocation} (keeps : KeepsConditionals code edits relocation) :
      Agreement code edits (.ok relocation) (.ok relocation)
  | refused {relocation : Relocation} {instructions : List Instruction} {instruction : Instruction}
      (decoded : decode code = .ok instructions) (member : instruction ∈ instructions)
      (conditional : Opcode.isConditional instruction.opcode = true)
      (stays : replacementAt? edits instruction.offset = none)
      (promotes : Promotes code edits relocation instruction) :
      Agreement code edits (.ok relocation)
        (.error (.unsupportedEdit (.needsFrame instruction.offset)))

theorem plain_pieces (edits : List CodeEdit) (length : Nat) (instructions : List Instruction) :
    ∀ piece ∈ pieces (EditTable.ofList edits) length instructions, piece.detour? = none := by
  intro piece member
  rw [pieces_eq_markedPieces] at member
  obtain ⟨_, _, _, rfl⟩ | ⟨mark, markMember, rfl⟩ := mem_markedPieces member
  · rfl
  · obtain ⟨instruction, -, rfl⟩ := List.mem_map.mp markMember
    unfold anchoredPiece
    cases replacementAt? edits instruction.offset <;> rfl

theorem exists_laid_of_settle_ok {code : Bytes} {edits : List CodeEdit} {allowed : Bool}
    {instructions : List Instruction} {layout : Layout} (decoded : decode code = .ok instructions)
    (fit : Fit instructions code.length edits)
    (settled : settleEdits allowed code.length edits instructions = .ok layout) :
    ∃ marked parts, layout.placed.mapM (Placed.encode layout.map) = .ok parts ∧
      Laid code edits allowed
        ⟨parts.flatten, layout.map, promotions (layout.placed.map Placed.piece)⟩ marked layout
        parts := by
  obtain ⟨later, result, run, -⟩ := exists_settles allowed code.length
    (pieces (EditTable.ofList edits) code.length instructions)
  have ended : settleEdits allowed code.length edits instructions = result :=
    run.settle_eq (Nat.le_refl _)
  obtain ⟨parts, encoded⟩ := exists_encode_of_settled decoded run (ended.symm.trans settled)
  obtain ⟨marked, laid⟩ := exists_laid_of_settle decoded fit settled encoded
  exact ⟨marked, parts, encoded, laid⟩

theorem agreement_of_checked {code : Bytes} {edits : List CodeEdit}
    {instructions : List Instruction} (short : code.length < UInt32.size)
    (decoded : decode code = .ok instructions)
    (checked :
      checkAll (.ofList (instructions.map Instruction.offset)) code.length [] edits = .ok ()) :
    Agreement code edits (relocate code edits true) (relocate code edits false) := by
  have fit := (checkAll_eq_ok_iff.mp checked).1
  have stricter : Stricter (settleEdits true code.length edits instructions)
      (settleEdits false code.length edits instructions) :=
    settle_stricter (plain_pieces edits code.length instructions)
  generalize permissive : settleEdits true code.length edits instructions = result at stricter
  generalize strict : settleEdits false code.length edits instructions = answer at stricter
  cases stricter with
  | failed error other =>
    rw [relocate_of_settle_error short decoded checked permissive,
      relocate_of_settle_error short decoded checked strict]
    exact .failed error other
  | @agrees layout plain =>
    obtain ⟨marked, parts, encoded, laid⟩ := exists_laid_of_settle_ok decoded fit permissive
    rw [relocate_of_settle_ok short decoded checked permissive encoded,
      relocate_of_settle_ok short decoded checked strict encoded]
    exact .agrees (laid.keepsConditionals_iff.mpr plain)
  | @refused layout part instruction member detour =>
    obtain ⟨marked, parts, encoded, laid⟩ := exists_laid_of_settle_ok decoded fit permissive
    obtain ⟨markMember, conditional, stays, promotes⟩ := laid.promotes_of_detour member detour
    rw [relocate_of_settle_ok short decoded checked permissive encoded,
      relocate_of_settle_error short decoded checked strict]
    exact .refused laid.decoded (List.mem_map_of_mem markMember) conditional stays promotes

theorem agreement_relocate (code : Bytes) (edits : List CodeEdit) :
    Agreement code edits (relocate code edits true) (relocate code edits false) := by
  by_cases short : code.length < UInt32.size
  · cases decoded : decode code with
    | error error =>
      simp only [relocate, if_neg (Nat.not_le_of_lt short), decoded, bind, Except.bind]
      exact .failed error error
    | ok instructions =>
      cases checked : checkAll (.ofList (instructions.map Instruction.offset)) code.length []
          edits with
      | error error =>
        simp only [relocate, if_neg (Nat.not_le_of_lt short), decoded, checked, bind, Except.bind]
        exact .failed error error
      | ok nothing => exact agreement_of_checked short decoded checked
  · simp only [relocate, if_pos (Nat.le_of_not_lt short)]
    exact .failed _ _

/-- What an agreement means for what the edits come to without permission. -/
theorem Agreement.strictly_iff {code : Bytes} {edits : List CodeEdit}
    {permissive strict : Except Error Relocation}
    (agreement : Agreement code edits permissive strict) :
    (∀ relocation, strict = .ok relocation ↔
        permissive = .ok relocation ∧ KeepsConditionals code edits relocation) ∧
      (∀ error, permissive = .error error → ∃ other, strict = .error other) ∧
      ∀ relocation, permissive = .ok relocation → ¬KeepsConditionals code edits relocation →
        ∃ instructions, decode code = .ok instructions ∧ ∃ instruction ∈ instructions,
          Opcode.isConditional instruction.opcode = true ∧
          replacementAt? edits instruction.offset = none ∧
          Promotes code edits relocation instruction ∧
          strict = .error (.unsupportedEdit (.needsFrame instruction.offset)) := by
  cases agreement with
  | failed error other =>
    exact ⟨fun _ => iff_of_false (fun impossible => nomatch impossible)
      (fun impossible => nomatch impossible.1), fun _ _ => ⟨other, rfl⟩,
      fun _ impossible => nomatch impossible⟩
  | @agrees relocation keeps =>
    refine ⟨fun other => ?_, (fun _ impossible => nomatch impossible), fun other same broken => ?_⟩
    · exact ⟨fun same => ⟨same, Except.ok.inj same ▸ keeps⟩, And.left⟩
    · exact absurd (Except.ok.inj same ▸ keeps) broken
  | @refused relocation instructions instruction decoded member conditional stays promotes =>
    refine ⟨fun other => iff_of_false (fun impossible => nomatch impossible) ?_,
      (fun _ impossible => nomatch impossible), fun other same _ => ?_⟩
    · rintro ⟨same, keeps⟩
      obtain rfl := Except.ok.inj same
      exact keeps _ decoded instruction member conditional stays promotes
    · obtain rfl := Except.ok.inj same
      exact ⟨instructions, decoded, instruction, member, conditional, stays, promotes, rfl⟩

/-- The edits that can be made without promoting a conditional branch are those that come to code in
which none is promoted, and they come to the same code, map and number of promotions whether or not
that is allowed. In every other case they fail where it is not allowed; if they do not where it is,
the branch that is refused is one that is promoted there. As long as places can be counted, the
promotion of a branch stands where the map sends it. -/
theorem relocate_strictly_iff (code : Bytes) (edits : List CodeEdit) :
    (∀ relocation, relocate code edits false = .ok relocation ↔
        relocate code edits true = .ok relocation ∧ KeepsConditionals code edits relocation) ∧
      (∀ error, relocate code edits true = .error error →
        ∃ other, relocate code edits false = .error other) ∧
      (∀ relocation, relocate code edits true = .ok relocation →
        ¬KeepsConditionals code edits relocation →
        ∃ instructions, decode code = .ok instructions ∧ ∃ instruction ∈ instructions,
          Opcode.isConditional instruction.opcode = true ∧
          replacementAt? edits instruction.offset = none ∧
          Promotes code edits relocation instruction ∧
          relocate code edits false =
            .error (.unsupportedEdit (.needsFrame instruction.offset))) ∧
      (Addressable code edits → ∀ relocation, relocate code edits true = .ok relocation →
        ∀ instructions, decode code = .ok instructions → ∀ instruction ∈ instructions,
          Opcode.isConditional instruction.opcode = true →
          replacementAt? edits instruction.offset = none →
          (Promotes code edits relocation instruction ↔
            StandsPromoted relocation instruction)) := by
  obtain ⟨succeeds, fails, refuses⟩ := (agreement_relocate code edits).strictly_iff
  refine ⟨succeeds, fails, refuses, fun addressable relocation relocated instructions decoded
    instruction member conditional stays => ?_⟩
  obtain ⟨marked, layout, parts, laid⟩ := exists_laid relocated
  obtain rfl := Except.ok.inj (decoded.symm.trans laid.decoded)
  exact laid.promotes_iff_standsPromoted addressable member conditional stays

end Code

end JavaClass
