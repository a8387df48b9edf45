/-
How far edited code is counted. A piece takes at most eight times as many bytes as the instruction
it was, and the edits bring theirs, each of them once. So there is a bound on where pieces end that
does not depend on which branches are promoted: while it is below `2 ^ 32` no pass in which the code
is laid out counts too far, also if its result is refused for its length.
-/

import JavaClass.Proofs.Code.Rebuilding

namespace JavaClass

/-! ### What edits come with -/

namespace CodeEdit

/-- How many bytes edits come with. -/
def size (edits : List CodeEdit) : Nat := (edits.map fun edit => edit.code.length).sum

/-- How many bytes edits come with at an offset or behind it. -/
def sizeFrom (edits : List CodeEdit) (offset : Nat) : Nat :=
  size (edits.filter fun edit => decide (offset ≤ edit.offset))

/-- How many bytes are put in front of an instruction and in its place. -/
def sizeAt (edits : List CodeEdit) (offset : Nat) : Nat :=
  (insertionsAt edits offset).flatten.length +
    ((replacementAt? edits offset).map List.length).getD 0

theorem sizeFrom_zero (edits : List CodeEdit) : sizeFrom edits 0 = size edits := by
  unfold sizeFrom
  rw [List.filter_eq_self.mpr fun edit _ => decide_eq_true (Nat.zero_le _)]

theorem sizeFrom_cons (edit : CodeEdit) (rest : List CodeEdit) (offset : Nat) :
    sizeFrom (edit :: rest) offset =
      (if offset ≤ edit.offset then edit.code.length else 0) + sizeFrom rest offset := by
  unfold sizeFrom size
  rw [List.filter_cons]
  by_cases behind : offset ≤ edit.offset
  · rw [if_pos (decide_eq_true behind), if_pos behind, List.map_cons, List.sum_cons]
  · rw [if_neg (by simpa using behind), if_neg behind, Nat.zero_add]

/-- Of several edits that replace an instruction only the first counts. -/
theorem sizeAt_cons_le (edit : CodeEdit) (rest : List CodeEdit) (offset : Nat) :
    sizeAt (edit :: rest) offset ≤
      (if edit.offset = offset then edit.code.length else 0) + sizeAt rest offset := by
  unfold sizeAt insertionsAt replacementAt?
  rw [List.filterMap_cons, List.findSome?_cons]
  cases edit with
  | insert place code =>
    by_cases here : place = offset
    · simp only [here, if_true, CodeEdit.offset, CodeEdit.code, List.flatten_cons,
        List.length_append]
      omega
    · simp only [here, if_false, CodeEdit.offset]
      omega
  | replace place code =>
    by_cases here : place = offset
    · simp only [here, if_true, CodeEdit.offset, CodeEdit.code, Option.map_some, Option.getD_some]
      omega
    · simp only [here, if_false, CodeEdit.offset]
      omega

theorem sizeAt_add_sizeFrom_le (edits : List CodeEdit) {offset next : Nat}
    (ordered : offset < next) :
    sizeAt edits offset + sizeFrom edits next ≤ sizeFrom edits offset := by
  induction edits with
  | nil => exact Nat.le_refl _
  | cons edit rest inductionHypothesis =>
    have here := sizeAt_cons_le edit rest offset
    rw [sizeFrom_cons, sizeFrom_cons]
    split_ifs at here ⊢ <;> omega

end CodeEdit

namespace Code

open CodeEdit

/-- Wherever an instruction that stays is laid, promoted or not, it takes at most eight times as
many bytes as it took. -/
theorem lengthAt_kept_le (instruction : Instruction) (promoted : Bool) (place : Nat) :
    (Piece.kept instruction promoted).lengthAt place ≤ 8 * instruction.length := by
  have positive := length_pos instruction
  cases promoted with
  | true =>
    show (if Opcode.isConditional instruction.opcode = true then 8 else 5) ≤ _
    split <;> omega
  | false =>
    obtain ⟨offset, opcode, operands⟩ := instruction
    have padding : switchPadding place ≤ 3 := by
      unfold switchPadding
      omega
    -- Only a switch depends on where it is laid, and it is longer than any padding it may need.
    cases operands with
    | plain | branch | tableSwitch | lookupSwitch =>
      simp only [Piece.lengthAt, Instruction.length, Instruction.lengthAt]
      omega

theorem lengthAt_anchoredPiece_le (edits : List CodeEdit) (mark : Instruction × Bool)
    (place : Nat) :
    (insertionsAt edits mark.1.offset).flatten.length +
        (anchoredPiece edits mark).lengthAt
          (place + (insertionsAt edits mark.1.offset).flatten.length) ≤
      8 * mark.1.length + sizeAt edits mark.1.offset := by
  unfold anchoredPiece sizeAt
  cases replacementAt? edits mark.1.offset with
  | some code =>
    simp only [Piece.lengthAt, Option.map_some, Option.getD_some]
    omega
  | none =>
    have kept := lengthAt_kept_le mark.1 mark.2
      (place + (insertionsAt edits mark.1.offset).flatten.length)
    simp only [Option.map_none, Option.getD_none]
    omega

/-- However the branches of decoded code are marked, the pieces take at most eight times as many
bytes as the code and those that edits come with. -/
theorem endFrom_markedPieces_le (edits : List CodeEdit) (place : Nat) {length offset finish : Nat}
    {bytes : Bytes} {marked : List (Instruction × Bool)}
    (tiles : Tiles length offset bytes (marked.map Prod.fst))
    (ends : offset + bytes.length = finish) :
    endFrom place (markedPieces edits finish marked) ≤
      place + 8 * bytes.length + sizeFrom edits offset := by
  -- Along the instructions the bound keeps what edits bring from here on, so that each edit counts
  -- once, where its offset is passed.
  induction marked generalizing offset place bytes with
  | nil =>
    cases tiles
    have last := sizeAt_add_sizeFrom_le edits (Nat.lt_succ_self offset)
    obtain rfl : offset = finish := ends
    rw [markedPieces, endFrom_inserted]
    unfold sizeAt at last
    omega
  | cons mark rest inductionHypothesis =>
    rw [List.map_cons] at tiles
    generalize whole : mark.1 = instruction at tiles
    cases tiles with
    | @cons _ bytes rest later readable tiles =>
      subst whole
      have consumed := length_of_readable readable
      have positive := length_pos mark.1
      rw [List.length_cons] at ends ⊢
      have later := inductionHypothesis
        (place + (insertionsAt edits mark.1.offset).flatten.length +
          (anchoredPiece edits mark).lengthAt
            (place + (insertionsAt edits mark.1.offset).flatten.length)) tiles (by omega)
      have here := lengthAt_anchoredPiece_le edits mark place
      have brought := sizeAt_add_sizeFrom_le edits
        (show mark.1.offset < mark.1.offset + mark.1.length by omega)
      rw [markedPieces, endFrom_append, endFrom_inserted, endFrom]
      omega

/-- Whether whatever becomes of code with edits can be addressed in thirty-two bits. -/
def Addressable (code : Bytes) (edits : List CodeEdit) : Prop :=
  8 * code.length + size edits < 2 ^ 32

instance (code : Bytes) (edits : List CodeEdit) : Decidable (Addressable code edits) :=
  inferInstanceAs (Decidable (_ < _))

/-- However the branches are marked, the end of the pieces can be counted. -/
theorem Addressable.endFrom_lt {code : Bytes} {edits : List CodeEdit}
    (addressable : Addressable code edits) {marked : List (Instruction × Bool)}
    (tiles : Tiles code.length 0 code (marked.map Prod.fst)) :
    endFrom 0 (markedPieces edits code.length marked) < 2 ^ 32 := by
  have bound := endFrom_markedPieces_le edits 0 tiles (Nat.zero_add _)
  rw [sizeFrom_zero] at bound
  unfold Addressable at addressable
  omega

end Code

end JavaClass
