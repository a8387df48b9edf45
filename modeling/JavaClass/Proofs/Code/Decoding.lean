/-
What decoding says of a code array: its bytes are those of the instructions, one behind the other
without gaps, and every target is where one of them begins. The converse holds too, so code can be
shown to decode by putting it together from the back: bytes that `Stands` lets one put in front of
whatever is decoded behind them can be put in front of each other.
-/

import JavaClass.Proofs.Code.Instruction
import JavaClass.Proofs.Outcome
import Mathlib.Data.List.Nodup

namespace JavaClass.Code

open Reader

/-! ### Instructions one behind the other -/

/-- The bytes are those of the instructions, the first of which stands at `offset`, in a code array
of `length` bytes. -/
inductive Tiles (length : Nat) : Nat → Bytes → List Instruction → Prop
  | nil {offset : Nat} : Tiles length offset [] []
  | cons {instruction : Instruction} {bytes rest : Bytes} {later : List Instruction}
      (readable : Readable length instruction bytes rest)
      (tiles : Tiles length (instruction.offset + instruction.length) rest later) :
      Tiles length instruction.offset (instruction.opcode :: bytes) (instruction :: later)

theorem lengthAt_pos (instruction : Instruction) (offset : Nat) :
    0 < instruction.lengthAt offset := by
  unfold Instruction.lengthAt
  cases instruction.operands with
  | plain bytes => exact Nat.lt_add_right _ Nat.one_pos
  | branch target =>
    simp only
    split <;> decide
  | tableSwitch default low high targets =>
    simp only
    omega
  | lookupSwitch default pairs =>
    simp only
    omega

theorem length_pos (instruction : Instruction) : 0 < instruction.length :=
  lengthAt_pos instruction instruction.offset

theorem length_of_readable {length : Nat} {instruction : Instruction} {bytes rest : Bytes}
    (readable : Readable length instruction bytes rest) :
    bytes.length + 1 = instruction.length + rest.length := by
  obtain ⟨-, padding, padded, rfl⟩ := readable
  have consumed := Instruction.length_operandBytes padded
  rw [List.length_append]
  omega

/-- Bytes that belong to the instruction before are passed over. -/
theorem decodeFrom_skip (length offset : Nat) (seen : List Instruction) (skipped rest : Bytes) :
    decodeFrom length offset skipped.length seen (skipped ++ rest) =
      decodeFrom length (offset + skipped.length) 0 seen rest := by
  induction skipped generalizing offset with
  | nil => rfl
  | cons byte skipped inductionHypothesis =>
    rw [List.length_cons, ← Nat.add_assoc, Nat.add_right_comm, ← inductionHypothesis]
    rfl

theorem decodeFrom_cons {length offset : Nat} {seen : List Instruction} {opcode : UInt8}
    {bytes rest : Bytes} {operands : Operands}
    (read : readOperands length offset opcode bytes = .ok (operands, rest)) :
    decodeFrom length offset 0 seen (opcode :: bytes) =
      decodeFrom length (offset + (⟨offset, opcode, operands⟩ : Instruction).length) 0
        (⟨offset, opcode, operands⟩ :: seen) rest := by
  obtain ⟨-, padding, padded, rfl⟩ := readable_of_readOperands read
  have consumed := Instruction.length_operandBytes padded
  rw [decodeFrom, read]
  simp only
  rw [← consumed, Nat.add_sub_cancel, decodeFrom_skip, Nat.add_right_comm, ← Nat.add_assoc]

theorem decodeFrom_of_tiles {length offset : Nat} {bytes : Bytes} {instructions : List Instruction}
    (tiles : Tiles length offset bytes instructions) (seen : List Instruction) :
    decodeFrom length offset 0 seen bytes = .ok (seen.reverse ++ instructions) := by
  induction tiles generalizing seen with
  | nil => rw [decodeFrom, List.append_nil]
  | cons readable _ inductionHypothesis =>
    rw [decodeFrom_cons (readOperands_of_readable readable), inductionHypothesis,
      List.reverse_cons, List.append_assoc, List.singleton_append]

theorem tiles_of_decodeFrom {length : Nat} (size : Nat) {offset : Nat} {bytes : Bytes}
    {seen instructions : List Instruction} (bounded : bytes.length ≤ size)
    (decoded : decodeFrom length offset 0 seen bytes = .ok instructions) :
    ∃ later, Tiles length offset bytes later ∧ instructions = seen.reverse ++ later := by
  induction size generalizing offset bytes seen with
  | zero =>
    rw [List.eq_nil_of_length_eq_zero (Nat.le_zero.mp bounded)] at decoded ⊢
    rw [decodeFrom] at decoded
    exact ⟨[], .nil, by rw [List.append_nil, Except.ok.inj decoded]⟩
  | succ size inductionHypothesis =>
    cases bytes with
    | nil =>
      rw [decodeFrom] at decoded
      exact ⟨[], .nil, by rw [List.append_nil, Except.ok.inj decoded]⟩
    | cons opcode bytes =>
      cases read : readOperands length offset opcode bytes with
      | error error =>
        rw [decodeFrom, read] at decoded
        cases error <;> cases decoded
      | ok pair =>
        obtain ⟨operands, rest⟩ := pair
        rw [decodeFrom_cons read] at decoded
        have readable := readable_of_readOperands read
        have shorter : rest.length ≤ size := by
          have consumed := length_of_readable readable
          have positive := length_pos ⟨offset, opcode, operands⟩
          rw [List.length_cons] at bounded
          omega
        obtain ⟨later, tiles, rfl⟩ := inductionHypothesis shorter decoded
        refine ⟨⟨offset, opcode, operands⟩ :: later, .cons readable tiles, ?_⟩
        rw [List.reverse_cons, List.append_assoc, List.singleton_append]

/-! ### Whole code arrays -/

/-- Whether an instruction begins at an offset. -/
def BeginsAt (instructions : List Instruction) (offset : Nat) : Prop :=
  ∃ instruction ∈ instructions, instruction.offset = offset

/-- Whether every target is the beginning of an instruction. -/
def Closed (instructions : List Instruction) : Prop :=
  ∀ instruction ∈ instructions, ∀ target ∈ instruction.targets, BeginsAt instructions target

theorem contains_starts_iff {instructions : List Instruction} {offset : Nat} :
    (Std.ExtTreeSet.ofList (instructions.map Instruction.offset)).contains offset = true ↔
      BeginsAt instructions offset := by
  rw [Std.ExtTreeSet.contains_ofList, List.contains_iff_mem, List.mem_map]
  rfl

theorem checkTargets_eq_ok_iff {instructions : List Instruction} :
    checkTargets instructions = .ok () ↔ Closed instructions := by
  rw [checkTargets, Outcome.forM_eq_ok_iff]
  refine forall₂_congr fun instruction member => ?_
  rw [Outcome.forM_eq_ok_iff]
  refine forall₂_congr fun target member => ?_
  rw [← contains_starts_iff]
  split
  · rename_i found
    exact iff_of_true rfl found
  · rename_i missing
    exact iff_of_false (fun impossible => nomatch impossible) missing

/-- What decoding says of a code array. -/
theorem decode_eq_ok_iff {code : Bytes} {instructions : List Instruction} :
    decode code = .ok instructions ↔
      Tiles code.length 0 code instructions ∧ Closed instructions := by
  rw [← checkTargets_eq_ok_iff, decode]
  constructor
  · intro decoded
    cases found : decodeFrom code.length 0 0 [] code with
    | error error =>
      rw [found] at decoded
      cases decoded
    | ok later =>
      obtain ⟨_, tiles, rfl⟩ := tiles_of_decodeFrom _ (Nat.le_refl _) found
      rw [found] at decoded
      cases checked : checkTargets later with
      | error error =>
        simp only [checked, reduceCtorEq] at decoded
      | ok nothing =>
        simp only [checked, Except.ok.injEq] at decoded
        subst decoded
        exact ⟨tiles, checked⟩
  · rintro ⟨tiles, checked⟩
    simp only [decodeFrom_of_tiles tiles [], List.reverse_nil, List.nil_append, checked]

/-! ### Straight code -/

theorem tiles_of_plain (length : Nat) {parts : List (UInt8 × Bytes)}
    (plain : ∀ part ∈ parts, IsPlain part.1 part.2) (offset : Nat) :
    ∃ instructions,
      Tiles length offset (parts.flatMap fun part => part.1 :: part.2) instructions ∧
        instructions.map (fun instruction => (instruction.opcode, instruction.operands)) =
          parts.map fun part => (part.1, .plain part.2) := by
  induction parts generalizing offset with
  | nil => exact ⟨[], .nil, rfl⟩
  | cons part rest inductionHypothesis =>
    obtain ⟨plainHere, plainLater⟩ := List.forall_mem_cons.mp plain
    let first : Instruction := ⟨offset, part.1, .plain part.2⟩
    obtain ⟨later, tiles, same⟩ := inductionHypothesis plainLater (offset + first.length)
    have readable : Readable length first
        (part.2 ++ rest.flatMap fun part => part.1 :: part.2)
        (rest.flatMap fun part => part.1 :: part.2) :=
      ⟨⟨plainHere, List.forall_mem_nil _⟩, List.replicate (switchPadding offset) 0,
        List.length_replicate, rfl⟩
    exact ⟨first :: later, .cons readable tiles, congrArg (List.cons _) same⟩

/-- Instructions without targets, one behind the other, decode to themselves. -/
theorem exists_decode_of_plain {parts : List (UInt8 × Bytes)}
    (plain : ∀ part ∈ parts, IsPlain part.1 part.2) :
    ∃ instructions, decode (parts.flatMap fun part => part.1 :: part.2) = .ok instructions ∧
      instructions.map (fun instruction => (instruction.opcode, instruction.operands)) =
        parts.map fun part => (part.1, .plain part.2) := by
  obtain ⟨instructions, tiles, same⟩ := tiles_of_plain
    (parts.flatMap fun part => part.1 :: part.2).length plain 0
  refine ⟨instructions, decode_eq_ok_iff.mpr ⟨tiles, fun instruction member target isTarget => ?_⟩,
    same⟩
  have listed := List.mem_map_of_mem
    (f := fun instruction : Instruction => (instruction.opcode, instruction.operands)) member
  rw [same] at listed
  obtain ⟨part, -, isPart⟩ := List.mem_map.mp listed
  obtain ⟨offset, opcode, operands⟩ := instruction
  obtain ⟨-, rfl⟩ := Prod.mk.inj isPart
  cases isTarget

/-! ### Where instructions stand -/

theorem Tiles.bounds {length offset : Nat} {bytes : Bytes} {instructions : List Instruction}
    (tiles : Tiles length offset bytes instructions) :
    ∀ instruction ∈ instructions, offset ≤ instruction.offset ∧
      instruction.offset + instruction.length ≤ offset + bytes.length := by
  induction tiles with
  | nil => exact List.forall_mem_nil _
  | @cons first bytes rest later readable _ inductionHypothesis =>
    have consumed := length_of_readable readable
    rw [List.forall_mem_cons, List.length_cons]
    refine ⟨⟨Nat.le_refl _, by omega⟩, fun instruction member => ?_⟩
    have within := inductionHypothesis instruction member
    omega

theorem Tiles.increasing {length offset : Nat} {bytes : Bytes} {instructions : List Instruction}
    (tiles : Tiles length offset bytes instructions) :
    instructions.Pairwise fun before after => before.offset < after.offset := by
  induction tiles with
  | nil => exact .nil
  | @cons first bytes rest later _ tiles inductionHypothesis =>
    refine .cons (fun instruction member => ?_) inductionHypothesis
    have behind := (tiles.bounds instruction member).1
    have positive := length_pos first
    omega

/-- There is one instruction at an offset. -/
theorem Tiles.eq_of_offset_eq {length offset : Nat} {bytes : Bytes}
    {instructions : List Instruction} (tiles : Tiles length offset bytes instructions)
    {first second : Instruction} (firstMember : first ∈ instructions)
    (secondMember : second ∈ instructions) (same : first.offset = second.offset) :
    first = second := by
  have distinct : (instructions.map Instruction.offset).Nodup :=
    List.pairwise_map.mpr (tiles.increasing.imp Nat.ne_of_lt)
  exact List.inj_on_of_nodup_map distinct firstMember secondMember same

theorem Tiles.suits {length offset : Nat} {bytes : Bytes} {instructions : List Instruction}
    (tiles : Tiles length offset bytes instructions) :
    ∀ instruction ∈ instructions, instruction.operands.Suits instruction.opcode := by
  induction tiles with
  | nil => exact List.forall_mem_nil _
  | cons readable _ inductionHypothesis =>
    exact List.forall_mem_cons.mpr ⟨readable.1.1, inductionHypothesis⟩

/-! ### Putting code together -/

/-- Whatever is decoded behind them, the bytes can be put in front of it for the instructions. -/
def Stands (length offset : Nat) (bytes : Bytes) (instructions : List Instruction) : Prop :=
  ∀ rest later, Tiles length (offset + bytes.length) rest later →
    Tiles length offset (bytes ++ rest) (instructions ++ later)

namespace Stands

theorem nil (length offset : Nat) : Stands length offset [] [] := fun _ _ tiles => tiles

theorem append {length offset : Nat} {front back : Bytes} {before after : List Instruction}
    (first : Stands length offset front before)
    (second : Stands length (offset + front.length) back after) :
    Stands length offset (front ++ back) (before ++ after) := by
  intro rest later tiles
  rw [List.append_assoc, List.append_assoc]
  refine first _ _ (second _ _ ?_)
  rwa [Nat.add_assoc, ← List.length_append]

theorem tiles {length offset : Nat} {bytes : Bytes} {instructions : List Instruction}
    (stands : Stands length offset bytes instructions) :
    Tiles length offset bytes instructions := by
  have alone := stands [] [] .nil
  rwa [List.append_nil, List.append_nil] at alone

theorem length_encode (instruction : Instruction) :
    instruction.encode.length = instruction.length := by
  rw [Instruction.encode_eq, List.length_cons]
  exact Instruction.length_operandBytes List.length_replicate

/-- An instruction that suits its opcode and reaches its targets stands where it is written. -/
theorem encode {length : Nat} (instruction : Instruction)
    (suits : instruction.operands.Suits instruction.opcode)
    (reaches : instruction.Reaches length) :
    Stands length instruction.offset instruction.encode [instruction] := by
  intro rest later tiles
  rw [length_encode] at tiles
  rw [Instruction.encode_eq]
  exact .cons ⟨⟨suits, reaches⟩, _, List.length_replicate, rfl⟩ tiles

end Stands

/-- Code without branches means the same wherever it is put. -/
theorem Tiles.stands_shift {own length offset : Nat} {bytes : Bytes}
    {instructions : List Instruction} (tiles : Tiles own offset bytes instructions)
    (free : ∀ instruction ∈ instructions, instruction.isBranchFree = true) (position : Nat) :
    Stands length (position + offset) bytes (instructions.map (Instruction.shift position)) := by
  induction tiles with
  | nil => exact .nil _ _
  | @cons first bytes rest later readable _ inductionHypothesis =>
    obtain ⟨firstFree, laterFree⟩ := List.forall_mem_cons.mp free
    obtain ⟨⟨suits, -⟩, padding, -, rfl⟩ := readable
    obtain ⟨offset, opcode, operands⟩ := first
    cases operands with
    | plain taken =>
      have stands : Stands length (position + offset) (opcode :: taken)
          [⟨position + offset, opcode, .plain taken⟩] :=
        Stands.encode ⟨position + offset, opcode, .plain taken⟩ suits (List.forall_mem_nil _)
      refine Stands.append stands ?_
      have place : position + offset + (opcode :: taken).length =
          position + (offset + (⟨offset, opcode, .plain taken⟩ : Instruction).length) := by
        rw [Nat.add_assoc, List.length_cons, Nat.add_comm taken.length]
        rfl
      rw [place]
      exact inductionHypothesis laterFree
    | branch | tableSwitch | lookupSwitch => cases firstFree

end JavaClass.Code
