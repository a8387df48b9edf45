/-
Whether edited code decodes. An edit is not checked against what comes out of it, and two things can
come out of it that are refused when the code is read again: an instruction at the end that other
ones lead to may be replaced by nothing, and a conditional branch that is the last instruction may
be promoted, so that its opposite skips to where no instruction is left. In both cases something
leads to the end of the new code, and there is no other way for it not to decode: the pieces stand
in the new code as they would in a code array that is longer by one byte, and nothing leads behind
the end.
-/

import JavaClass.Proofs.Code.Relocation

namespace JavaClass.Code

open CodeEdit

/-! ### Longer code arrays -/

/-- What stands in a code array stands in a longer one, since more targets are inside it. -/
theorem Tiles.longer {length longer offset : Nat} {bytes : Bytes} {instructions : List Instruction}
    (tiles : Tiles length offset bytes instructions) (atLeast : length ≤ longer) :
    Tiles longer offset bytes instructions := by
  induction tiles with
  | nil => exact .nil
  | cons readable _ inductionHypothesis =>
    obtain ⟨⟨suits, reaches⟩, padding⟩ := readable
    refine .cons ⟨⟨suits, fun target member => ?_⟩, padding⟩ inductionHypothesis
    obtain ⟨inside, near⟩ := reaches target member
    exact ⟨Nat.lt_of_lt_of_le inside atLeast, near⟩

theorem Tiles.eq {length offset : Nat} {bytes : Bytes} {instructions others : List Instruction}
    (tiles : Tiles length offset bytes instructions) (again : Tiles length offset bytes others) :
    instructions = others :=
  Except.ok.inj ((decodeFrom_of_tiles tiles []).symm.trans (decodeFrom_of_tiles again []))

/-- A target of decoded code is inside it. -/
theorem target_lt_of_decode {code : Bytes} {instructions : List Instruction}
    (decoded : decode code = .ok instructions) {instruction : Instruction}
    (member : instruction ∈ instructions) {target : Nat} (isTarget : target ∈ instruction.targets) :
    target < code.length := by
  obtain ⟨tiles, closed⟩ := decode_eq_ok_iff.mp decoded
  obtain ⟨other, otherMember, rfl⟩ := closed instruction member target isTarget
  have within := (tiles.bounds other otherMember).2
  have positive := length_pos other
  omega

/-! ### Targets of what stays -/

/-- An instruction that stays still leads to where its targets went. -/
theorem exists_target_of_image {allowed : Bool} (move : Nat → Nat) (place : Nat)
    {instruction : Instruction} {promoted : Bool}
    (promotable : promoted = true → instruction.Promotable allowed) {target : Nat}
    (isTarget : target ∈ instruction.targets) :
    ∃ new ∈ image move place instruction promoted, move target ∈ new.targets := by
  cases promoted with
  | false =>
    refine ⟨instruction.relocated move place, ?_, ?_⟩
    · rw [image_of_kept]
      exact List.mem_singleton_self _
    · rw [Instruction.targets_relocated]
      exact List.mem_map_of_mem isTarget
  | true =>
    obtain ⟨offset, opcode, operands⟩ := instruction
    obtain ⟨⟨only, rfl⟩, -, -⟩ := promotable rfl
    obtain rfl := List.mem_singleton.mp isTarget
    unfold image
    cases Opcode.opposite? opcode with
    | some opposite =>
      exact ⟨_, List.mem_cons_of_mem _ List.mem_cons_self, List.mem_singleton_self _⟩
    | none => exact ⟨_, List.mem_cons_self, List.mem_singleton_self _⟩

/-- A promoted conditional branch leads past itself. -/
theorem exists_skip_of_image {allowed : Bool} (move : Nat → Nat) (place : Nat)
    {instruction : Instruction} (promotable : instruction.Promotable allowed)
    (conditional : Opcode.isConditional instruction.opcode = true) :
    ∃ new ∈ image move place instruction true, place + 8 ∈ new.targets := by
  obtain ⟨offset, opcode, operands⟩ := instruction
  obtain ⟨⟨target, rfl⟩, -, -⟩ := promotable
  obtain ⟨opposite, found⟩ :=
    Option.isSome_iff_exists.mp ((Opcode.isSome_opposite? opcode).trans conditional)
  unfold image
  simp only [found]
  exact ⟨_, List.mem_cons_self, List.mem_singleton_self _⟩

theorem mem_rebuilt_of_image {edits : List CodeEdit} {length : Nat} {move : Nat → Nat}
    {marked : List (Instruction × Bool)} {mark : Instruction × Bool} (member : mark ∈ marked)
    (stays : replacementAt? edits mark.1.offset = none) {new : Instruction}
    (inImage : new ∈ image move (move mark.1.offset) mark.1 mark.2) :
    new ∈ rebuilt edits length move marked := by
  refine List.mem_append_left _ (List.mem_flatMap.mpr ⟨mark, member, ?_⟩)
  refine List.mem_append_right _ ?_
  unfold substance
  rwa [stays]

/-! ### Decoding edited code -/

namespace Relocates

variable {code : Bytes} {edits : List CodeEdit} {allowed : Bool} {relocation : Relocation}
  {marked : List (Instruction × Bool)} {parts : List Bytes}
  (relocates : Relocates code edits allowed relocation marked parts)

include relocates

theorem tiles_succ : Tiles (relocation.code.length + 1) 0 relocation.code
    (rebuilt edits code.length relocation.map.destination marked) := by
  obtain ⟨stands, length⟩ := relocates.stands_succ
  rw [length]
  exact stands.tiles

/-- If edited code decodes, it consists of what it is to consist of, and nothing leads to its end.
-/
theorem leadsInside_of_decode {instructions : List Instruction}
    (decoded : decode relocation.code = .ok instructions) :
    LeadsInside edits relocation.map.destination relocation.code.length marked ∧
      instructions = rebuilt edits code.length relocation.map.destination marked := by
  obtain rfl : instructions = rebuilt edits code.length relocation.map.destination marked :=
    ((decode_eq_ok_iff.mp decoded).1.longer (Nat.le_succ _)).eq relocates.tiles_succ
  refine ⟨⟨fun mark member stays target isTarget => ?_, fun mark member promoted conditional => ?_⟩,
    rfl⟩
  · obtain ⟨new, inImage, leads⟩ := exists_target_of_image relocation.map.destination
      (relocation.map.destination mark.1.offset) (relocates.promotable member) isTarget
    exact target_lt_of_decode decoded (mem_rebuilt_of_image member stays inImage) leads
  · obtain ⟨new, inImage, leads⟩ := exists_skip_of_image relocation.map.destination
      (relocation.map.destination mark.1.offset) (relocates.promotable member promoted) conditional
    rw [← promoted] at inImage
    have stays := (relocates.proper mark member promoted).2
    exact target_lt_of_decode decoded (mem_rebuilt_of_image member stays inImage) leads

theorem decode_eq_ok_iff_leadsInside {instructions : List Instruction} :
    decode relocation.code = .ok instructions ↔
      LeadsInside edits relocation.map.destination relocation.code.length marked ∧
        instructions = rebuilt edits code.length relocation.map.destination marked := by
  refine ⟨relocates.leadsInside_of_decode, ?_⟩
  rintro ⟨leads, rfl⟩
  rw [relocates.length_code] at leads
  exact relocates.decode_rebuilt leads

end Relocates

/-- Edits were made to code, and whether or not the new code decodes it consists of what it is to
consist of, from its beginning to its end. Every target in it is the beginning of an instruction or
the end, and it decodes, to just these instructions, if and only if nothing leads to the end. -/
structure Consists (code : Bytes) (edits : List CodeEdit) (allowed : Bool) (relocation : Relocation)
    (marked : List (Instruction × Bool)) : Prop where
  old : decode code = .ok (marked.map Prod.fst)
  proper : ProperMarks allowed edits marked
  counted : relocation.promotions = marked.countP Prod.snd
  tiles : Tiles (relocation.code.length + 1) 0 relocation.code
    (rebuilt edits code.length relocation.map.destination marked)
  targets : ∀ instruction ∈ rebuilt edits code.length relocation.map.destination marked,
    ∀ target ∈ instruction.targets,
      IsBoundary (rebuilt edits code.length relocation.map.destination marked)
        relocation.code.length target
  accepted : ∀ instructions, decode relocation.code = .ok instructions ↔
    LeadsInside edits relocation.map.destination relocation.code.length marked ∧
      instructions = rebuilt edits code.length relocation.map.destination marked

theorem consists_of_relocate {code : Bytes} {edits : List CodeEdit} {allowed : Bool}
    {relocation : Relocation} (addressable : Addressable code edits)
    (relocated : relocate code edits allowed = .ok relocation) :
    ∃ marked, Consists code edits allowed relocation marked := by
  obtain ⟨marked, parts, relocates⟩ := exists_relocates addressable relocated
  exact ⟨marked, {
    old := relocates.decoded
    proper := relocates.proper
    counted := relocates.promotions_eq
    tiles := relocates.tiles_succ
    targets := fun _ member _ isTarget => relocates.isBoundary_of_target member isTarget
    accepted := fun _ => relocates.decode_eq_ok_iff_leadsInside }⟩

/-- A jump to an instruction that is replaced by two others. -/
theorem consists_of_relocate_jump :
    ∃ relocation marked,
      relocate [0xA7, 0, 3, 0xB1] [.replace 3 [0, 0xB1]] false = .ok relocation ∧
        Consists [0xA7, 0, 3, 0xB1] [.replace 3 [0, 0xB1]] false relocation marked := by
  have succeeds : (relocate [0xA7, 0, 3, 0xB1] [.replace 3 [0, 0xB1]] false).isOk = true := by
    decide +kernel
  have addressable : Addressable [0xA7, 0, 3, 0xB1] [.replace 3 [0, 0xB1]] := by
    decide
  cases relocated : relocate [0xA7, 0, 3, 0xB1] [.replace 3 [0, 0xB1]] false with
  | error error =>
    rw [relocated] at succeeds
    cases succeeds
  | ok relocation =>
    obtain ⟨marked, consists⟩ := consists_of_relocate addressable relocated
    exact ⟨relocation, marked, rfl, consists⟩

/-- Edited code need not decode: the instruction that a jump leads to is the last one, and is
replaced by nothing. -/
theorem exists_relocate_not_decode :
    ∃ relocation error,
      relocate [0xA7, 0, 3, 0xB1] [.replace 3 []] false = .ok relocation ∧
        decode relocation.code = .error error := by
  have runs : (relocate [0xA7, 0, 3, 0xB1] [.replace 3 []] false).map Relocation.code =
      .ok [0xA7, 0, 3] := by
    decide +kernel
  have refused : decode [0xA7, 0, 3] = .error (.invalidOffset 3 (.targetOutside 0)) := by
    decide +kernel
  cases relocated : relocate [0xA7, 0, 3, 0xB1] [.replace 3 []] false with
  | error error =>
    rw [relocated] at runs
    cases runs
  | ok relocation =>
    rw [relocated] at runs
    have same : relocation.code = [0xA7, 0, 3] := Except.ok.inj runs
    exact ⟨relocation, _, rfl, by rw [same]; exact refused⟩

end JavaClass.Code
