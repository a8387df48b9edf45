/-
Pieces as bytes. Every piece of new code holds its instructions where it lies: what was put in has
no branches and means the same anywhere; an instruction that stays is written down with its targets
where the map sends them, and is read again because it reaches them. A short branch does if it is
settled, a promoted conditional branch if there is something behind it, and everything else has
thirty-two bits for distances inside code that is at most 65535 bytes long. A piece also takes just
as many bytes as were left for it when it was laid out.
-/

import JavaClass.Proofs.Code.Rebuilding

namespace JavaClass

/-! ### Opcodes of branches -/

namespace Opcode

theorem isSome_opposite? (opcode : UInt8) : (opposite? opcode).isSome = isConditional opcode := by
  unfold opposite? isConditional
  grind

theorem isShortBranch_of_opposite? {opcode opposite : UInt8}
    (found : opposite? opcode = some opposite) : isShortBranch opposite = true := by
  have all : ∀ number : Fin 256, (opposite? (UInt8.ofNat number)).all isShortBranch = true := by
    decide +kernel
  have here := all ⟨opcode.toNat, opcode.toNat_lt⟩
  rw [UInt8.ofNat_toNat, found] at here
  exact here

theorem isWideBranch_widened (opcode : UInt8) : isWideBranch (widened opcode) = true := by
  unfold widened
  split <;> rfl

theorem widened_eq (opcode : UInt8) : widened opcode = if opcode = jsr then jsrW else gotoW := by
  unfold widened
  simp only [beq_iff_eq]

end Opcode

/-! ### Moved instructions -/

theorem Operands.suits_mapTargets {opcode : UInt8} {operands : Operands} (move : Nat → Nat)
    (suits : operands.Suits opcode) : (operands.mapTargets move).Suits opcode := by
  cases operands with
  | plain bytes => exact suits
  | branch target => exact suits
  | tableSwitch default low high targets =>
    show _ ∧ _ ∧ ((targets.map move).length : Int) = _
    rwa [List.length_map]
  | lookupSwitch default pairs =>
    show _ ∧ (pairs.map _).length < _
    rwa [List.length_map]

namespace Instruction

theorem targets_relocated (move : Nat → Nat) (place : Nat) (instruction : Instruction) :
    (instruction.relocated move place).targets = instruction.targets.map move := by
  obtain ⟨offset, opcode, operands⟩ := instruction
  cases operands with
  | plain | branch | tableSwitch => rfl
  | lookupSwitch default pairs =>
    simp only [targets, relocated, Operands.mapTargets, List.map_cons, List.map_map]
    rfl

theorem length_relocated (move : Nat → Nat) (place : Nat) (instruction : Instruction) :
    (instruction.relocated move place).length = instruction.lengthAt place := by
  obtain ⟨offset, opcode, operands⟩ := instruction
  cases operands with
  | plain | branch => rfl
  | tableSwitch | lookupSwitch =>
    simp only [length, lengthAt, relocated, Operands.mapTargets, List.length_map]

end Instruction

namespace Code

theorem eq_of_retarget {replace : Nat → Except Error Nat} {move : Nat → Nat}
    (agrees : ∀ old new, replace old = .ok new → move old = new) {instruction moved : Instruction}
    (retargeted : instruction.retarget replace = .ok moved) :
    moved = instruction.relocated move instruction.offset := by
  obtain ⟨offset, opcode, operands⟩ := instruction
  cases operands with
  | plain bytes =>
    simp only [Instruction.retarget, Outcome.bind_eq_ok_iff, Outcome.pure_eq_ok_iff] at retargeted
    obtain ⟨_, rfl, rfl⟩ := retargeted
    rfl
  | branch target =>
    simp only [Instruction.retarget, Outcome.bind_eq_ok_iff, Outcome.pure_eq_ok_iff] at retargeted
    obtain ⟨new, replaced, _, rfl, rfl⟩ := retargeted
    rw [← agrees target new replaced]
    rfl
  | tableSwitch default low high targets =>
    simp only [Instruction.retarget, Outcome.bind_eq_ok_iff, Outcome.pure_eq_ok_iff] at retargeted
    obtain ⟨new, replaced, news, row, _, rfl, rfl⟩ := retargeted
    rw [← agrees default new replaced, Outcome.eq_map_of_mapM (fun target _ => agrees target) row]
    rfl
  | lookupSwitch default pairs =>
    simp only [Instruction.retarget, Outcome.bind_eq_ok_iff, Outcome.pure_eq_ok_iff] at retargeted
    obtain ⟨new, replaced, news, row, _, rfl, rfl⟩ := retargeted
    have pairwise : news = pairs.map fun pair => (pair.1, move pair.2) := by
      refine Outcome.eq_map_of_mapM (fun pair _ result computed => ?_) row
      simp only [Outcome.bind_eq_ok_iff, Outcome.pure_eq_ok_iff] at computed
      obtain ⟨newTarget, found, rfl⟩ := computed
      rw [agrees pair.2 newTarget found]
    rw [← agrees default new replaced, pairwise]
    rfl

theorem retarget_eq_ok {replace : Nat → Except Error Nat} {move : Nat → Nat}
    {instruction : Instruction}
    (agrees : ∀ target ∈ instruction.targets, replace target = .ok (move target)) :
    instruction.retarget replace = .ok (instruction.relocated move instruction.offset) := by
  obtain ⟨offset, opcode, operands⟩ := instruction
  cases operands with
  | plain bytes =>
    simp only [Instruction.retarget, Outcome.bind_eq_ok_iff, Outcome.pure_eq_ok_iff]
    exact ⟨_, rfl, rfl⟩
  | branch target =>
    simp only [Instruction.retarget, Outcome.bind_eq_ok_iff, Outcome.pure_eq_ok_iff]
    exact ⟨_, agrees target List.mem_cons_self, _, rfl, rfl⟩
  | tableSwitch default low high targets =>
    obtain ⟨first, others⟩ := List.forall_mem_cons.mp agrees
    have row : targets.mapM replace = .ok (targets.map move) := by
      rw [Outcome.mapM_eq_ok_iff, List.forall₂_map_right_iff, List.forall₂_same]
      exact others
    simp only [Instruction.retarget, Outcome.bind_eq_ok_iff, Outcome.pure_eq_ok_iff]
    exact ⟨_, first, _, row, _, rfl, rfl⟩
  | lookupSwitch default pairs =>
    obtain ⟨first, others⟩ := List.forall_mem_cons.mp agrees
    simp only [Instruction.retarget, Outcome.bind_eq_ok_iff, Outcome.pure_eq_ok_iff]
    refine ⟨_, first, pairs.map fun pair => (pair.1, move pair.2), ?_, _, rfl, rfl⟩
    rw [Outcome.mapM_eq_ok_iff, List.forall₂_map_right_iff, List.forall₂_same]
    intro pair member
    simp only [Outcome.bind_eq_ok_iff, Outcome.pure_eq_ok_iff]
    exact ⟨_, others _ (List.mem_map_of_mem member), rfl⟩

/-! ### Pieces where they lie -/

/-- From inside code that is at most as long as a method may be, no distance up to its end has more
than thirty-two bits. -/
theorem inReach_of_lt {length place target : Nat} (inside : target < length)
    (bounded : length ≤ longestCode + 1) (here : place ≤ longestCode) :
    InReach length place 31 target := by
  have limit : longestCode = 65535 := rfl
  unfold InReach
  omega

theorem inReach_of_isShort {length place target : Nat} (inside : target < length)
    (near : isShort ((target : Int) - (place : Int)) = true) : InReach length place 15 target := by
  rw [isShort, Bool.and_eq_true, decide_eq_true_iff, decide_eq_true_iff] at near
  exact ⟨inside, near⟩

/-- A placed piece that can be decoded where it lies, in code of `length` bytes. -/
def Placed.Sound (allowed : Bool) (length : Nat) (move : Nat → Nat) (part : Placed) : Prop :=
  match part.piece with
  | .inserted code | .substitute _ code => ∃ own, decode code = .ok own ∧
      ∀ instruction ∈ own, instruction.isBranchFree = true
  | .kept instruction promoted =>
    instruction.operands.Suits instruction.opcode ∧
      (∀ target ∈ instruction.targets, move target < length) ∧
      (promoted = true → instruction.Promotable allowed ∧
        (Opcode.isConditional instruction.opcode = true → part.offset + 8 < length)) ∧
      (promoted = false → Opcode.isShortBranch instruction.opcode = true →
        ∀ target ∈ instruction.targets,
          isShort ((move target : Int) - (part.offset : Int)) = true)

theorem stands_instructionsAt {code : Bytes} {own : List Instruction}
    (decoded : decode code = .ok own) (free : ∀ instruction ∈ own, instruction.isBranchFree = true)
    (length place : Nat) : Stands length place code (instructionsAt place code) := by
  have stands : Stands length (place + 0) code (own.map (Instruction.shift place)) :=
    (decode_eq_ok_iff.mp decoded).1.stands_shift free place
  rw [instructionsAt, decoded]
  exact stands

/-- An instruction that stays and is not promoted. -/
theorem stands_relocated {length place : Nat} {move : Nat → Nat} {instruction : Instruction}
    (bounded : length ≤ longestCode + 1) (here : place ≤ longestCode)
    (suits : instruction.operands.Suits instruction.opcode)
    (inside : ∀ target ∈ instruction.targets, move target < length)
    (near : Opcode.isShortBranch instruction.opcode = true →
      ∀ target ∈ instruction.targets, isShort ((move target : Int) - (place : Int)) = true) :
    Stands length place (instruction.relocated move place).encode
      [instruction.relocated move place] := by
  refine Stands.encode (instruction.relocated move place)
    (Operands.suits_mapTargets move suits) ?_
  cases short : Opcode.isShortBranch instruction.opcode with
  | true =>
    have same : Opcode.isShortBranch (instruction.relocated move place).opcode = true := short
    rw [reaches_iff_of_short same, Instruction.targets_relocated, List.forall_mem_map]
    exact fun target member =>
      inReach_of_isShort (inside target member) (near short target member)
  | false =>
    have same : Opcode.isShortBranch (instruction.relocated move place).opcode = false := short
    rw [reaches_iff_of_far same, Instruction.targets_relocated, List.forall_mem_map]
    exact fun target member => inReach_of_lt (inside target member) bounded here

/-- The opposite branch around a wide jump. -/
theorem stands_opposite {length place target : Nat} {opposite : UInt8}
    (bounded : length ≤ longestCode + 1) (short : Opcode.isShortBranch opposite = true)
    (inside : target < length) (behind : place + 8 < length) :
    Stands length place
      (Instruction.encode ⟨place, opposite, .branch (place + 8)⟩ ++
        Instruction.encode ⟨place + 3, Opcode.gotoW, .branch target⟩)
      [⟨place, opposite, .branch (place + 8)⟩, ⟨place + 3, Opcode.gotoW, .branch target⟩] := by
  have around : Stands length place (Instruction.encode ⟨place, opposite, .branch (place + 8)⟩)
      [⟨place, opposite, .branch (place + 8)⟩] := by
    refine Stands.encode ⟨place, opposite, .branch (place + 8)⟩ (.inl short) ?_
    have same : Opcode.isShortBranch
      (⟨place, opposite, .branch (place + 8)⟩ : Instruction).opcode = true := short
    rw [reaches_iff_of_short same]
    refine List.forall_mem_singleton.mpr ?_
    show InReach length place 15 (place + 8)
    unfold InReach
    omega
  have jump : Stands length (place + 3)
      (Instruction.encode ⟨place + 3, Opcode.gotoW, .branch target⟩)
      [⟨place + 3, Opcode.gotoW, .branch target⟩] := by
    refine Stands.encode ⟨place + 3, Opcode.gotoW, .branch target⟩ (.inr rfl) ?_
    refine (reaches_iff_of_far rfl).mpr (List.forall_mem_singleton.mpr ?_)
    exact inReach_of_lt inside bounded (show place + 3 ≤ longestCode by omega)
  have three : (Instruction.encode ⟨place, opposite, .branch (place + 8)⟩).length = 3 := by
    rw [Stands.length_encode]
    simp only [Instruction.length, Instruction.lengthAt,
      Opcode.not_isWideBranch_of_isShortBranch short, Bool.false_eq_true, if_false]
  refine around.append ?_
  rw [three]
  exact jump

/-- A short jump made wide. -/
theorem stands_widened {length place target : Nat} (opcode : UInt8)
    (bounded : length ≤ longestCode + 1) (here : place ≤ longestCode) (inside : target < length) :
    Stands length place (Instruction.encode ⟨place, Opcode.widened opcode, .branch target⟩)
      [⟨place, Opcode.widened opcode, .branch target⟩] := by
  have wide := Opcode.isWideBranch_widened opcode
  refine Stands.encode ⟨place, Opcode.widened opcode, .branch target⟩ (.inr wide) ?_
  refine (reaches_iff_of_far (Opcode.not_isShortBranch_of_isWideBranch wide)).mpr ?_
  exact List.forall_mem_singleton.mpr (inReach_of_lt inside bounded here)

theorem image_of_kept (move : Nat → Nat) (place : Nat) (instruction : Instruction) :
    image move place instruction false = [instruction.relocated move place] := by
  unfold image
  split <;> first | rfl | contradiction

/-- What becomes of a promoted branch is what its moved form is promoted to. -/
theorem image_of_promoted {allowed : Bool} (move : Nat → Nat) (place : Nat)
    {instruction : Instruction} (promotable : instruction.Promotable allowed) :
    image move place instruction true = (instruction.relocated move place).promoted := by
  obtain ⟨offset, opcode, operands⟩ := instruction
  obtain ⟨⟨target, rfl⟩, -, -⟩ := promotable
  unfold image Instruction.promoted Instruction.relocated
  cases Opcode.opposite? opcode with
  | some opposite => rfl
  | none =>
    simp only [Operands.mapTargets, Opcode.widened_eq]

theorem destination_of_move {map : OffsetMap} {use : OffsetUse} {old new : Nat}
    (moved : map.move use old = .ok new) : map.destination old = new := by
  rw [OffsetMap.destination, OffsetMap.move_eq_ok_iff.mp moved]
  rfl

/-- The bytes of a piece that stays, in terms of its moved instruction. -/
theorem encode_kept {map : OffsetMap} {place : Nat} {instruction : Instruction} {promoted : Bool}
    {bytes : Bytes} (encoded : Placed.encode map ⟨place, .kept instruction promoted⟩ = .ok bytes) :
    bytes =
      if promoted then
        (instruction.relocated map.destination place).promoted.flatMap Instruction.encode
      else (instruction.relocated map.destination place).encode := by
  simp only [Placed.encode, Outcome.bind_eq_ok_iff, Outcome.pure_eq_ok_iff] at encoded
  obtain ⟨moved, retargeted, rfl⟩ := encoded
  rw [eq_of_retarget (fun _ _ => destination_of_move) retargeted]
  rfl

/-- A promoted branch takes as many bytes as were left for it. -/
theorem length_promoted {allowed : Bool} {instruction : Instruction}
    (promotable : instruction.Promotable allowed) (move : Nat → Nat) (place : Nat) :
    ((instruction.relocated move place).promoted.flatMap Instruction.encode).length =
      (Piece.kept instruction true).lengthAt place := by
  obtain ⟨offset, opcode, operands⟩ := instruction
  obtain ⟨⟨target, rfl⟩, -, -⟩ := promotable
  have known := Opcode.isSome_opposite? opcode
  unfold Instruction.promoted Instruction.relocated
  simp only [Operands.mapTargets, Piece.lengthAt]
  cases found : Opcode.opposite? opcode with
  | some opposite =>
    have short := Opcode.isShortBranch_of_opposite? found
    rw [found] at known
    simp only [List.flatMap_cons, List.flatMap_nil, List.append_nil, List.length_append,
      Stands.length_encode, Instruction.length, Instruction.lengthAt, ← known, Option.isSome_some,
      Opcode.not_isWideBranch_of_isShortBranch short, Bool.false_eq_true, if_true, if_false]
    rfl
  | none =>
    rw [found] at known
    simp only [List.flatMap_cons, List.flatMap_nil, List.append_nil, Stands.length_encode,
      Instruction.length, Instruction.lengthAt, ← known, Option.isSome_none,
      Opcode.isWideBranch_widened, Bool.false_eq_true, if_true, if_false]

/-- A piece takes as many bytes as were left for it, provided that only branches that can be
promoted are. -/
theorem length_of_encode {allowed : Bool} {map : OffsetMap} {part : Placed} {bytes : Bytes}
    (promotable : ∀ instruction, part.piece = .kept instruction true →
      instruction.Promotable allowed)
    (encoded : part.encode map = .ok bytes) :
    bytes.length = part.piece.lengthAt part.offset := by
  obtain ⟨place, piece⟩ := part
  cases piece with
  | inserted code | substitute _ code =>
    cases encoded
    rfl
  | kept instruction promoted =>
    rw [encode_kept encoded]
    cases promoted with
    | false =>
      show List.length (Instruction.encode _) = _
      rw [Stands.length_encode, Instruction.length_relocated]
      rfl
    | true => exact length_promoted (promotable instruction rfl) _ _

/-- A promoted branch stands where it lies. -/
theorem stands_promoted {allowed : Bool} {length place : Nat} {move : Nat → Nat}
    {instruction : Instruction} (bounded : length ≤ longestCode + 1) (here : place ≤ longestCode)
    (inside : ∀ target ∈ instruction.targets, move target < length)
    (promotable : instruction.Promotable allowed)
    (behind : Opcode.isConditional instruction.opcode = true → place + 8 < length) :
    Stands length place
      ((instruction.relocated move place).promoted.flatMap Instruction.encode)
      (instruction.relocated move place).promoted := by
  obtain ⟨offset, opcode, operands⟩ := instruction
  obtain ⟨⟨target, rfl⟩, short, -⟩ := promotable
  have within : move target < length := inside target List.mem_cons_self
  have known := Opcode.isSome_opposite? opcode
  unfold Instruction.promoted Instruction.relocated
  simp only [Operands.mapTargets]
  cases found : Opcode.opposite? opcode with
  | some opposite =>
    rw [found] at known
    simp only [List.flatMap_cons, List.flatMap_nil, List.append_nil]
    exact stands_opposite bounded (Opcode.isShortBranch_of_opposite? found) within
      (behind known.symm)
  | none =>
    simp only [List.flatMap_cons, List.flatMap_nil, List.append_nil]
    exact stands_widened opcode bounded here within

/-- A sound piece stands where it lies, and takes as many bytes as were left for it. -/
theorem stands_of_sound {allowed : Bool} {length : Nat} {map : OffsetMap} {part : Placed}
    {bytes : Bytes} (bounded : length ≤ longestCode + 1) (here : part.offset ≤ longestCode)
    (sound : part.Sound allowed length map.destination)
    (encoded : part.encode map = .ok bytes) :
    Stands length part.offset bytes (part.image map.destination) ∧
      bytes.length = part.piece.lengthAt part.offset := by
  obtain ⟨place, piece⟩ := part
  cases piece with
  | inserted code | substitute _ code =>
    obtain ⟨own, decoded, free⟩ := sound
    cases encoded
    exact ⟨stands_instructionsAt decoded free length place, rfl⟩
  | kept instruction promoted =>
    obtain ⟨suits, inside, ifPromoted, ifNot⟩ := sound
    have promotable : ∀ branch, Piece.kept instruction promoted = .kept branch true →
        branch.Promotable allowed := by
      rintro _ ⟨⟩
      exact (ifPromoted rfl).1
    refine ⟨?_, length_of_encode promotable encoded⟩
    show Stands length place bytes (image map.destination place instruction promoted)
    rw [encode_kept encoded]
    cases promoted with
    | false =>
      rw [image_of_kept]
      exact stands_relocated bounded here suits inside (ifNot rfl)
    | true =>
      obtain ⟨promotable, behind⟩ := ifPromoted rfl
      rw [image_of_promoted _ _ promotable]
      exact stands_promoted bounded here inside promotable behind

end Code

end JavaClass
