/-
Instructions as bytes. Whatever is read behind an opcode suits that opcode and reaches its targets,
and it is what `encode` writes down, except for the padding of a switch, which may be any bytes.
From right to left: operands that suit the opcode and reach their targets are read again from what
they are written as, wherever the instruction stands and whatever comes behind it. That is why an
instruction can be moved, once its targets are known to be within reach of the new place.
-/

import JavaClass.Code.Decoding
import JavaClass.Proofs.Format.Reader

namespace JavaClass

open Reader

/-! ### Displacements -/

namespace BigEndian

theorem ofInt_toInt16 (value : Int16) : UInt16.ofInt value.toInt = value.toUInt16 := by
  have bits : UInt16.ofInt value.toInt = UInt16.ofBitVec (BitVec.ofInt 16 value.toInt) := by
    refine UInt16.toNat_inj.mp ?_
    show (UInt16.ofNat (value.toInt % 2 ^ 16).toNat).toNat = (BitVec.ofInt 16 value.toInt).toNat
    rw [UInt16.toNat_ofNat', BitVec.toNat_ofInt]
    omega
  rw [bits]
  exact congrArg UInt16.ofBitVec (BitVec.ofInt_toInt)

theorem ofInt_toInt32 (value : Int32) : UInt32.ofInt value.toInt = value.toUInt32 := by
  have bits : UInt32.ofInt value.toInt = UInt32.ofBitVec (BitVec.ofInt 32 value.toInt) := by
    refine UInt32.toNat_inj.mp ?_
    show (UInt32.ofNat (value.toInt % 2 ^ 32).toNat).toNat = (BitVec.ofInt 32 value.toInt).toNat
    rw [UInt32.toNat_ofNat', BitVec.toNat_ofInt]
    omega
  rw [bits]
  exact congrArg UInt32.ofBitVec (BitVec.ofInt_toInt)

theorem ofInt_natCast (value : Nat) : UInt32.ofInt value = UInt32.ofNat value := by
  rw [UInt32.ofInt, ← UInt32.toNat_inj, UInt32.toNat_ofNat', UInt32.toNat_ofNat']
  omega

end BigEndian

namespace Code

/-- A target inside the code, at a distance that a displacement of so many bits and a sign holds. -/
def InReach (length offset bits target : Nat) : Prop :=
  target < length ∧ -2 ^ bits ≤ (target : Int) - offset ∧ (target : Int) - offset < 2 ^ bits

theorem resolveTarget_eq_ok_iff {length offset target : Nat} {displacement : Int} :
    resolveTarget length offset displacement = .ok target ↔
      target < length ∧ displacement = (target : Int) - offset := by
  unfold resolveTarget
  simp only [Bool.and_eq_true, decide_eq_true_eq]
  split
  · rw [Except.ok.injEq]
    omega
  · simp only [reduceCtorEq, false_iff]
    omega

theorem readShortTarget_inverts (length offset limit : Nat) :
    Inverts (readShortTarget length offset) (InReach length offset 15)
      (fun target => BigEndian.signed16 ((target : Int) - offset)) limit := by
  rintro bytes target rest -
  simp only [readShortTarget, bind_eq_ok_iff, i16_eq_ok_iff, lift_eq_ok_iff,
    resolveTarget_eq_ok_iff]
  constructor
  · rintro ⟨value, _, rfl, ⟨inside, displacement⟩, rfl⟩
    have low := value.le_toInt
    have high := value.toInt_lt
    rw [displacement] at low high
    rw [← BigEndian.ofInt_toInt16, displacement]
    exact ⟨⟨inside, low, high⟩, rfl⟩
  · rintro ⟨⟨inside, low, high⟩, rfl⟩
    have kept := Int16.toInt_ofInt_of_le low high
    refine ⟨.ofInt ((target : Int) - offset), rest, ?_, ⟨inside, kept⟩, rfl⟩
    rw [← BigEndian.ofInt_toInt16, kept]
    rfl

theorem readWideTarget_inverts (length offset limit : Nat) :
    Inverts (readWideTarget length offset) (InReach length offset 31)
      (fun target => BigEndian.signed32 ((target : Int) - offset)) limit := by
  rintro bytes target rest -
  simp only [readWideTarget, bind_eq_ok_iff, i32_eq_ok_iff, lift_eq_ok_iff,
    resolveTarget_eq_ok_iff]
  constructor
  · rintro ⟨value, _, rfl, ⟨inside, displacement⟩, rfl⟩
    have low := value.le_toInt
    have high := value.toInt_lt
    rw [displacement] at low high
    rw [← BigEndian.ofInt_toInt32, displacement]
    exact ⟨⟨inside, low, high⟩, rfl⟩
  · rintro ⟨⟨inside, low, high⟩, rfl⟩
    have kept := Int32.toInt_ofInt_of_le low high
    refine ⟨.ofInt ((target : Int) - offset), rest, ?_, ⟨inside, kept⟩, rfl⟩
    rw [← BigEndian.ofInt_toInt32, kept]
    rfl

end Code

/-! ### Operands that go with an opcode -/

/-- Bytes that are read behind an opcode as they are: neither a branch nor a switch, and as many as
the table says or, for a wide form, as the widened opcode asks for. -/
def IsPlain (opcode : UInt8) (bytes : Bytes) : Prop :=
  Opcode.isShortBranch opcode = false ∧ Opcode.isWideBranch opcode = false ∧
    opcode ≠ Opcode.tableswitch ∧ opcode ≠ Opcode.lookupswitch ∧
    if opcode = Opcode.wide then
      ∃ widened index, bytes = widened :: index ∧ Opcode.isWidenable widened = true ∧
        index.length = if widened = Opcode.iinc then 4 else 2
    else Opcode.operandLength? opcode = some bytes.length

/-- Whether an opcode has nothing behind it. -/
def IsAlone (opcode : UInt8) : Prop :=
  Opcode.isShortBranch opcode = false ∧ Opcode.isWideBranch opcode = false ∧
    opcode ≠ Opcode.tableswitch ∧ opcode ≠ Opcode.lookupswitch ∧ opcode ≠ Opcode.wide ∧
      Opcode.operandLength? opcode = some 0

instance (opcode : UInt8) : Decidable (IsAlone opcode) :=
  inferInstanceAs (Decidable (_ ∧ _))

theorem isPlain_nil_of_isAlone {opcode : UInt8} (alone : IsAlone opcode) : IsPlain opcode [] := by
  obtain ⟨short, far, table, lookup, wide, counted⟩ := alone
  refine ⟨short, far, table, lookup, ?_⟩
  rw [if_neg wide]
  exact counted

/-- Operands that go with an opcode, wherever the instruction may stand. -/
def Operands.Suits (opcode : UInt8) : Operands → Prop
  | .plain bytes => IsPlain opcode bytes
  | .branch _ => Opcode.isShortBranch opcode = true ∨ Opcode.isWideBranch opcode = true
  | .tableSwitch _ low high targets =>
    opcode = Opcode.tableswitch ∧ low.toInt ≤ high.toInt ∧
      (targets.length : Int) = high.toInt - low.toInt + 1
  | .lookupSwitch _ pairs => opcode = Opcode.lookupswitch ∧ pairs.length < 2 ^ 31

namespace Instruction

/-- The instruction as it stands when the code it is part of begins at `position`. -/
def shift (position : Nat) (instruction : Instruction) : Instruction :=
  { instruction with offset := position + instruction.offset }

/-- How many bits beside its sign the displacement of a branch or a switch has. -/
def displacementBits (instruction : Instruction) : Nat :=
  if Opcode.isShortBranch instruction.opcode then 15 else 31

/-- Whether all targets are inside a code array of `length` bytes and within reach. -/
def Reaches (length : Nat) (instruction : Instruction) : Prop :=
  ∀ target ∈ instruction.targets,
    Code.InReach length instruction.offset instruction.displacementBits target

/-- The bytes behind the opcode, a switch being padded with the given ones. -/
def operandBytes (padding : Bytes) (instruction : Instruction) : Bytes :=
  let displacement (target : Nat) : Int := (target : Int) - (instruction.offset : Int)
  match instruction.operands with
  | .plain bytes => bytes
  | .branch target =>
    if Opcode.isWideBranch instruction.opcode then BigEndian.signed32 (displacement target)
    else BigEndian.signed16 (displacement target)
  | .tableSwitch default low high targets =>
    padding ++ (BigEndian.signed32 (displacement default) ++ (BigEndian.word32 low.toUInt32 ++
      (BigEndian.word32 high.toUInt32 ++
        targets.flatMap fun target => BigEndian.signed32 (displacement target))))
  | .lookupSwitch default pairs =>
    padding ++ (BigEndian.signed32 (displacement default) ++
      (BigEndian.word32 (UInt32.ofNat pairs.length) ++ pairs.flatMap fun pair =>
        BigEndian.word32 pair.1.toUInt32 ++ BigEndian.signed32 (displacement pair.2)))

theorem encode_eq (instruction : Instruction) :
    instruction.encode =
      instruction.opcode ::
        instruction.operandBytes (List.replicate (switchPadding instruction.offset) 0) := by
  obtain ⟨offset, opcode, operands⟩ := instruction
  cases operands <;> simp only [encode, operandBytes, List.append_assoc]

theorem length_rows {α : Type} (row : α → Bytes) (width : Nat)
    (uniform : ∀ item, (row item).length = width) (items : List α) :
    (items.flatMap row).length = width * items.length := by
  induction items with
  | nil => rfl
  | cons item rest inductionHypothesis =>
    rw [List.flatMap_cons, List.length_append, uniform, inductionHypothesis, List.length_cons,
      Nat.mul_succ, Nat.add_comm]

theorem length_operandBytes {instruction : Instruction} {padding : Bytes}
    (padded : padding.length = switchPadding instruction.offset) :
    (instruction.operandBytes padding).length + 1 = instruction.length := by
  obtain ⟨offset, opcode, operands⟩ := instruction
  cases operands with
  | plain bytes => exact Nat.add_comm _ _
  | branch target =>
    cases wide : Opcode.isWideBranch opcode <;>
      simp only [operandBytes, length, lengthAt, wide, Bool.false_eq_true, if_true, if_false] <;>
      rfl
  | tableSwitch default low high targets =>
    simp only [operandBytes, length, lengthAt, List.length_append, padded]
    rw [length_rows _ 4 (fun _ => rfl)]
    simp only [BigEndian.signed32, BigEndian.length_word32]
    omega
  | lookupSwitch default pairs =>
    simp only [operandBytes, length, lengthAt, List.length_append, padded]
    rw [length_rows _ 8 (fun _ => rfl)]
    simp only [BigEndian.signed32, BigEndian.length_word32]
    omega

/-- The index that stands behind an opcode. -/
theorem poolIndex?_word16 {opcode : UInt8} (indexed : Opcode.hasPoolIndex opcode = true)
    (offset : Nat) (index : UInt16) :
    (⟨offset, opcode, .plain (BigEndian.word16 index)⟩ : Instruction).poolIndex? = some index := by
  have other : (opcode == Opcode.ldc) = false := by
    refine beq_eq_false_iff_ne.mpr ?_
    rintro rfl
    revert indexed
    decide
  show (if opcode == Opcode.ldc then _ else if Opcode.hasPoolIndex opcode then
    some (BigEndian.ofBytes16 _ _) else none) = some index
  rw [other, if_neg Bool.false_ne_true, if_pos indexed, BigEndian.ofBytes16_word16]

end Instruction

/-! ### Reading what was written -/

namespace Opcode

theorem not_isShortBranch_of_isWideBranch {opcode : UInt8} (wide : isWideBranch opcode = true) :
    isShortBranch opcode = false := by
  unfold isWideBranch at wide
  obtain same | same : opcode = gotoW ∨ opcode = jsrW := by simpa using wide
  · rw [same]
    rfl
  · rw [same]
    rfl

theorem not_isWideBranch_of_isShortBranch {opcode : UInt8} (short : isShortBranch opcode = true) :
    isWideBranch opcode = false := by
  rw [Bool.eq_false_iff]
  intro wide
  rw [not_isShortBranch_of_isWideBranch wide] at short
  cases short

end Opcode

namespace Code

theorem readPlain_eq_ok_iff {opcode : UInt8} {length offset : Nat} {bytes rest : Bytes}
    {operands : Operands} (short : Opcode.isShortBranch opcode = false)
    (wide : Opcode.isWideBranch opcode = false) (table : opcode ≠ Opcode.tableswitch)
    (lookup : opcode ≠ Opcode.lookupswitch) :
    readOperands length offset opcode bytes = .ok (operands, rest) ↔
      ∃ taken, operands = .plain taken ∧ IsPlain opcode taken ∧ bytes = taken ++ rest := by
  simp only [readOperands, short, wide, beq_iff_eq, table, lookup, Bool.false_eq_true, if_false]
  by_cases form : opcode = Opcode.wide
  · subst form
    simp only [if_true, readWideForm, bind_eq_ok_iff, u8_eq_ok_iff, refuse_eq_ok_iff,
      take_eq_ok_iff, pure_eq_ok_iff, beq_iff_eq, Bool.not_eq_true', Bool.not_eq_false]
    constructor
    · rintro ⟨widened, _, rfl, widenable, index, _, ⟨counted, rfl⟩, rfl, rfl⟩
      refine ⟨widened :: index, rfl, ⟨short, wide, table, lookup, ?_⟩, rfl⟩
      rw [if_pos rfl]
      exact ⟨widened, index, rfl, widenable, counted⟩
    · rintro ⟨_, rfl, ⟨-, -, -, -, form⟩, rfl⟩
      rw [if_pos rfl] at form
      obtain ⟨widened, index, rfl, widenable, counted⟩ := form
      exact ⟨widened, index ++ rest, rfl, widenable, index, rest, ⟨counted, rfl⟩, rfl, rfl⟩
  · simp only [form, if_false, IsPlain]
    cases fixed : Opcode.operandLength? opcode with
    | none => simp [throw_eq_ok_iff]
    | some count =>
      simp only [bind_eq_ok_iff, take_eq_ok_iff, pure_eq_ok_iff]
      constructor
      · rintro ⟨taken, _, ⟨rfl, rfl⟩, rfl, rfl⟩
        exact ⟨taken, rfl, ⟨short, wide, table, lookup, rfl⟩, rfl⟩
      · rintro ⟨taken, rfl, ⟨-, -, -, -, counted⟩, rfl⟩
        exact ⟨taken, rest, ⟨(Option.some.inj counted).symm, rfl⟩, rfl, rfl⟩

theorem readTableSwitch_eq_ok_iff {length offset : Nat} {bytes rest : Bytes}
    {operands : Operands} :
    readTableSwitch length offset bytes = .ok (operands, rest) ↔
      ∃ default low high targets padding, operands = .tableSwitch default low high targets ∧
        (low.toInt ≤ high.toInt ∧ (targets.length : Int) = high.toInt - low.toInt + 1) ∧
        (InReach length offset 31 default ∧ ∀ target ∈ targets, InReach length offset 31 target) ∧
        padding.length = switchPadding offset ∧
        bytes = Instruction.operandBytes padding ⟨offset, Opcode.tableswitch, operands⟩ ++
          rest := by
  have readTarget := readWideTarget_inverts length offset
  simp only [readTableSwitch, bind_eq_ok_iff, discard_eq_ok_iff, take_eq_ok_iff, i32_eq_ok_iff,
    refuse_eq_ok_iff, ensure_eq_ok_iff, pure_eq_ok_iff]
  constructor
  · rintro ⟨_, _, ⟨padding, padded, rfl⟩, default, _, defaultRead, low, _, rfl, high, _, rfl,
      crossed, _, _, ⟨-, rfl⟩, targets, _, targetsRead, rfl, rfl⟩
    obtain ⟨defaultReach, rfl⟩ := (readTarget _ _ _ _ (Nat.le_refl _)).mp defaultRead
    obtain ⟨⟨counted, targetsReach⟩, rfl⟩ :=
      (many_eq_ok_iff (readTarget _) (Nat.le_refl _)).mp targetsRead
    refine ⟨default, low, high, targets, padding, rfl, ⟨?_, ?_⟩, ⟨defaultReach, targetsReach⟩,
      padded, ?_⟩
    · exact Int.not_lt.mp crossed
    · omega
    · simp only [Instruction.operandBytes, List.append_assoc]
  · rintro ⟨default, low, high, targets, padding, rfl, ⟨ordered, counted⟩,
      ⟨defaultReach, targetsReach⟩, padded, rfl⟩
    have count : (high.toInt - low.toInt + 1).toNat = targets.length := by omega
    have enough : 4 * (high.toInt - low.toInt + 1).toNat ≤
        ((targets.flatMap fun target : Nat => BigEndian.signed32 ((target : Int) - offset)) ++
          rest).length := by
      rw [List.length_append, Instruction.length_rows _ 4 (fun _ => rfl), count]
      exact Nat.le_add_right _ _
    simp only [Instruction.operandBytes, List.append_assoc]
    exact ⟨(), _, ⟨padding, padded, rfl⟩, default, _,
      (readTarget _ _ _ _ (Nat.le_refl _)).mpr ⟨defaultReach, rfl⟩, low, _, rfl, high, _, rfl,
      Int.not_lt.mpr ordered, (), _, ⟨enough, rfl⟩, targets, rest,
      (many_eq_ok_iff (readTarget _) (Nat.le_refl _)).mpr ⟨⟨count.symm, targetsReach⟩, rfl⟩,
      rfl, rfl⟩

theorem readPair_inverts (length offset limit : Nat) :
    Inverts (do return ((← Reader.i32), ← readWideTarget length offset) : Reader (Int32 × Nat))
      (fun pair => InReach length offset 31 pair.2)
      (fun pair =>
        BigEndian.word32 pair.1.toUInt32 ++ BigEndian.signed32 ((pair.2 : Int) - offset))
      limit := by
  rintro bytes ⟨key, target⟩ rest -
  have readTarget := readWideTarget_inverts length offset
  simp only [bind_eq_ok_iff, i32_eq_ok_iff, pure_eq_ok_iff, List.append_assoc]
  constructor
  · rintro ⟨_, _, rfl, _, _, targetRead, same, rfl⟩
    cases same
    obtain ⟨reach, rfl⟩ := (readTarget _ _ _ _ (Nat.le_refl _)).mp targetRead
    exact ⟨reach, rfl⟩
  · rintro ⟨reach, rfl⟩
    exact ⟨key, _, rfl, target, rest, (readTarget _ _ _ _ (Nat.le_refl _)).mpr ⟨reach, rfl⟩, rfl,
      rfl⟩

theorem readLookupSwitch_eq_ok_iff {length offset : Nat} {bytes rest : Bytes}
    {operands : Operands} :
    readLookupSwitch length offset bytes = .ok (operands, rest) ↔
      ∃ default pairs padding, operands = .lookupSwitch default pairs ∧ pairs.length < 2 ^ 31 ∧
        (InReach length offset 31 default ∧ ∀ pair ∈ pairs, InReach length offset 31 pair.2) ∧
        padding.length = switchPadding offset ∧
        bytes =
          Instruction.operandBytes padding ⟨offset, Opcode.lookupswitch, operands⟩ ++ rest := by
  have readTarget := readWideTarget_inverts length offset
  have readPair := readPair_inverts length offset
  simp only [readLookupSwitch, bind_eq_ok_iff, discard_eq_ok_iff, take_eq_ok_iff, i32_eq_ok_iff,
    refuse_eq_ok_iff, ensure_eq_ok_iff, pure_eq_ok_iff]
  constructor
  · rintro ⟨_, _, ⟨padding, padded, rfl⟩, default, _, defaultRead, count, _, rfl, negative, _, _,
      ⟨-, rfl⟩, pairs, _, pairsRead, rfl, rfl⟩
    obtain ⟨defaultReach, rfl⟩ := (readTarget _ _ _ _ (Nat.le_refl _)).mp defaultRead
    obtain ⟨⟨counted, pairsReach⟩, rfl⟩ :=
      (many_eq_ok_iff (readPair _) (Nat.le_refl _)).mp pairsRead
    have small := count.toInt_lt
    have word : UInt32.ofNat pairs.length = count.toUInt32 := by
      rw [← BigEndian.ofInt_toInt32, ← BigEndian.ofInt_natCast, counted,
        Int.toNat_of_nonneg (Int.not_lt.mp negative)]
    refine ⟨default, pairs, padding, rfl, by omega, ⟨defaultReach, pairsReach⟩, padded, ?_⟩
    simp only [Instruction.operandBytes, List.append_assoc, word]
  · rintro ⟨default, pairs, padding, rfl, small, ⟨defaultReach, pairsReach⟩, padded, rfl⟩
    have count : (Int32.ofInt pairs.length).toInt = pairs.length :=
      Int32.toInt_ofInt_of_le (by omega) (by omega)
    have word : UInt32.ofNat pairs.length = (Int32.ofInt pairs.length).toUInt32 := by
      rw [← BigEndian.ofInt_toInt32, count, BigEndian.ofInt_natCast]
    have enough : 8 * (Int32.ofInt pairs.length).toInt.toNat ≤
        ((pairs.flatMap fun pair => BigEndian.word32 pair.1.toUInt32 ++
          BigEndian.signed32 ((pair.2 : Int) - offset)) ++ rest).length := by
      rw [List.length_append, Instruction.length_rows _ 8 (fun _ => rfl), count, Int.toNat_natCast]
      exact Nat.le_add_right _ _
    simp only [Instruction.operandBytes, List.append_assoc, word]
    exact ⟨(), _, ⟨padding, padded, rfl⟩, default, _,
      (readTarget _ _ _ _ (Nat.le_refl _)).mpr ⟨defaultReach, rfl⟩, _, _, rfl, by omega, (), _,
      ⟨enough, rfl⟩, pairs, rest,
      (many_eq_ok_iff (readPair _) (Nat.le_refl _)).mpr ⟨⟨by omega, pairsReach⟩, rfl⟩, rfl, rfl⟩

/-- Operands can be read exactly if they suit the opcode and reach their targets, from what they are
written as behind any padding. -/
def Readable (length : Nat) (instruction : Instruction) (bytes rest : Bytes) : Prop :=
  (instruction.operands.Suits instruction.opcode ∧ instruction.Reaches length) ∧
    ∃ padding : Bytes, padding.length = switchPadding instruction.offset ∧
      bytes = instruction.operandBytes padding ++ rest

theorem reaches_iff_of_short {length : Nat} {instruction : Instruction}
    (short : Opcode.isShortBranch instruction.opcode = true) :
    instruction.Reaches length ↔
      ∀ target ∈ instruction.targets, InReach length instruction.offset 15 target := by
  rw [Instruction.Reaches, Instruction.displacementBits, short, if_pos rfl]

theorem reaches_iff_of_far {length : Nat} {instruction : Instruction}
    (far : Opcode.isShortBranch instruction.opcode = false) :
    instruction.Reaches length ↔
      ∀ target ∈ instruction.targets, InReach length instruction.offset 31 target := by
  rw [Instruction.Reaches, Instruction.displacementBits, far, if_neg Bool.false_ne_true]

theorem readable_of_readOperands {length offset : Nat} {opcode : UInt8} {bytes rest : Bytes}
    {operands : Operands} (read : readOperands length offset opcode bytes = .ok (operands, rest)) :
    Readable length ⟨offset, opcode, operands⟩ bytes rest := by
  have unpadded : (List.replicate (switchPadding offset) (0 : UInt8)).length =
      switchPadding offset := List.length_replicate
  cases short : Opcode.isShortBranch opcode with
  | true =>
    have narrow := Opcode.not_isWideBranch_of_isShortBranch short
    simp only [readOperands, short, if_true, bind_eq_ok_iff, pure_eq_ok_iff] at read
    obtain ⟨target, _, targetRead, rfl, rfl⟩ := read
    obtain ⟨reach, rfl⟩ := (readShortTarget_inverts _ _ _ _ _ _ (Nat.le_refl _)).mp targetRead
    refine ⟨⟨.inl short, (reaches_iff_of_short short).mpr ?_⟩, _, unpadded, ?_⟩
    · exact List.forall_mem_singleton.mpr reach
    · simp only [Instruction.operandBytes, narrow, Bool.false_eq_true, if_false]
  | false =>
    cases wide : Opcode.isWideBranch opcode with
    | true =>
      simp only [readOperands, short, wide, Bool.false_eq_true, if_false, if_true, bind_eq_ok_iff,
        pure_eq_ok_iff] at read
      obtain ⟨target, _, targetRead, rfl, rfl⟩ := read
      obtain ⟨reach, rfl⟩ := (readWideTarget_inverts _ _ _ _ _ _ (Nat.le_refl _)).mp targetRead
      refine ⟨⟨.inr wide, (reaches_iff_of_far short).mpr ?_⟩, _, unpadded, ?_⟩
      · exact List.forall_mem_singleton.mpr reach
      · simp only [Instruction.operandBytes, wide, if_true]
    | false =>
      by_cases table : opcode = Opcode.tableswitch
      · subst table
        obtain ⟨default, low, high, targets, padding, rfl, bounds, ⟨defaultReach, targetsReach⟩,
          padded, rfl⟩ := readTableSwitch_eq_ok_iff.mp read
        refine ⟨⟨⟨rfl, bounds⟩, (reaches_iff_of_far short).mpr ?_⟩, padding, padded, rfl⟩
        exact List.forall_mem_cons.mpr ⟨defaultReach, targetsReach⟩
      by_cases lookup : opcode = Opcode.lookupswitch
      · subst lookup
        obtain ⟨default, pairs, padding, rfl, small, ⟨defaultReach, pairsReach⟩, padded, rfl⟩ :=
          readLookupSwitch_eq_ok_iff.mp read
        refine ⟨⟨⟨rfl, small⟩, (reaches_iff_of_far short).mpr ?_⟩, padding, padded, rfl⟩
        exact List.forall_mem_cons.mpr ⟨defaultReach, List.forall_mem_map.mpr pairsReach⟩
      obtain ⟨taken, rfl, plain, rfl⟩ := (readPlain_eq_ok_iff short wide table lookup).mp read
      exact ⟨⟨plain, List.forall_mem_nil _⟩, _, unpadded, rfl⟩

theorem readOperands_of_readable {length offset : Nat} {opcode : UInt8} {bytes rest : Bytes}
    {operands : Operands} (readable : Readable length ⟨offset, opcode, operands⟩ bytes rest) :
    readOperands length offset opcode bytes = .ok (operands, rest) := by
  obtain ⟨⟨suits, reaches⟩, padding, padded, rfl⟩ := readable
  cases operands with
  | plain taken =>
    have plain : IsPlain opcode taken := suits
    exact (readPlain_eq_ok_iff plain.1 plain.2.1 plain.2.2.1 plain.2.2.2.1).mpr
      ⟨taken, rfl, plain, rfl⟩
  | branch target =>
    cases short : Opcode.isShortBranch opcode with
    | true =>
      have narrow := Opcode.not_isWideBranch_of_isShortBranch short
      have reach := List.forall_mem_singleton.mp ((reaches_iff_of_short short).mp reaches)
      simp only [readOperands, short, if_true, bind_eq_ok_iff, pure_eq_ok_iff,
        Instruction.operandBytes, narrow, Bool.false_eq_true, if_false]
      exact ⟨target, rest,
        (readShortTarget_inverts _ _ _ _ _ _ (Nat.le_refl _)).mpr ⟨reach, rfl⟩, rfl, rfl⟩
    | false =>
      have wide : Opcode.isWideBranch opcode = true :=
        suits.resolve_left (Bool.eq_false_iff.mp short)
      have reach := List.forall_mem_singleton.mp ((reaches_iff_of_far short).mp reaches)
      simp only [readOperands, short, wide, Bool.false_eq_true, if_false, if_true, bind_eq_ok_iff,
        pure_eq_ok_iff, Instruction.operandBytes]
      exact ⟨target, rest,
        (readWideTarget_inverts _ _ _ _ _ _ (Nat.le_refl _)).mpr ⟨reach, rfl⟩, rfl, rfl⟩
  | tableSwitch default low high targets =>
    obtain ⟨rfl, bounds⟩ := suits
    have reach := List.forall_mem_cons.mp ((reaches_iff_of_far rfl).mp reaches)
    exact readTableSwitch_eq_ok_iff.mpr
      ⟨default, low, high, targets, padding, rfl, bounds, reach, padded, rfl⟩
  | lookupSwitch default pairs =>
    obtain ⟨rfl, small⟩ := suits
    have reach := List.forall_mem_cons.mp ((reaches_iff_of_far rfl).mp reaches)
    exact readLookupSwitch_eq_ok_iff.mpr
      ⟨default, pairs, padding, rfl, small, ⟨reach.1, List.forall_mem_map.mp reach.2⟩, padded, rfl⟩

end Code

end JavaClass
