/-
What a code array consists of, said without a decoder. Instructions lie one behind the other from
the first byte to the last, each as far behind the one before as that is long; the bytes of each are
its opcode and what belongs behind that opcode; and every target is where one of them begins. How an
instruction is spelt is said form by form, and displacements are the numbers they are: a target is
where the instruction stands, plus the displacement that is stored.

Decoding succeeds exactly if there are such instructions, and there is never more than one way to
cut a code array into them. In particular the length that an instruction is given, from which the
next offset is counted, is the number of bytes that it is read from.
-/

import JavaClass.Proofs.Code.Decoding
import JavaClass.Proofs.Row

namespace JavaClass

namespace Opcode

/-- Whether what stands behind an opcode is not just a fixed number of bytes. -/
def HasOwnForm (opcode : UInt8) : Prop :=
  isShortBranch opcode = true ∨ isWideBranch opcode = true ∨ opcode = tableswitch ∨
    opcode = lookupswitch ∨ opcode = wide

instance (opcode : UInt8) : Decidable (HasOwnForm opcode) :=
  inferInstanceAs (Decidable (_ ∨ _))

theorem isSome_mnemonic?_of_hasOwnForm {opcode : UInt8} (form : HasOwnForm opcode) :
    (mnemonic? opcode).isSome = true := by
  have listed : ∀ number : Fin 256, HasOwnForm (UInt8.ofNat number) →
      (mnemonic? (UInt8.ofNat number)).isSome = true := by
    decide +kernel
  have here := listed ⟨opcode.toNat, opcode.toNat_lt⟩
  rw [UInt8.ofNat_toNat] at here
  exact here form

end Opcode

namespace Code

/-! ### How an instruction is spelt -/

/-- The bytes of a displacement of sixteen bits from one offset to another. -/
def LeadsNear (offset target : Nat) (bytes : Bytes) : Prop :=
  ∃ displacement : Int16, (target : Int) = offset + displacement.toInt ∧
    bytes = BigEndian.word16 displacement.toUInt16

/-- The bytes of a displacement of thirty-two bits from one offset to another. -/
def LeadsFar (offset target : Nat) (bytes : Bytes) : Prop :=
  ∃ displacement : Int32, (target : Int) = offset + displacement.toInt ∧
    bytes = BigEndian.word32 displacement.toUInt32

/-- The bytes of a key and of the displacement that goes with it. -/
def PairLeadsFar (offset : Nat) (pair : Int32 × Nat) (bytes : Bytes) : Prop :=
  ∃ displacement, LeadsFar offset pair.2 displacement ∧
    bytes = BigEndian.word32 pair.1.toUInt32 ++ displacement

/-- The bytes behind the opcode of an instruction at an offset. -/
inductive Spells (offset : Nat) : UInt8 → Operands → Bytes → Prop
  | fixed {opcode : UInt8} {bytes : Bytes} (ordinary : ¬Opcode.HasOwnForm opcode)
      (counted : Opcode.operandLength? opcode = some bytes.length) :
      Spells offset opcode (.plain bytes) bytes
  /-- A wide form is the widened opcode and an index of two bytes. -/
  | wideIndex {widened : UInt8} {index : Bytes}
      (load : Opcode.iload ≤ widened ∧ widened ≤ Opcode.aload ∨
        Opcode.istore ≤ widened ∧ widened ≤ Opcode.astore ∨ widened = Opcode.ret)
      (counted : index.length = 2) :
      Spells offset Opcode.wide (.plain (widened :: index)) (widened :: index)
  /-- The wide form of `iinc` has a constant of two bytes as well. -/
  | wideIncrement {bytes : Bytes} (counted : bytes.length = 4) :
      Spells offset Opcode.wide (.plain (Opcode.iinc :: bytes)) (Opcode.iinc :: bytes)
  | shortBranch {opcode : UInt8} {target : Nat} {bytes : Bytes}
      (short : Opcode.isShortBranch opcode = true) (leads : LeadsNear offset target bytes) :
      Spells offset opcode (.branch target) bytes
  | wideBranch {opcode : UInt8} {target : Nat} {bytes : Bytes}
      (wide : Opcode.isWideBranch opcode = true) (leads : LeadsFar offset target bytes) :
      Spells offset opcode (.branch target) bytes
  | tableSwitch {padding toDefault : Bytes} {default : Nat} {low high : Int32}
      {targets : List Nat} {rows : List Bytes} (padded : padding.length = switchPadding offset)
      (first : LeadsFar offset default toDefault) (ordered : low.toInt ≤ high.toInt)
      (counted : (targets.length : Int) = high.toInt - low.toInt + 1)
      (others : List.Forall₂ (LeadsFar offset) targets rows) :
      Spells offset Opcode.tableswitch (.tableSwitch default low high targets)
        (padding ++ toDefault ++ BigEndian.word32 low.toUInt32 ++ BigEndian.word32 high.toUInt32 ++
          rows.flatten)
  | lookupSwitch {padding toDefault : Bytes} {default : Nat} {count : Int32}
      {pairs : List (Int32 × Nat)} {rows : List Bytes}
      (padded : padding.length = switchPadding offset)
      (first : LeadsFar offset default toDefault)
      (counted : (pairs.length : Int) = count.toInt)
      (others : List.Forall₂ (PairLeadsFar offset) pairs rows) :
      Spells offset Opcode.lookupswitch (.lookupSwitch default pairs)
        (padding ++ toDefault ++ BigEndian.word32 count.toUInt32 ++ rows.flatten)

/-! ### Displacements -/

/-- Whether a displacement of so many bits and a sign leads from one offset to another. -/
def Near (offset bits target : Nat) : Prop :=
  -2 ^ bits ≤ (target : Int) - offset ∧ (target : Int) - offset < 2 ^ bits

theorem leadsNear_iff {offset target : Nat} {bytes : Bytes} :
    LeadsNear offset target bytes ↔
      Near offset 15 target ∧ bytes = BigEndian.signed16 ((target : Int) - offset) := by
  constructor
  · rintro ⟨displacement, leads, rfl⟩
    have low := displacement.le_toInt
    have high := displacement.toInt_lt
    have distance : (target : Int) - offset = displacement.toInt := by omega
    rw [Near, distance, BigEndian.signed16, BigEndian.ofInt_toInt16]
    exact ⟨⟨low, high⟩, rfl⟩
  · rintro ⟨⟨low, high⟩, rfl⟩
    have kept := Int16.toInt_ofInt_of_le low high
    refine ⟨.ofInt ((target : Int) - offset), by omega, ?_⟩
    rw [BigEndian.signed16, ← BigEndian.ofInt_toInt16, kept]

theorem leadsFar_iff {offset target : Nat} {bytes : Bytes} :
    LeadsFar offset target bytes ↔
      Near offset 31 target ∧ bytes = BigEndian.signed32 ((target : Int) - offset) := by
  constructor
  · rintro ⟨displacement, leads, rfl⟩
    have low := displacement.le_toInt
    have high := displacement.toInt_lt
    have distance : (target : Int) - offset = displacement.toInt := by omega
    rw [Near, distance, BigEndian.signed32, BigEndian.ofInt_toInt32]
    exact ⟨⟨low, high⟩, rfl⟩
  · rintro ⟨⟨low, high⟩, rfl⟩
    have kept := Int32.toInt_ofInt_of_le low high
    refine ⟨.ofInt ((target : Int) - offset), by omega, ?_⟩
    rw [BigEndian.signed32, ← BigEndian.ofInt_toInt32, kept]

theorem pairLeadsFar_iff {offset : Nat} {pair : Int32 × Nat} {bytes : Bytes} :
    PairLeadsFar offset pair bytes ↔
      Near offset 31 pair.2 ∧
        bytes = BigEndian.word32 pair.1.toUInt32 ++
          BigEndian.signed32 ((pair.2 : Int) - offset) := by
  simp only [PairLeadsFar, leadsFar_iff]
  constructor
  · rintro ⟨_, ⟨near, rfl⟩, rfl⟩
    exact ⟨near, rfl⟩
  · rintro ⟨near, rfl⟩
    exact ⟨_, ⟨near, rfl⟩, rfl⟩

theorem forall₂_leadsFar_iff {offset : Nat} {targets : List Nat} {rows : List Bytes} :
    List.Forall₂ (LeadsFar offset) targets rows ↔
      (∀ target ∈ targets, Near offset 31 target) ∧
        rows = targets.map fun target : Nat => BigEndian.signed32 ((target : Int) - offset) :=
  forall₂_iff_eq_map fun _ _ => leadsFar_iff

theorem forall₂_pairLeadsFar_iff {offset : Nat} {pairs : List (Int32 × Nat)} {rows : List Bytes} :
    List.Forall₂ (PairLeadsFar offset) pairs rows ↔
      (∀ pair ∈ pairs, Near offset 31 pair.2) ∧
        rows = pairs.map fun pair =>
          BigEndian.word32 pair.1.toUInt32 ++ BigEndian.signed32 ((pair.2 : Int) - offset) :=
  forall₂_iff_eq_map fun _ _ => pairLeadsFar_iff

/-! ### One instruction -/

theorem spells_plain_iff {offset : Nat} {opcode : UInt8} {taken bytes : Bytes} :
    Spells offset opcode (.plain taken) bytes ↔ IsPlain opcode taken ∧ bytes = taken := by
  constructor
  · intro spells
    cases spells with
    | fixed ordinary counted =>
      simp only [Opcode.HasOwnForm, not_or, Bool.not_eq_true] at ordinary
      obtain ⟨short, wide, table, lookup, form⟩ := ordinary
      refine ⟨⟨short, wide, table, lookup, ?_⟩, rfl⟩
      rw [if_neg form]
      exact counted
    | @wideIndex widened index load counted =>
      refine ⟨⟨rfl, rfl, by decide, by decide, ?_⟩, rfl⟩
      rw [if_pos rfl]
      refine ⟨widened, index, rfl, ?_, ?_⟩
      · simp only [Opcode.isWidenable, Bool.or_eq_true, Bool.and_eq_true, decide_eq_true_eq,
          beq_iff_eq]
        exact .inl (or_assoc.mpr load)
      · rw [if_neg, counted]
        rintro rfl
        revert load
        decide
    | wideIncrement counted =>
      refine ⟨⟨rfl, rfl, by decide, by decide, ?_⟩, rfl⟩
      rw [if_pos rfl]
      exact ⟨Opcode.iinc, _, rfl, rfl, counted⟩
  · rintro ⟨⟨short, wide, table, lookup, form⟩, rfl⟩
    by_cases isWide : opcode = Opcode.wide
    · subst isWide
      rw [if_pos rfl] at form
      obtain ⟨widened, index, rfl, widenable, counted⟩ := form
      by_cases increment : widened = Opcode.iinc
      · subst increment
        exact .wideIncrement counted
      · rw [if_neg increment] at counted
        simp only [Opcode.isWidenable, Bool.or_eq_true, Bool.and_eq_true, decide_eq_true_eq,
          beq_iff_eq] at widenable
        exact .wideIndex (or_assoc.mp (widenable.resolve_right increment)) counted
    · rw [if_neg isWide] at form
      refine .fixed ?_ form
      simp only [Opcode.HasOwnForm, not_or, Bool.not_eq_true]
      exact ⟨short, wide, table, lookup, isWide⟩

theorem spells_tableSwitch_iff {offset default : Nat} {opcode : UInt8} {low high : Int32}
    {targets : List Nat} {bytes : Bytes} :
    Spells offset opcode (.tableSwitch default low high targets) bytes ↔
      (Operands.tableSwitch default low high targets).Suits opcode ∧
        (Near offset 31 default ∧ ∀ target ∈ targets, Near offset 31 target) ∧
        ∃ padding, padding.length = switchPadding offset ∧
          bytes = Instruction.operandBytes padding
            ⟨offset, opcode, .tableSwitch default low high targets⟩ := by
  constructor
  · intro spells
    cases spells with
    | @tableSwitch padding _ _ _ _ _ rows padded first ordered counted others =>
      obtain ⟨nearFirst, rfl⟩ := leadsFar_iff.mp first
      obtain ⟨nearOthers, rfl⟩ := forall₂_leadsFar_iff.mp others
      refine ⟨⟨rfl, ordered, counted⟩, ⟨nearFirst, nearOthers⟩, padding, padded, ?_⟩
      simp only [Instruction.operandBytes, List.append_assoc, List.flatMap]
  · rintro ⟨⟨rfl, ordered, counted⟩, ⟨nearFirst, nearOthers⟩, padding, padded, rfl⟩
    have spells := Spells.tableSwitch padded (leadsFar_iff.mpr ⟨nearFirst, rfl⟩) ordered counted
      (forall₂_leadsFar_iff.mpr ⟨nearOthers, rfl⟩)
    simpa only [Instruction.operandBytes, List.append_assoc, List.flatMap] using spells

theorem spells_lookupSwitch_iff {offset default : Nat} {opcode : UInt8}
    {pairs : List (Int32 × Nat)} {bytes : Bytes} :
    Spells offset opcode (.lookupSwitch default pairs) bytes ↔
      (Operands.lookupSwitch default pairs).Suits opcode ∧
        (Near offset 31 default ∧ ∀ pair ∈ pairs, Near offset 31 pair.2) ∧
        ∃ padding, padding.length = switchPadding offset ∧
          bytes = Instruction.operandBytes padding
            ⟨offset, opcode, .lookupSwitch default pairs⟩ := by
  constructor
  · intro spells
    cases spells with
    | @lookupSwitch padding _ _ count _ rows padded first counted others =>
      obtain ⟨nearFirst, rfl⟩ := leadsFar_iff.mp first
      obtain ⟨nearOthers, rfl⟩ := forall₂_pairLeadsFar_iff.mp others
      have small := count.toInt_lt
      have word : UInt32.ofNat pairs.length = count.toUInt32 := by
        rw [← BigEndian.ofInt_toInt32, ← counted, BigEndian.ofInt_natCast]
      refine ⟨⟨rfl, by omega⟩, ⟨nearFirst, nearOthers⟩, padding, padded, ?_⟩
      simp only [Instruction.operandBytes, List.append_assoc, List.flatMap, word]
  · rintro ⟨⟨rfl, small⟩, ⟨nearFirst, nearOthers⟩, padding, padded, rfl⟩
    have count : (Int32.ofInt pairs.length).toInt = pairs.length :=
      Int32.toInt_ofInt_of_le (by omega) (by omega)
    have word : UInt32.ofNat pairs.length = (Int32.ofInt pairs.length).toUInt32 := by
      rw [← BigEndian.ofInt_toInt32, count, BigEndian.ofInt_natCast]
    have spells := Spells.lookupSwitch padded (leadsFar_iff.mpr ⟨nearFirst, rfl⟩) count.symm
      (forall₂_pairLeadsFar_iff.mpr ⟨nearOthers, rfl⟩)
    simpa only [Instruction.operandBytes, List.append_assoc, List.flatMap, word] using spells

theorem spells_branch_iff {offset target : Nat} {opcode : UInt8} {bytes : Bytes} :
    Spells offset opcode (.branch target) bytes ↔
      (Operands.branch target).Suits opcode ∧
        Near offset (Instruction.displacementBits ⟨offset, opcode, .branch target⟩) target ∧
        bytes = Instruction.operandBytes [] ⟨offset, opcode, .branch target⟩ := by
  constructor
  · intro spells
    cases spells with
    | shortBranch short leads =>
      obtain ⟨near, rfl⟩ := leadsNear_iff.mp leads
      refine ⟨.inl short, ?_, ?_⟩
      · rwa [Instruction.displacementBits, if_pos short]
      · simp only [Instruction.operandBytes, Opcode.not_isWideBranch_of_isShortBranch short,
          Bool.false_eq_true, if_false]
    | wideBranch wide leads =>
      have far := Opcode.not_isShortBranch_of_isWideBranch wide
      obtain ⟨near, rfl⟩ := leadsFar_iff.mp leads
      refine ⟨.inr wide, ?_, ?_⟩
      · rwa [Instruction.displacementBits, if_neg (Bool.eq_false_iff.mp far)]
      · simp only [Instruction.operandBytes, wide, if_true]
  · rintro ⟨suits, near, rfl⟩
    rcases suits with short | wide
    · rw [Instruction.displacementBits, if_pos short] at near
      refine .shortBranch short (leadsNear_iff.mpr ⟨near, ?_⟩)
      simp only [Instruction.operandBytes, Opcode.not_isWideBranch_of_isShortBranch short,
        Bool.false_eq_true, if_false]
    · have far := Opcode.not_isShortBranch_of_isWideBranch wide
      rw [Instruction.displacementBits, if_neg (Bool.eq_false_iff.mp far)] at near
      refine .wideBranch wide (leadsFar_iff.mpr ⟨near, ?_⟩)
      simp only [Instruction.operandBytes, wide, if_true]

/-- An instruction is spelt as it is written, behind any padding, if its operands suit its opcode
and its targets are near enough. -/
theorem spells_iff {instruction : Instruction} {bytes : Bytes} :
    Spells instruction.offset instruction.opcode instruction.operands bytes ↔
      instruction.operands.Suits instruction.opcode ∧
        (∀ target ∈ instruction.targets,
          Near instruction.offset instruction.displacementBits target) ∧
        ∃ padding : Bytes, padding.length = switchPadding instruction.offset ∧
          bytes = instruction.operandBytes padding := by
  obtain ⟨offset, opcode, operands⟩ := instruction
  have unpadded : (List.replicate (switchPadding offset) (0 : UInt8)).length =
      switchPadding offset := List.length_replicate
  cases operands with
  | plain taken =>
    refine spells_plain_iff.trans (and_congr_right fun _ => ?_)
    constructor
    · intro same
      exact ⟨List.forall_mem_nil _, _, unpadded, same⟩
    · rintro ⟨-, _, -, same⟩
      exact same
  | branch target =>
    refine spells_branch_iff.trans (and_congr_right fun _ => ?_)
    refine and_congr List.forall_mem_singleton.symm ?_
    constructor
    · intro same
      exact ⟨_, unpadded, same⟩
    · rintro ⟨_, -, same⟩
      exact same
  | tableSwitch default low high targets =>
    refine spells_tableSwitch_iff.trans (and_congr_right fun suits => and_congr_left fun _ => ?_)
    obtain rfl : opcode = Opcode.tableswitch := suits.1
    exact List.forall_mem_cons.symm
  | lookupSwitch default pairs =>
    refine spells_lookupSwitch_iff.trans (and_congr_right fun suits => and_congr_left fun _ => ?_)
    obtain rfl : opcode = Opcode.lookupswitch := suits.1
    exact (and_congr_right fun _ => List.forall_mem_map.symm).trans List.forall_mem_cons.symm

/-- Operands can be read exactly if what is read off the front spells them and every target is
inside the code. -/
theorem readable_iff_spells {length : Nat} {instruction : Instruction} {bytes rest : Bytes} :
    Readable length instruction bytes rest ↔
      (∀ target ∈ instruction.targets, target < length) ∧
        ∃ own, Spells instruction.offset instruction.opcode instruction.operands own ∧
          bytes = own ++ rest := by
  simp only [spells_iff]
  constructor
  · rintro ⟨⟨suits, reaches⟩, padding, padded, rfl⟩
    exact ⟨fun target member => (reaches target member).1, _,
      ⟨suits, fun target member => (reaches target member).2, padding, padded, rfl⟩, rfl⟩
  · rintro ⟨inside, _, ⟨suits, near, padding, padded, rfl⟩, rfl⟩
    exact ⟨⟨suits, fun target member => ⟨inside target member, near target member⟩⟩, padding,
      padded, rfl⟩

/-- An instruction is as long as it is said to be where it stands. -/
theorem Spells.length_eq {instruction : Instruction} {bytes : Bytes}
    (spells : Spells instruction.offset instruction.opcode instruction.operands bytes) :
    (instruction.opcode :: bytes).length = instruction.lengthAt instruction.offset := by
  obtain ⟨-, -, padding, padded, rfl⟩ := spells_iff.mp spells
  exact Instruction.length_operandBytes padded

/-- Only opcodes of the table are spelt. -/
theorem Spells.isSome_mnemonic? {offset : Nat} {opcode : UInt8} {operands : Operands}
    {bytes : Bytes} (spells : Spells offset opcode operands bytes) :
    (Opcode.mnemonic? opcode).isSome = true := by
  cases spells with
  | fixed _ counted =>
    rw [Opcode.operandLength?, Option.map_eq_some_iff] at counted
    obtain ⟨row, found, -⟩ := counted
    rw [Opcode.mnemonic?, found]
    rfl
  | shortBranch short => exact Opcode.isSome_mnemonic?_of_hasOwnForm (.inl short)
  | wideBranch wide => exact Opcode.isSome_mnemonic?_of_hasOwnForm (.inr (.inl wide))
  | wideIndex | wideIncrement | tableSwitch | lookupSwitch =>
    exact Opcode.isSome_mnemonic?_of_hasOwnForm (by decide)

/-! ### All instructions -/

/-- Instructions one behind the other from one offset to another, each as far behind the one before
as that is long. -/
inductive Consecutive (stop : Nat) : Nat → List Instruction → Prop
  | nil : Consecutive stop stop []
  | cons {instruction : Instruction} {later : List Instruction}
      (behind : Consecutive stop
        (instruction.offset + instruction.lengthAt instruction.offset) later) :
      Consecutive stop instruction.offset (instruction :: later)

/-- Whether the bytes of a code array from an instruction on, as many as it is long, are its opcode
and what that is to be followed by. -/
def SpeltIn (code : Bytes) (instruction : Instruction) : Prop :=
  ∃ bytes, Spells instruction.offset instruction.opcode instruction.operands bytes ∧
    (code.drop instruction.offset).take (instruction.lengthAt instruction.offset) =
      instruction.opcode :: bytes

/-- What a code array consists of: instructions from its first byte to its last, each of a known
opcode and spelt where it stands, every target of which is the beginning of one of them. -/
structure Disassembles (code : Bytes) (instructions : List Instruction) : Prop where
  row : Consecutive code.length 0 instructions
  known : ∀ instruction ∈ instructions, (Opcode.mnemonic? instruction.opcode).isSome = true
  spelt : ∀ instruction ∈ instructions, SpeltIn code instruction
  closed : Closed instructions

theorem Consecutive.bounds {stop offset : Nat} {instructions : List Instruction}
    (row : Consecutive stop offset instructions) :
    offset ≤ stop ∧ ∀ instruction ∈ instructions, instruction.offset < stop := by
  induction row with
  | nil => exact ⟨Nat.le_refl _, List.forall_mem_nil _⟩
  | @cons instruction later _ inductionHypothesis =>
    obtain ⟨within, inside⟩ := inductionHypothesis
    have positive := lengthAt_pos instruction instruction.offset
    exact ⟨by omega, List.forall_mem_cons.mpr ⟨by omega, inside⟩⟩

/-- Instructions that were read from what is left of a code array are consecutive up to its end, and
spelt where they stand. -/
theorem consecutive_of_tiles {code : Bytes} {length offset : Nat} {bytes : Bytes}
    {instructions : List Instruction} (tiles : Tiles length offset bytes instructions)
    (left : code.drop offset = bytes) (within : offset ≤ code.length) :
    Consecutive code.length offset instructions ∧
      ∀ instruction ∈ instructions, SpeltIn code instruction := by
  induction tiles with
  | nil =>
    rw [Nat.le_antisymm within (List.drop_eq_nil_iff.mp left)]
    exact ⟨.nil, List.forall_mem_nil _⟩
  | @cons instruction bytes rest later readable _ inductionHypothesis =>
    obtain ⟨-, own, spells, rfl⟩ := readable_iff_spells.mp readable
    have split : code.drop instruction.offset = (instruction.opcode :: own) ++ rest := left
    have length : (instruction.opcode :: own).length = instruction.length := spells.length_eq
    have behind : code.drop (instruction.offset + instruction.length) = rest := by
      rw [← List.drop_drop, split, ← length, List.drop_left]
    have fits : instruction.offset + instruction.length ≤ code.length := by
      have counted := congrArg List.length split
      rw [List.length_drop, List.length_append, length] at counted
      omega
    obtain ⟨row, spelt⟩ := inductionHypothesis behind fits
    refine ⟨.cons row, List.forall_mem_cons.mpr ⟨⟨own, spells, ?_⟩, spelt⟩⟩
    rw [split, ← spells.length_eq, List.take_left]

theorem tiles_of_consecutive {code : Bytes} {offset : Nat} {instructions : List Instruction}
    (row : Consecutive code.length offset instructions)
    (spelt : ∀ instruction ∈ instructions, SpeltIn code instruction)
    (inside : ∀ instruction ∈ instructions, ∀ target ∈ instruction.targets, target < code.length) :
    Tiles code.length offset (code.drop offset) instructions := by
  induction row with
  | nil =>
    rw [List.drop_length]
    exact .nil
  | @cons instruction later _ inductionHypothesis =>
    obtain ⟨⟨own, spells, here⟩, speltLater⟩ := List.forall_mem_cons.mp spelt
    obtain ⟨insideHere, insideLater⟩ := List.forall_mem_cons.mp inside
    rw [← List.take_append_drop (instruction.lengthAt instruction.offset)
      (code.drop instruction.offset), here, List.drop_drop]
    exact .cons (readable_iff_spells.mpr ⟨insideHere, own, spells, rfl⟩)
      (inductionHypothesis speltLater insideLater)

theorem decode_eq_ok_iff_disassembles {code : Bytes} {instructions : List Instruction} :
    decode code = .ok instructions ↔ Disassembles code instructions := by
  rw [decode_eq_ok_iff]
  constructor
  · rintro ⟨tiles, closed⟩
    obtain ⟨row, spelt⟩ := consecutive_of_tiles tiles List.drop_zero (Nat.zero_le _)
    refine ⟨row, fun instruction member => ?_, spelt, closed⟩
    obtain ⟨own, spells, -⟩ := spelt instruction member
    exact spells.isSome_mnemonic?
  · rintro ⟨row, -, spelt, closed⟩
    refine ⟨tiles_of_consecutive row spelt fun instruction member target isTarget => ?_, closed⟩
    obtain ⟨other, otherMember, rfl⟩ := closed instruction member target isTarget
    exact row.bounds.2 other otherMember

/-- Decoding succeeds with instructions exactly if they are what a code array consists of, and no
code array consists of two different rows of instructions. -/
theorem decode_exact (code : Bytes) :
    (∀ instructions, decode code = .ok instructions ↔ Disassembles code instructions) ∧
      ∀ first second, Disassembles code first → Disassembles code second → first = second := by
  refine ⟨fun instructions => decode_eq_ok_iff_disassembles, fun first second one other => ?_⟩
  have decodedOne := decode_eq_ok_iff_disassembles.mpr one
  have decodedOther := decode_eq_ok_iff_disassembles.mpr other
  exact Except.ok.inj (decodedOne.symm.trans decodedOther)

/-- A switch that is padded with other bytes than zeros, a wide form and a return. -/
def switching : Bytes :=
  [0xAA, 7, 7, 7, 0, 0, 0, 24, 0, 0, 0, 5, 0, 0, 0, 5, 0, 0, 0, 20, 0xC4, 0x15, 1, 0, 0xB1]

theorem decode_exact_switching :
    Disassembles switching [⟨0, 0xAA, .tableSwitch 24 5 5 [20]⟩, ⟨20, 0xC4, .plain [0x15, 1, 0]⟩,
        ⟨24, 0xB1, .plain []⟩] ∧
      ∀ others, Disassembles switching others →
        others = [⟨0, 0xAA, .tableSwitch 24 5 5 [20]⟩, ⟨20, 0xC4, .plain [0x15, 1, 0]⟩,
          ⟨24, 0xB1, .plain []⟩] := by
  have decoded : decode switching = .ok [⟨0, 0xAA, .tableSwitch 24 5 5 [20]⟩,
      ⟨20, 0xC4, .plain [0x15, 1, 0]⟩, ⟨24, 0xB1, .plain []⟩] := by
    decide +kernel
  obtain ⟨exactly, unique⟩ := decode_exact switching
  have disassembles := (exactly _).mp decoded
  exact ⟨disassembles, fun others other => unique _ _ other disassembles⟩

end Code

end JavaClass
