/-
What the encoding is. Bytes are text if they can be taken apart into groups of one, two or three
bytes whose units are well-formed UTF-16, and strict reading finds exactly that text. A unit may
have groups of different lengths, all of which are read. What is written for it is the shortest of
them, so text that was written is read back, and none of its bytes is zero or begins no group; but
bytes that are read as a text need not be those that are written for it.
-/

import JavaClass.Text.ModifiedUtf8
import JavaClass.Proofs.Text.Utf16

namespace JavaClass.Text.ModifiedUtf8

/-! ### Groups -/

/-- Whether bytes are a group, and the unit that they are one of. -/
inductive Group : Bytes → UInt16 → Prop
  | one {first : UInt8} {unit : UInt16} (leads : 0x01 ≤ first.toNat ∧ first.toNat ≤ 0x7F)
      (number : unit.toNat = first.toNat) : Group [first] unit
  | two {first second : UInt8} {unit : UInt16} (leads : 0xC0 ≤ first.toNat ∧ first.toNat ≤ 0xDF)
      (goesOn : 0x80 ≤ second.toNat ∧ second.toNat ≤ 0xBF)
      (number : unit.toNat = (first.toNat - 0xC0) * 64 + (second.toNat - 0x80)) :
      Group [first, second] unit
  | three {first second third : UInt8} {unit : UInt16}
      (leads : 0xE0 ≤ first.toNat ∧ first.toNat ≤ 0xEF)
      (goesOn : 0x80 ≤ second.toNat ∧ second.toNat ≤ 0xBF)
      (ends : 0x80 ≤ third.toNat ∧ third.toNat ≤ 0xBF)
      (number : unit.toNat = (first.toNat - 0xE0) * 4096 + (second.toNat - 0x80) * 64 +
        (third.toNat - 0x80)) : Group [first, second, third] unit

/-- Whether bytes are groups one behind the other, and the units that they are groups of. -/
inductive Splits : Bytes → List UInt16 → Prop
  | nil : Splits [] []
  | cons {group rest : Bytes} {unit : UInt16} {units : List UInt16} (front : Group group unit)
      (behind : Splits rest units) : Splits (group ++ rest) (unit :: units)

/-! ### Reading -/

theorem continuation_eq_ok_iff {position : Nat} {byte : UInt8} {rest : Bytes} {bits : Nat} :
    continuation position (byte :: rest) = .ok bits ↔
      (0x80 ≤ byte.toNat ∧ byte.toNat ≤ 0xBF) ∧ byte.toNat - 0x80 = bits := by
  have within : (0x80 ≤ byte && byte < 0xC0) = true ↔ 0x80 ≤ byte.toNat ∧ byte.toNat ≤ 0xBF := by
    simp only [Bool.and_eq_true, decide_eq_true_eq, UInt8.le_iff_toNat_le, UInt8.lt_iff_toNat_lt]
    exact and_congr_right fun _ => Nat.lt_succ_iff
  simp only [continuation]
  by_cases goesOn : 0x80 ≤ byte.toNat ∧ byte.toNat ≤ 0xBF
  · rw [if_pos (within.mpr goesOn), and_iff_right goesOn, Except.ok.injEq]
  · rw [if_neg (goesOn ∘ within.mp)]
    exact iff_of_false nofun (goesOn ·.1)

theorem continuation_of_goesOn {byte : UInt8} (goesOn : 0x80 ≤ byte.toNat ∧ byte.toNat ≤ 0xBF)
    (position : Nat) (rest : Bytes) :
    continuation position (byte :: rest) = .ok (byte.toNat - 0x80) :=
  continuation_eq_ok_iff.mpr ⟨goesOn, rfl⟩

theorem cannotLead_iff {byte : UInt8} :
    (byte == 0 || 0xF0 ≤ byte) = true ↔ byte.toNat = 0 ∨ 0xF0 ≤ byte.toNat := by
  rw [Bool.or_eq_true, beq_iff_eq, decide_eq_true_eq, ← UInt8.toNat_inj, UInt8.le_iff_toNat_le]
  rfl

theorem canLead (byte : UInt8) (positive : 0 < byte.toNat) (bound : byte.toNat < 0xF0) :
    ¬(byte == 0 || 0xF0 ≤ byte) = true := by
  rw [cannotLead_iff]
  omega

section reading

variable {position : Nat} {seen units : List UInt16} {group rest bytes : Bytes} {unit : UInt16}

/-- A group in front is read as its unit. -/
theorem Group.exists_decodeUnitsFrom_eq (front : Group group unit) :
    ∃ after, decodeUnitsFrom position seen (group ++ rest) =
      decodeUnitsFrom after (unit :: seen) rest := by
  have same : UInt16.ofNat unit.toNat = unit := UInt16.ofNat_toNat
  cases front with
  | @one first _ leads number =>
    have proper := canLead first (by omega) (by omega)
    have single : first < 0x80 := Nat.lt_succ_of_le leads.2
    refine ⟨position + 1, ?_⟩
    rw [List.singleton_append, decodeUnitsFrom.eq_def]
    simp only [if_neg proper, if_pos single, ← number, same]
  | @two first second _ leads goesOn number =>
    have proper := canLead first (by omega) (by omega)
    have leading : ¬first < 0xC0 := Nat.not_lt.mpr leads.1
    have several : ¬first < 0x80 := fun single => leading (Nat.lt_trans single (by decide))
    have pair : first < 0xE0 := Nat.lt_succ_of_le leads.2
    have low := continuation_of_goesOn goesOn (position + 1) rest
    refine ⟨position + 2, ?_⟩
    show decodeUnitsFrom position seen (first :: second :: rest) = _
    rw [decodeUnitsFrom.eq_def]
    simp only [if_neg proper, if_neg several, if_neg leading, if_pos pair, low, ← number, same]
  | @three first second third _ leads goesOn ends number =>
    have proper := canLead first (by omega) (by omega)
    have more : ¬first < 0xE0 := Nat.not_lt.mpr leads.1
    have leading : ¬first < 0xC0 := fun stray => more (Nat.lt_trans stray (by decide))
    have several : ¬first < 0x80 := fun single => more (Nat.lt_trans single (by decide))
    have middle := continuation_of_goesOn goesOn (position + 1) (third :: rest)
    have low := continuation_of_goesOn ends (position + 2) rest
    refine ⟨position + 3, ?_⟩
    show decodeUnitsFrom position seen (first :: second :: third :: rest) = _
    rw [decodeUnitsFrom.eq_def]
    simp only [if_neg proper, if_neg several, if_neg leading, if_neg more, middle, low, ← number,
      same]

/-- What is read behind a group is read behind its unit. -/
theorem Group.exists_splits (front : Group group unit)
    (read : ∃ later, units = (unit :: seen).reverse ++ later ∧ Splits rest later) :
    ∃ later, units = seen.reverse ++ later ∧ Splits (group ++ rest) later := by
  obtain ⟨later, rfl, behind⟩ := read
  refine ⟨unit :: later, ?_, .cons front behind⟩
  rw [List.reverse_cons, List.append_assoc, List.singleton_append]

theorem exists_splits_of_decodeUnitsFrom (read : decodeUnitsFrom position seen bytes = .ok units) :
    ∃ later, units = seen.reverse ++ later ∧ Splits bytes later := by
  fun_induction decodeUnitsFrom position seen bytes with
  | case1 position seen =>
    obtain rfl := Except.ok.inj read
    exact ⟨[], (List.append_nil _).symm, .nil⟩
  | case3 position seen first rest proper single inductionHypothesis =>
    have leads : 0x01 ≤ first.toNat ∧ first.toNat ≤ 0x7F := by
      have below : first.toNat < 0x80 := single
      rw [cannotLead_iff] at proper
      omega
    have number : (UInt16.ofNat first.toNat).toNat = first.toNat :=
      Utf16.toNat_ofNat_of_lt (by omega)
    exact (Group.one leads number).exists_splits (inductionHypothesis read)
  | case6 position seen first _ _ leading pair low second rest continues inductionHypothesis =>
    simp only [continues] at read
    obtain ⟨goesOn, rfl⟩ := continuation_eq_ok_iff.mp continues
    have leads : 0xC0 ≤ first.toNat ∧ first.toNat ≤ 0xDF :=
      ⟨Nat.not_lt.mp leading, Nat.le_of_lt_succ pair⟩
    have number : (UInt16.ofNat ((first.toNat - 0xC0) * 64 + (second.toNat - 0x80))).toNat =
        (first.toNat - 0xC0) * 64 + (second.toNat - 0x80) := Utf16.toNat_ofNat_of_lt (by omega)
    exact (Group.two leads goesOn number).exists_splits (inductionHypothesis read)
  | case10 position seen first proper _ _ more middle second low third rest closes continues
      inductionHypothesis =>
    simp only [continues, closes] at read
    obtain ⟨goesOn, rfl⟩ := continuation_eq_ok_iff.mp continues
    obtain ⟨ends, rfl⟩ := continuation_eq_ok_iff.mp closes
    have leads : 0xE0 ≤ first.toNat ∧ first.toNat ≤ 0xEF := by
      have above : 0xE0 ≤ first.toNat := Nat.not_lt.mp more
      rw [cannotLead_iff] at proper
      omega
    have number : (UInt16.ofNat ((first.toNat - 0xE0) * 4096 + (second.toNat - 0x80) * 64 +
        (third.toNat - 0x80))).toNat = (first.toNat - 0xE0) * 4096 + (second.toNat - 0x80) * 64 +
          (third.toNat - 0x80) := Utf16.toNat_ofNat_of_lt (by omega)
    have front : Group [first, second, third] _ := .three leads goesOn ends number
    exact front.exists_splits (inductionHypothesis read)
  | case2 | case4 => cases read
  -- A byte that does not go on is refused, and at the end there is none.
  | case5 | case8 =>
    rename_i refused
    rw [refused] at read
    cases read
  | case9 =>
    rename_i refused continues
    simp only [refused, continues, reduceCtorEq] at read
  | case7 | case12 =>
    rename_i impossible
    cases impossible
  | case11 =>
    rename_i impossible _
    cases impossible

theorem decodeUnitsFrom_of_splits (splits : Splits bytes units) (position : Nat)
    (seen : List UInt16) : decodeUnitsFrom position seen bytes = .ok (seen.reverse ++ units) := by
  induction splits generalizing position seen with
  | nil => rw [decodeUnitsFrom, List.append_nil]
  | cons front _ inductionHypothesis =>
    obtain ⟨after, read⟩ := front.exists_decodeUnitsFrom_eq
    rw [read, inductionHypothesis, List.reverse_cons, List.append_assoc, List.singleton_append]

/-- Units are read exactly if the bytes are groups of them. -/
theorem decodeUnits_eq_ok_iff : decodeUnits bytes = .ok units ↔ Splits bytes units := by
  constructor
  · intro read
    obtain ⟨later, rfl, splits⟩ := exists_splits_of_decodeUnitsFrom read
    exact splits
  · intro splits
    exact decodeUnitsFrom_of_splits splits 0 []

end reading

/-- A text is read exactly if the bytes are groups of the units that spell it. -/
theorem decode_eq_ok_iff {bytes : Bytes} {text : String} :
    decode bytes = .ok text ↔
      ∃ units, Splits bytes units ∧ Utf16.Spells units text.toList := by
  simp only [← decodeUnits_eq_ok_iff, ← Utf16.decode?_eq_some_iff]
  unfold decode
  cases decodeUnits bytes with
  | error error => exact iff_of_false nofun nofun
  | ok units =>
    simp only [Except.ok.injEq, exists_eq_left']
    cases Utf16.decode? units with
    | none => exact iff_of_false nofun nofun
    | some found => rw [Except.ok.injEq, Option.some.injEq]

/-- What the strict reading reads, the lenient one reads as the same text. -/
theorem decodeLossy_of_decode {bytes : Bytes} {text : String} (read : decode bytes = .ok text) :
    decodeLossy bytes = text := by
  obtain ⟨units, splits, spelt⟩ := decode_eq_ok_iff.mp read
  unfold decodeLossy
  rw [decodeUnits_eq_ok_iff.mpr splits]
  exact Utf16.decodeLossy_of_spells spelt

/-! ### Writing -/

theorem toNat_ofNat_of_lt {code : Nat} (small : code < 0x100) : (UInt8.ofNat code).toNat = code :=
  UInt8.toNat_ofNat_of_lt' small

/-- What is written for a unit is a group of it. -/
theorem group_encodeUnit (unit : UInt16) : Group (encodeUnit unit) unit := by
  have bound := unit.toNat_lt
  simp only [encodeUnit, Bool.and_eq_true, decide_eq_true_eq]
  by_cases single : 0 < unit.toNat ∧ unit.toNat < 0x80
  · have first : (UInt8.ofNat unit.toNat).toNat = unit.toNat :=
      toNat_ofNat_of_lt (by omega)
    rw [if_pos single]
    exact .one (by omega) first.symm
  by_cases pair : unit.toNat < 0x800
  · have first : (UInt8.ofNat (0xC0 + unit.toNat / 64)).toNat = 0xC0 + unit.toNat / 64 :=
      toNat_ofNat_of_lt (by omega)
    have second : (UInt8.ofNat (0x80 + unit.toNat % 64)).toNat = 0x80 + unit.toNat % 64 :=
      toNat_ofNat_of_lt (by omega)
    rw [if_neg single, if_pos pair]
    exact .two (by omega) (by omega) (by omega)
  · have first : (UInt8.ofNat (0xE0 + unit.toNat / 4096)).toNat = 0xE0 + unit.toNat / 4096 :=
      toNat_ofNat_of_lt (by omega)
    have second : (UInt8.ofNat (0x80 + unit.toNat / 64 % 64)).toNat =
        0x80 + unit.toNat / 64 % 64 := toNat_ofNat_of_lt (by omega)
    have third : (UInt8.ofNat (0x80 + unit.toNat % 64)).toNat = 0x80 + unit.toNat % 64 :=
      toNat_ofNat_of_lt (by omega)
    rw [if_neg single, if_neg pair]
    exact .three (by omega) (by omega) (by omega) (by omega)

theorem splits_flatMap_encodeUnit (units : List UInt16) :
    Splits (units.flatMap encodeUnit) units := by
  induction units with
  | nil => exact .nil
  | cons unit rest inductionHypothesis =>
    rw [List.flatMap_cons]
    exact .cons (group_encodeUnit unit) inductionHypothesis

/-- What was written for a text is read as that text. -/
theorem decode_encode (text : String) : decode (encode text) = .ok text :=
  decode_eq_ok_iff.mpr ⟨_, splits_flatMap_encodeUnit _, Utf16.spells_iff.mpr rfl⟩

/-- Texts are told apart by what is written for them. -/
theorem encode_injective {first second : String} (same : encode first = encode second) :
    first = second := by
  have decoded := decode_encode first
  rw [same, decode_encode] at decoded
  exact (Except.ok.inj decoded).symm

theorem Group.bounds {group : Bytes} {unit : UInt16} (front : Group group unit) :
    ∀ byte ∈ group, byte ≠ 0 ∧ byte < 0xF0 := by
  have bounds {byte : UInt8} (least : 0 < byte.toNat) (greatest : byte.toNat < 0xF0) :
      byte ≠ 0 ∧ byte < 0xF0 :=
    ⟨fun zero => Nat.ne_of_gt least (congrArg UInt8.toNat zero), greatest⟩
  cases front with
  | one leads => exact List.forall_mem_singleton.mpr (bounds (by omega) (by omega))
  | two leads goesOn =>
    exact List.forall_mem_cons.mpr ⟨bounds (by omega) (by omega),
      List.forall_mem_singleton.mpr (bounds (by omega) (by omega))⟩
  | three leads goesOn ends =>
    exact List.forall_mem_cons.mpr ⟨bounds (by omega) (by omega),
      List.forall_mem_cons.mpr ⟨bounds (by omega) (by omega),
        List.forall_mem_singleton.mpr (bounds (by omega) (by omega))⟩⟩

theorem Splits.bounds {bytes : Bytes} {units : List UInt16} (splits : Splits bytes units) :
    ∀ byte ∈ bytes, byte ≠ 0 ∧ byte < 0xF0 := by
  induction splits with
  | nil => exact List.forall_mem_nil _
  | cons front _ inductionHypothesis =>
    exact List.forall_mem_append.mpr ⟨front.bounds, inductionHypothesis⟩

/-- Texts and their bytes. What is written for a text is read back and consists of bytes that stand
in groups; what is read as a text are the groups of its units, whatever their lengths; and where the
strict reading succeeds the lenient one says the same. -/
theorem codec_exact :
    (∀ text : String, decode (encode text) = .ok text ∧
      ∀ byte ∈ encode text, byte ≠ 0 ∧ byte < 0xF0) ∧
    ∀ (bytes : Bytes) (text : String),
      (decode bytes = .ok text ↔ ∃ units, Splits bytes units ∧ Utf16.Spells units text.toList) ∧
        (decode bytes = .ok text → decodeLossy bytes = text) :=
  ⟨fun text => ⟨decode_encode text, (splits_flatMap_encodeUnit _).bounds⟩,
    fun _ _ => ⟨decode_eq_ok_iff, decodeLossy_of_decode⟩⟩

/-- A text in whose bytes every form of group occurs, zero in two bytes and a pair in six. -/
def everyForm : String :=
  String.ofList [Char.ofNat 0, 'A', Char.ofNat 0x4E2D, Char.ofNat 0x1F600]

theorem codec_exact_everyForm :
    (0xC0 : UInt8) ∈ encode everyForm ∧ ((0xC0 : UInt8) ≠ 0 ∧ (0xC0 : UInt8) < 0xF0) ∧
      decode [0xC1, 0x81] = .ok "A" ∧ decodeLossy [0xC1, 0x81] = "A" := by
  have member : (0xC0 : UInt8) ∈ encode everyForm := by decide +kernel
  have read : decode [0xC1, 0x81] = .ok "A" := by decide +kernel
  exact ⟨member, (codec_exact.1 everyForm).2 _ member, read, (codec_exact.2 _ "A").2 read⟩

/-! ### The shortest of all spellings -/

/-- Whether bytes are read as a text and no fewer bytes are. -/
def IsShortest (bytes : Bytes) (text : String) : Prop :=
  decode bytes = .ok text ∧ ∀ other, decode other = .ok text → bytes.length ≤ other.length

/-- A unit has no two groups of one length. -/
theorem Group.eq_of_length_eq {group other : Bytes} {unit : UInt16} (front : Group group unit)
    (otherFront : Group other unit) (same : group.length = other.length) : group = other := by
  cases front with
  | one leads number =>
    cases otherFront with
    | one otherLeads otherNumber => rw [UInt8.toNat_inj.mp (number.symm.trans otherNumber)]
    | two | three => cases same
  | @two first second _ leads goesOn number =>
    cases otherFront with
    | @two otherFirst otherSecond _ otherLeads otherGoesOn otherNumber =>
      have firstSame : first.toNat = otherFirst.toNat := by omega
      have secondSame : second.toNat = otherSecond.toNat := by omega
      rw [UInt8.toNat_inj.mp firstSame, UInt8.toNat_inj.mp secondSame]
    | one | three => cases same
  | @three first second third _ leads goesOn ends number =>
    cases otherFront with
    | @three otherFirst otherSecond otherThird _ otherLeads otherGoesOn otherEnds otherNumber =>
      have firstSame : first.toNat = otherFirst.toNat := by omega
      have secondSame : second.toNat = otherSecond.toNat := by omega
      have thirdSame : third.toNat = otherThird.toNat := by omega
      rw [UInt8.toNat_inj.mp firstSame, UInt8.toNat_inj.mp secondSame,
        UInt8.toNat_inj.mp thirdSame]
    | one | two => cases same

theorem length_encodeUnit (unit : UInt16) :
    (encodeUnit unit).length =
      if 0 < unit.toNat ∧ unit.toNat < 0x80 then 1 else if unit.toNat < 0x800 then 2 else 3 := by
  simp only [encodeUnit, Bool.and_eq_true, decide_eq_true_eq]
  split
  · rfl
  · split
    · rfl
    · rfl

theorem Group.length_encodeUnit_le {group : Bytes} {unit : UInt16} (front : Group group unit) :
    (encodeUnit unit).length ≤ group.length := by
  rw [length_encodeUnit]
  cases front with
  | one leads number =>
    rw [if_pos ⟨by omega, by omega⟩]
    exact Nat.le_refl 1
  | two leads goesOn number =>
    rw [if_pos (by omega : unit.toNat < 0x800)]
    split
    · exact Nat.le_succ 1
    · exact Nat.le_refl 2
  | three =>
    show _ ≤ 3
    split
    · decide
    · split
      · decide
      · decide

/-- What is written for units is shorter than any other groups of them. -/
theorem Splits.shortest {bytes : Bytes} {units : List UInt16} (splits : Splits bytes units) :
    (units.flatMap encodeUnit).length ≤ bytes.length ∧
      (bytes.length ≤ (units.flatMap encodeUnit).length → bytes = units.flatMap encodeUnit) := by
  induction splits with
  | nil => exact ⟨Nat.le_refl _, fun _ => rfl⟩
  | cons front _ inductionHypothesis =>
    have frontLeast := front.length_encodeUnit_le
    obtain ⟨behindLeast, behindOnly⟩ := inductionHypothesis
    simp only [List.flatMap_cons, List.length_append]
    refine ⟨Nat.add_le_add frontLeast behindLeast, fun few => ?_⟩
    rw [front.eq_of_length_eq (group_encodeUnit _) (by omega), behindOnly (by omega)]

/-- What is written for a text is the shortest that is read as it, and nothing else is. -/
theorem isShortest_iff {bytes : Bytes} {text : String} :
    IsShortest bytes text ↔ bytes = encode text := by
  constructor
  · rintro ⟨read, least⟩
    obtain ⟨units, splits, spelt⟩ := decode_eq_ok_iff.mp read
    obtain rfl := Utf16.spells_iff.mp spelt
    exact splits.shortest.2 (least _ (decode_encode text))
  · rintro rfl
    refine ⟨decode_encode text, fun other read => ?_⟩
    obtain ⟨units, splits, spelt⟩ := decode_eq_ok_iff.mp read
    obtain rfl := Utf16.spells_iff.mp spelt
    exact splits.shortest.1

end JavaClass.Text.ModifiedUtf8
