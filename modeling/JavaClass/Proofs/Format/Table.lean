/-
The tables of a method body in a file: exception ranges, lines, local variables and stack map
frames. Of these only two kinds can fail to be read back as they were. A range that is said to catch
the constant zero is written like one that catches everything, and a frame of a plain form has no
room for a greater distance, or for a number of local variables, than its first byte holds.
-/

import JavaClass.Code.DebugTable
import JavaClass.Code.ExceptionTable
import JavaClass.Code.StackMap
import JavaClass.Proofs.Format.Reader

namespace JavaClass

open Reader

/-! ### Exception ranges -/

/-- A range that is told apart from one without a catch type. -/
def ExceptionRange.WellFormed (range : ExceptionRange) : Prop := range.catchType ≠ some 0

/-- The two bytes of a catch type, zero standing for none. -/
theorem catchType_eq_iff {catchType : UInt16} {range : Option UInt16} :
    (if catchType = 0 then none else some catchType) = range ↔
      range ≠ some 0 ∧ catchType = range.getD 0 := by
  by_cases zero : catchType = 0
  · cases range with
    | none => simp [zero]
    | some index => simp [zero, eq_comm]
  · cases range with
    | none => simp [zero]
    | some index =>
      rw [if_neg zero, Option.getD_some, Option.some.injEq]
      constructor
      · rintro rfl
        exact ⟨fun none => zero (Option.some.inj none), rfl⟩
      · exact And.right

theorem ExceptionRange.read_inverts (limit : Nat) :
    Inverts ExceptionRange.read ExceptionRange.WellFormed ExceptionRange.write limit := by
  rintro bytes ⟨startPc, endPc, handlerPc, catchType⟩ rest -
  simp only [ExceptionRange.read, bind_eq_ok_iff, u16_eq_ok_iff, pure_eq_ok_iff,
    ExceptionRange.mk.injEq, catchType_eq_iff]
  constructor
  · rintro ⟨_, _, rfl, _, _, rfl, _, _, rfl, _, _, rfl, ⟨rfl, rfl, rfl, proper, rfl⟩, rfl⟩
    exact ⟨proper, by simp only [ExceptionRange.write, List.append_assoc]⟩
  · rintro ⟨proper, rfl⟩
    exact ⟨startPc, _, by simp only [ExceptionRange.write, List.append_assoc], endPc, _, rfl,
      handlerPc, _, rfl, catchType.getD 0, _, rfl, ⟨rfl, rfl, rfl, proper, rfl⟩, rfl⟩

/-! ### Lines and local variables -/

theorem LineNumber.read_inverts (limit : Nat) :
    Inverts LineNumber.read (fun _ => True) LineNumber.write limit := by
  rintro bytes ⟨startPc, line⟩ rest -
  simp only [LineNumber.read, bind_eq_ok_iff, u16_eq_ok_iff, pure_eq_ok_iff, LineNumber.mk.injEq,
    LineNumber.write, List.append_assoc, true_and]
  constructor
  · rintro ⟨_, _, rfl, _, _, rfl, ⟨rfl, rfl⟩, rfl⟩
    rfl
  · rintro rfl
    exact ⟨startPc, _, rfl, line, _, rfl, ⟨rfl, rfl⟩, rfl⟩

theorem LocalVariable.read_inverts (limit : Nat) :
    Inverts LocalVariable.read (fun _ => True) LocalVariable.write limit := by
  rintro bytes ⟨startPc, length, name, descriptor, slot⟩ rest -
  simp only [LocalVariable.read, bind_eq_ok_iff, u16_eq_ok_iff, pure_eq_ok_iff,
    LocalVariable.mk.injEq, LocalVariable.write, List.append_assoc, true_and]
  constructor
  · rintro ⟨_, _, rfl, _, _, rfl, _, _, rfl, _, _, rfl, _, _, rfl,
      ⟨rfl, rfl, rfl, rfl, rfl⟩, rfl⟩
    rfl
  · rintro rfl
    exact ⟨startPc, _, rfl, length, _, rfl, name, _, rfl, descriptor, _, rfl, slot, _, rfl,
      ⟨rfl, rfl, rfl, rfl, rfl⟩, rfl⟩

/-! ### Stack map frames -/

theorem VerificationType.read_inverts (limit : Nat) :
    Inverts VerificationType.read (fun _ => True) VerificationType.write limit := by
  rintro bytes type rest -
  simp only [VerificationType.read, bind_eq_ok_iff, u8_eq_ok_iff, true_and]
  constructor
  · rintro ⟨tag, left, rfl, read⟩
    generalize number : tag.toNat = code at read
    have tagEq : tag = UInt8.ofNat code := by rw [← number, UInt8.ofNat_toNat]
    subst tagEq
    match code with
    | 0 | 1 | 2 | 3 | 4 | 5 | 6 =>
      simp only [pure_eq_ok_iff] at read
      obtain ⟨rfl, rfl⟩ := read
      rfl
    | 7 | 8 =>
      simp only [bind_eq_ok_iff, u16_eq_ok_iff, pure_eq_ok_iff] at read
      obtain ⟨_, _, rfl, rfl, rfl⟩ := read
      rfl
    | code + 9 =>
      simp only [throw_eq_ok_iff] at read
  · rintro rfl
    cases type with
    | top => exact ⟨0, rest, rfl, rfl⟩
    | integer => exact ⟨1, rest, rfl, rfl⟩
    | float => exact ⟨2, rest, rfl, rfl⟩
    | double => exact ⟨3, rest, rfl, rfl⟩
    | long => exact ⟨4, rest, rfl, rfl⟩
    | null => exact ⟨5, rest, rfl, rfl⟩
    | uninitializedThis => exact ⟨6, rest, rfl, rfl⟩
    | object index =>
      exact ⟨7, _, rfl, bind_eq_ok_iff.mpr ⟨index, rest, u16_eq_ok_iff.mpr rfl, rfl⟩⟩
    | uninitialized offset =>
      exact ⟨8, _, rfl, bind_eq_ok_iff.mpr ⟨offset, rest, u16_eq_ok_iff.mpr rfl, rfl⟩⟩

/-- A frame that its form has room for. -/
def StackMapFrame.WellFormed : StackMapFrame → Prop
  | .same delta | .sameLocals delta _ => delta < compactLimit
  | .chop _ count => 1 ≤ count ∧ count ≤ 3
  | .append _ locals => 1 ≤ locals.length ∧ locals.length ≤ 3
  | .full _ locals stack => locals.length < 2 ^ 16 ∧ stack.length < 2 ^ 16
  | .sameLocalsExtended _ _ | .sameExtended _ => True

/-- A plain form keeps the distance in one byte. -/
theorem toUInt8_of_compact {delta : UInt16} (compact : delta < StackMapFrame.compactLimit) :
    delta.toUInt8 < 64 ∧ delta.toUInt8.toUInt16 = delta := by
  simp only [StackMapFrame.compactLimit, UInt8.lt_iff_toNat_lt, UInt16.lt_iff_toNat_lt,
    ← UInt16.toNat_inj, UInt16.toNat_toUInt8, UInt8.toNat_toUInt16] at compact ⊢
  have bound : delta.toNat < 64 := compact
  rw [Nat.mod_eq_of_lt (by omega)]
  exact ⟨bound, rfl⟩

theorem compact_of_lt {tag : UInt8} (small : tag < 64) :
    tag.toUInt16 < StackMapFrame.compactLimit ∧ tag.toUInt16.toUInt8 = tag := by
  refine ⟨?_, by simp⟩
  rw [UInt16.lt_iff_toNat_lt, UInt8.toNat_toUInt16]
  exact small

/-- The first byte of a frame that adds local variables tells how many. -/
theorem appended_of_tag {tag : UInt8} (above : ¬tag < 251) (not251 : ¬(tag == 251) = true)
    (below : tag < 255) : 1 ≤ (tag - 251).toNat ∧ (tag - 251).toNat ≤ 3 := by
  have least : 1 ≤ tag - 251 := by grind
  have most : tag - 251 ≤ 3 := by grind
  exact ⟨UInt8.le_iff_toNat_le.mp least, UInt8.le_iff_toNat_le.mp most⟩

theorem tag_of_appended {count : Nat} (least : 1 ≤ count) (most : count ≤ 3) :
    251 < 251 + UInt8.ofNat count ∧ 251 + UInt8.ofNat count < 255 ∧
      (251 + UInt8.ofNat count - 251).toNat = count := by
  obtain rfl | rfl | rfl : count = 1 ∨ count = 2 ∨ count = 3 := by omega
  all_goals decide

theorem StackMapFrame.wellFormed_of_read {bytes rest : Bytes} {frame : StackMapFrame}
    (read : StackMapFrame.read bytes = .ok (frame, rest)) :
    frame.WellFormed ∧ bytes = frame.write ++ rest := by
  obtain ⟨tag, left, first, read⟩ := bind_eq_ok_iff.mp read
  rw [u8_eq_ok_iff.mp first]
  split at read
  case isTrue small =>
    obtain ⟨rfl, rfl⟩ := pure_eq_ok_iff.mp read
    obtain ⟨compact, same⟩ := compact_of_lt small
    exact ⟨compact, by rw [write, same]; rfl⟩
  split at read
  case isTrue small =>
    obtain ⟨stack, _, readStack, found⟩ := bind_eq_ok_iff.mp read
    obtain ⟨-, rfl⟩ := (VerificationType.read_inverts _ _ _ _ (Nat.le_refl _)).mp readStack
    obtain ⟨rfl, rfl⟩ := pure_eq_ok_iff.mp found
    have distance : tag - 64 < 64 := by grind
    obtain ⟨compact, same⟩ := compact_of_lt distance
    refine ⟨compact, ?_⟩
    rw [write, same, List.cons_append, show 64 + (tag - 64) = tag by grind]
  split at read
  case isTrue => exact (throw_eq_ok_iff.mp read).elim
  obtain ⟨delta, _, readDelta, read⟩ := bind_eq_ok_iff.mp read
  rw [u16_eq_ok_iff.mp readDelta]
  split at read
  case isTrue is247 =>
    obtain ⟨stack, _, readStack, found⟩ := bind_eq_ok_iff.mp read
    obtain ⟨-, rfl⟩ := (VerificationType.read_inverts _ _ _ _ (Nat.le_refl _)).mp readStack
    obtain ⟨rfl, rfl⟩ := pure_eq_ok_iff.mp found
    refine ⟨trivial, ?_⟩
    rw [write, eq_of_beq is247, List.cons_append, List.append_assoc]
  split at read
  case isTrue below251 =>
    obtain ⟨rfl, rfl⟩ := pure_eq_ok_iff.mp read
    refine ⟨by grind [WellFormed], ?_⟩
    rw [write, show 251 - (251 - tag) = tag by grind, List.cons_append]
  split at read
  case isTrue is251 =>
    obtain ⟨rfl, rfl⟩ := pure_eq_ok_iff.mp read
    refine ⟨trivial, ?_⟩
    rw [write, eq_of_beq is251, List.cons_append]
  rename_i above251 not251
  split at read
  case isTrue below255 =>
    obtain ⟨locals, _, readLocals, found⟩ := bind_eq_ok_iff.mp read
    obtain ⟨⟨counted, -⟩, rfl⟩ :=
      (many_eq_ok_iff (VerificationType.read_inverts _) (Nat.le_refl _)).mp readLocals
    obtain ⟨rfl, rfl⟩ := pure_eq_ok_iff.mp found
    refine ⟨?_, ?_⟩
    · rw [WellFormed, counted]
      exact appended_of_tag above251 not251 below255
    · rw [write, counted, UInt8.ofNat_toNat, show 251 + (tag - 251) = tag by grind,
        List.cons_append, List.append_assoc]
  case isFalse =>
    obtain ⟨locals, _, readLocals, readRest⟩ := bind_eq_ok_iff.mp read
    obtain ⟨⟨fewLocals, -⟩, rfl⟩ := (counted_inverts (VerificationType.read_inverts _) _ _ _
      (Nat.le_refl _)).mp readLocals
    obtain ⟨stack, _, readStack, found⟩ := bind_eq_ok_iff.mp readRest
    obtain ⟨⟨fewStack, -⟩, rfl⟩ := (counted_inverts (VerificationType.read_inverts _) _ _ _
      (Nat.le_refl _)).mp readStack
    obtain ⟨rfl, rfl⟩ := pure_eq_ok_iff.mp found
    refine ⟨⟨fewLocals, fewStack⟩, ?_⟩
    rw [write, show tag = 255 by grind, List.cons_append, List.append_assoc, List.append_assoc]

theorem StackMapFrame.read_written {frame : StackMapFrame} (proper : frame.WellFormed)
    (rest : Bytes) : StackMapFrame.read (frame.write ++ rest) = .ok (frame, rest) := by
  have readType (type : VerificationType) (rest : Bytes) :
      VerificationType.read (type.write ++ rest) = .ok (type, rest) :=
    (VerificationType.read_inverts _ _ _ _ (Nat.le_refl _)).mpr ⟨trivial, rfl⟩
  have readTypes (types : List VerificationType) (few : types.length < 2 ^ 16) (rest : Bytes) :
      (counted VerificationType.read) (writeCounted VerificationType.write types ++ rest) =
        .ok (types, rest) :=
    (counted_inverts (VerificationType.read_inverts _) _ _ _ (Nat.le_refl _)).mpr
      ⟨⟨few, fun _ _ => trivial⟩, rfl⟩
  refine bind_eq_ok_iff.mpr ?_
  cases frame with
  | same delta =>
    obtain ⟨small, same⟩ := toUInt8_of_compact proper
    refine ⟨delta.toUInt8, rest, rfl, ?_⟩
    rw [if_pos small, same]
    rfl
  | sameLocals delta stack =>
    obtain ⟨small, same⟩ := toUInt8_of_compact proper
    refine ⟨64 + delta.toUInt8, stack.write ++ rest, rfl, ?_⟩
    rw [if_neg (by grind), if_pos (by grind), show 64 + delta.toUInt8 - 64 = delta.toUInt8 by grind,
      same]
    exact bind_eq_ok_iff.mpr ⟨stack, rest, readType stack rest, rfl⟩
  | sameLocalsExtended delta stack =>
    refine ⟨247, BigEndian.word16 delta ++ (stack.write ++ rest),
      by rw [write, List.cons_append, List.append_assoc]; rfl, ?_⟩
    exact bind_eq_ok_iff.mpr ⟨delta, _, u16_eq_ok_iff.mpr rfl,
      bind_eq_ok_iff.mpr ⟨stack, rest, readType stack rest, rfl⟩⟩
  | chop delta count =>
    obtain ⟨least, most⟩ := proper
    refine ⟨251 - count, BigEndian.word16 delta ++ rest, rfl, ?_⟩
    rw [if_neg (by grind), if_neg (by grind), if_neg (by grind)]
    refine bind_eq_ok_iff.mpr ⟨delta, rest, u16_eq_ok_iff.mpr rfl, ?_⟩
    rw [if_neg (by grind), if_pos (by grind), show 251 - (251 - count) = count by grind]
    rfl
  | sameExtended delta =>
    refine ⟨251, BigEndian.word16 delta ++ rest, rfl, ?_⟩
    exact bind_eq_ok_iff.mpr ⟨delta, rest, u16_eq_ok_iff.mpr rfl, rfl⟩
  | append delta locals =>
    obtain ⟨above, below, number⟩ := tag_of_appended proper.1 proper.2
    refine ⟨251 + UInt8.ofNat locals.length,
      BigEndian.word16 delta ++ (locals.flatMap VerificationType.write ++ rest),
      by rw [write, List.cons_append, List.append_assoc]; rfl, ?_⟩
    rw [if_neg (by grind), if_neg (by grind), if_neg (by grind)]
    refine bind_eq_ok_iff.mpr ⟨delta, _, u16_eq_ok_iff.mpr rfl, ?_⟩
    rw [if_neg (by grind), if_neg (by grind), if_neg (by grind), if_pos below, number]
    refine bind_eq_ok_iff.mpr ⟨locals, rest, ?_, rfl⟩
    exact (many_eq_ok_iff (VerificationType.read_inverts _) (Nat.le_refl _)).mpr
      ⟨⟨rfl, fun _ _ => trivial⟩, rfl⟩
  | full delta locals stack =>
    obtain ⟨fewLocals, fewStack⟩ := proper
    refine ⟨255, BigEndian.word16 delta ++ (writeCounted VerificationType.write locals ++
      (writeCounted VerificationType.write stack ++ rest)),
      by rw [write, List.cons_append, List.append_assoc, List.append_assoc]; rfl, ?_⟩
    exact bind_eq_ok_iff.mpr ⟨delta, _, u16_eq_ok_iff.mpr rfl,
      bind_eq_ok_iff.mpr ⟨locals, _, readTypes locals fewLocals _,
        bind_eq_ok_iff.mpr ⟨stack, rest, readTypes stack fewStack rest, rfl⟩⟩⟩

theorem StackMapFrame.read_inverts (limit : Nat) :
    Inverts StackMapFrame.read StackMapFrame.WellFormed StackMapFrame.write limit := by
  rintro bytes frame rest -
  constructor
  · exact StackMapFrame.wellFormed_of_read
  · rintro ⟨proper, rfl⟩
    exact StackMapFrame.read_written proper rest

end JavaClass
