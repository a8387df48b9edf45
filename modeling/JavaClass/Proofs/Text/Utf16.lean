/-
Well-formed UTF-16. Which units spell which characters is said without reading or writing them: a
unit that is no surrogate spells the character of its number, a high surrogate with a low one behind
it spells one outside the basic plane, and nothing else spells anything. What is written for
characters is their one spelling, and strict reading finds exactly the texts that are spelt, so it
refuses a surrogate that stands alone and nothing else.
-/

import JavaClass.Text.Utf16
import Mathlib.Data.List.Basic

namespace JavaClass.Text.Utf16

/-- Whether units are the characters of a text, every surrogate being half of a pair. -/
inductive Spells : List UInt16 → List Char → Prop
  | nil : Spells [] []
  | single {unit : UInt16} {character : Char} {units : List UInt16} {text : List Char}
      (alone : unit.toNat < 0xD800 ∨ 0xE000 ≤ unit.toNat) (number : character.toNat = unit.toNat)
      (spelt : Spells units text) : Spells (unit :: units) (character :: text)
  | pair {high low : UInt16} {character : Char} {units : List UInt16} {text : List Char}
      (first : 0xD800 ≤ high.toNat ∧ high.toNat < 0xDC00)
      (second : 0xDC00 ≤ low.toNat ∧ low.toNat < 0xE000)
      (number : character.toNat =
        0x10000 + (high.toNat - 0xD800) * 0x400 + (low.toNat - 0xDC00))
      (spelt : Spells units text) : Spells (high :: low :: units) (character :: text)

/-! ### Writing -/

theorem toNat_lt_or_lt (character : Char) :
    character.toNat < 0xD800 ∨ 0xDFFF < character.toNat ∧ character.toNat < 0x110000 :=
  character.valid

theorem toNat_ofNat_of_lt {code : Nat} (small : code < 0x10000) :
    (UInt16.ofNat code).toNat = code :=
  UInt16.toNat_ofNat_of_lt' small

theorem unitsOfChar_of_single {character : Char} {unit : UInt16}
    (number : character.toNat = unit.toNat) : unitsOfChar character = [unit] := by
  have small : character.toNat < 0x10000 := number ▸ unit.toNat_lt
  simp only [unitsOfChar]
  rw [if_pos small, number, UInt16.ofNat_toNat]

theorem unitsOfChar_of_pair {character : Char} {high low : UInt16}
    (first : 0xD800 ≤ high.toNat ∧ high.toNat < 0xDC00)
    (second : 0xDC00 ≤ low.toNat ∧ low.toNat < 0xE000)
    (number : character.toNat =
      0x10000 + (high.toNat - 0xD800) * 0x400 + (low.toNat - 0xDC00)) :
    unitsOfChar character = [high, low] := by
  have large : ¬character.toNat < 0x10000 := by omega
  have upper : 0xD800 + (character.toNat - 0x10000) / 0x400 = high.toNat := by omega
  have lower : 0xDC00 + (character.toNat - 0x10000) % 0x400 = low.toNat := by omega
  simp only [unitsOfChar]
  rw [if_neg large, upper, lower, UInt16.ofNat_toNat, UInt16.ofNat_toNat]

/-- A character is spelt by its units, whatever comes behind them. -/
theorem Spells.cons (character : Char) {units : List UInt16} {text : List Char}
    (spelt : Spells units text) : Spells (unitsOfChar character ++ units) (character :: text) := by
  have valid := toNat_lt_or_lt character
  simp only [unitsOfChar]
  by_cases small : character.toNat < 0x10000
  · have number := toNat_ofNat_of_lt small
    rw [if_pos small]
    refine .single ?_ number.symm spelt
    omega
  · have upper : (UInt16.ofNat (0xD800 + (character.toNat - 0x10000) / 0x400)).toNat =
        0xD800 + (character.toNat - 0x10000) / 0x400 := toNat_ofNat_of_lt (by omega)
    have lower : (UInt16.ofNat (0xDC00 + (character.toNat - 0x10000) % 0x400)).toNat =
        0xDC00 + (character.toNat - 0x10000) % 0x400 := toNat_ofNat_of_lt (by omega)
    rw [if_neg small]
    refine .pair ?_ ?_ ?_ spelt
    · rw [upper]
      omega
    · rw [lower]
      omega
    · rw [upper, lower]
      omega

/-- The units of a text are its one spelling. -/
theorem spells_iff {units : List UInt16} {text : List Char} :
    Spells units text ↔ units = text.flatMap unitsOfChar := by
  constructor
  · intro spelt
    induction spelt with
    | nil => rfl
    | single _ number _ inductionHypothesis =>
      rw [List.flatMap_cons, unitsOfChar_of_single number, ← inductionHypothesis]
      rfl
    | pair first second number _ inductionHypothesis =>
      rw [List.flatMap_cons, unitsOfChar_of_pair first second number, ← inductionHypothesis]
      rfl
  · rintro rfl
    induction text with
    | nil => exact .nil
    | cons character text inductionHypothesis =>
      rw [List.flatMap_cons]
      exact inductionHypothesis.cons character

/-! ### Reading -/

theorem isHighSurrogate_iff {unit : UInt16} :
    isHighSurrogate unit = true ↔ 0xD800 ≤ unit.toNat ∧ unit.toNat < 0xDC00 := by
  simp only [isHighSurrogate, Bool.and_eq_true, decide_eq_true_eq, UInt16.le_iff_toNat_le,
    UInt16.lt_iff_toNat_lt]
  rfl

theorem isLowSurrogate_iff {unit : UInt16} :
    isLowSurrogate unit = true ↔ 0xDC00 ≤ unit.toNat ∧ unit.toNat < 0xE000 := by
  simp only [isLowSurrogate, Bool.and_eq_true, decide_eq_true_eq, UInt16.le_iff_toNat_le,
    UInt16.lt_iff_toNat_lt]
  rfl

theorem surrogate_iff {unit : UInt16} :
    (isHighSurrogate unit || isLowSurrogate unit) = true ↔
      ¬(unit.toNat < 0xD800 ∨ 0xE000 ≤ unit.toNat) := by
  rw [Bool.or_eq_true, isHighSurrogate_iff, isLowSurrogate_iff]
  omega

theorem toNat_ofNat_of_isValidChar {code : Nat} (valid : code.isValidChar) :
    (Char.ofNat code).toNat = code := by
  rw [Char.ofNat, dif_pos valid]
  rfl

/-- A unit outside a pair is read as a character exactly if it is no surrogate. -/
theorem single_eq_some_iff {unit : UInt16} {character : Char} :
    characters.single unit = some character ↔
      (unit.toNat < 0xD800 ∨ 0xE000 ≤ unit.toNat) ∧ character.toNat = unit.toNat := by
  unfold characters.single
  by_cases alone : unit.toNat < 0xD800 ∨ 0xE000 ≤ unit.toNat
  · have valid : unit.toNat.isValidChar := by
      have bound := unit.toNat_lt
      unfold Nat.isValidChar
      omega
    rw [if_neg fun surrogate => surrogate_iff.mp surrogate alone, Option.some.injEq,
      and_iff_right alone]
    constructor
    · rintro rfl
      exact toNat_ofNat_of_isValidChar valid
    · intro number
      rw [← number, Char.ofNat_toNat]
  · rw [if_pos (surrogate_iff.mpr alone)]
    exact iff_of_false (Option.some_ne_none _ ·.symm) (alone ·.1)

theorem toNat_ofPair {high low : UInt16} (first : 0xD800 ≤ high.toNat ∧ high.toNat < 0xDC00)
    (second : 0xDC00 ≤ low.toNat ∧ low.toNat < 0xE000) :
    (ofPair high low).toNat =
      0x10000 + (high.toNat - 0xD800) * 0x400 + (low.toNat - 0xDC00) := by
  refine toNat_ofNat_of_isValidChar ?_
  unfold Nat.isValidChar
  omega

/-- What was read before stays in front of what is read on. -/
theorem go_append (units : List UInt16) (seen before : List (Option Char)) :
    characters.go units (seen ++ before) = before.reverse ++ characters.go units seen := by
  induction units, seen using characters.go.induct with
  | case1 seen => exact List.reverse_append
  | case2 unit seen =>
    rw [characters.go, characters.go, ← List.cons_append, List.reverse_append]
  | case3 seen high low rest pair inductionHypothesis =>
    rw [characters.go, characters.go, if_pos pair, if_pos pair]
    exact inductionHypothesis
  | case4 seen high low rest other inductionHypothesis =>
    rw [characters.go, characters.go, if_neg other, if_neg other]
    exact inductionHypothesis

theorem characters_of_pair {high low : UInt16} (pair : isHighSurrogate high && isLowSurrogate low)
    (rest : List UInt16) :
    characters (high :: low :: rest) = some (ofPair high low) :: characters rest := by
  unfold characters
  rw [characters.go, if_pos pair]
  exact go_append rest [] [some (ofPair high low)]

theorem characters_of_single (unit : UInt16) {rest : List UInt16}
    (other : ∀ low later, rest = low :: later → ¬(isHighSurrogate unit && isLowSurrogate low)) :
    characters (unit :: rest) = characters.single unit :: characters rest := by
  unfold characters
  cases rest with
  | nil => rfl
  | cons low later =>
    rw [characters.go, if_neg (other low later rfl)]
    exact go_append (low :: later) [] [characters.single unit]

/-- What reading finds without a gap is what the units spell. -/
theorem characters_eq_map_iff {units : List UInt16} {text : List Char} :
    characters units = text.map some ↔ Spells units text := by
  constructor
  · intro read
    induction count : units.length using Nat.strongRecOn generalizing units text with
    | ind length inductionHypothesis =>
      subst count
      cases units with
      | nil =>
        obtain rfl := List.map_eq_nil_iff.mp read.symm
        exact .nil
      | cons unit rest =>
        by_cases single : ∀ low later, rest = low :: later →
            ¬(isHighSurrogate unit && isLowSurrogate low)
        · rw [characters_of_single unit single] at read
          obtain ⟨character, later, rfl, here, behind⟩ := List.map_eq_cons_iff.mp read.symm
          obtain ⟨alone, number⟩ := single_eq_some_iff.mp here.symm
          exact .single alone number (inductionHypothesis _ (Nat.lt_succ_self _) behind.symm rfl)
        · push Not at single
          obtain ⟨low, later, rfl, pair⟩ := single
          rw [characters_of_pair pair] at read
          obtain ⟨character, text, rfl, here, behind⟩ := List.map_eq_cons_iff.mp read.symm
          have first := isHighSurrogate_iff.mp (Bool.and_eq_true_iff.mp pair).1
          have second := isLowSurrogate_iff.mp (Bool.and_eq_true_iff.mp pair).2
          have shorter : later.length < (unit :: low :: later).length :=
            Nat.lt_succ_of_lt (Nat.lt_succ_self _)
          have behindSpelt := inductionHypothesis _ shorter behind.symm rfl
          refine .pair first second ?_ behindSpelt
          rw [Option.some.inj here, toNat_ofPair first second]
  · intro spelt
    induction spelt with
    | nil => rfl
    | @single unit character units text alone number _ inductionHypothesis =>
      have noPair : ∀ low later, units = low :: later →
          ¬(isHighSurrogate unit && isLowSurrogate low) := by
        intro low later _ pair
        have high := isHighSurrogate_iff.mp (Bool.and_eq_true_iff.mp pair).1
        omega
      rw [characters_of_single unit noPair, single_eq_some_iff.mpr ⟨alone, number⟩,
        inductionHypothesis]
      rfl
    | @pair high low character units text first second number _ inductionHypothesis =>
      have pair : isHighSurrogate high && isLowSurrogate low := Bool.and_eq_true_iff.mpr
        ⟨isHighSurrogate_iff.mpr first, isLowSurrogate_iff.mpr second⟩
      have same : ofPair high low = character :=
        Char.toNat_inj.mp ((toNat_ofPair first second).trans number.symm)
      rw [characters_of_pair pair, inductionHypothesis, same]
      rfl

/-- Strict reading finds a text exactly if the units spell it. -/
theorem decode?_eq_some_iff {units : List UInt16} {text : String} :
    decode? units = some text ↔ Spells units text.toList := by
  rw [← characters_eq_map_iff]
  simp only [decode?]
  constructor
  · intro decoded
    split at decoded
    · rename_i whole
      obtain rfl := Option.some.inj decoded
      rw [String.toList_ofList, List.map_filterMap_some_eq_filter_map_isSome, List.map_id,
        List.filter_eq_self.mpr (List.all_eq_true.mp whole)]
    · cases decoded
  · intro read
    have whole : (text.toList.map some).all Option.isSome = true := by
      rw [List.all_map, List.all_eq_true]
      exact fun _ _ => rfl
    rw [read, if_pos whole, List.filterMap_map, Function.id_comp, List.filterMap_some,
      String.ofList_toList]

/-- The lenient reading of units that spell a text is that text. -/
theorem decodeLossy_of_spells {units : List UInt16} {text : String}
    (spelt : Spells units text.toList) : decodeLossy units = text := by
  rw [decodeLossy, characters_eq_map_iff.mpr spelt, List.map_map]
  show String.ofList (text.toList.map id) = text
  rw [List.map_id, String.ofList_toList]

end JavaClass.Text.Utf16
