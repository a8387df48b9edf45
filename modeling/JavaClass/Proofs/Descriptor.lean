/-
Descriptors against the grammar that their spelling follows. What a parser takes off the front of a
text is the spelling of what it found, and the rest is what it hands back; the other way round, a
type that a field or a method can have is read back from its spelling, whatever stands behind that.
So a text is the descriptor of a type exactly if the type is valid and is spelt so, no two valid
types are spelt alike, and nothing gets lost when a member is named by its type.
-/

import JavaClass.Member
import Mathlib.Logic.ExistsUnique

namespace JavaClass

theorem BaseType.letter_of_ofLetter? {letter : Char} {type : BaseType}
    (found : BaseType.ofLetter? letter = some type) : type.letter = letter := by
  unfold BaseType.ofLetter? at found
  split at found
  all_goals cases found
  all_goals rfl

namespace FieldType

/-! ### Types that are spelt out -/

theorem isVoid_iff {type : FieldType} : type.isVoid = true ↔ type = .void := by
  unfold isVoid
  split
  · exact iff_of_true rfl rfl
  · rename_i other
    exact iff_of_false Bool.false_ne_true other

theorem Valid.isVoid_eq {type : FieldType} (valid : type.Valid) : type.isVoid = false := by
  rw [Bool.eq_false_iff, ne_eq, isVoid_iff]
  rintro rfl
  exact valid rfl

/-- A class name that has no semicolon ends where its spelling has one. -/
theorem parseFront_object {name : String} (valid : (object name).Valid) (rest : List Char) :
    parseFront ('L' :: (name.toList ++ ';' :: rest)) = .ok (.object name, rest) := by
  obtain ⟨named, unbroken⟩ := valid
  have inside : ∀ letter ∈ name.toList, (letter != ';') = true := by
    intro letter member
    refine bne_iff_ne.mpr ?_
    rintro rfl
    exact unbroken member
  have nonempty : name.toList.isEmpty = false := by
    rw [List.isEmpty_eq_false_iff, ne_eq, String.toList_eq_nil_iff]
    exact named
  have front : (name.toList ++ ';' :: rest).takeWhile (· != ';') = name.toList := by
    rw [List.takeWhile_append_of_pos inside]
    exact List.append_nil _
  have back : (name.toList ++ ';' :: rest).dropWhile (· != ';') = ';' :: rest := by
    rw [List.dropWhile_append_of_pos inside]
    rfl
  unfold parseFront
  simp only [front, back, nonempty]
  rw [String.ofList_toList]
  rfl

/-- What is spelt out in front of a text is taken off it. -/
theorem parseFront_characters {type : FieldType} (valid : type.Valid ∨ type = .void)
    (rest : List Char) : parseFront (type.characters ++ rest) = .ok (type, rest) := by
  induction type with
  | base type => cases type <;> rfl
  | object name =>
    obtain valid | impossible := valid
    · rw [characters, List.cons_append, List.append_assoc, List.singleton_append]
      exact parseFront_object valid rest
    · cases impossible
  | array element inductionHypothesis =>
    obtain valid | impossible := valid
    · have solid : element.isVoid = false := Valid.isVoid_eq valid
      rw [characters, List.cons_append, parseFront, if_pos rfl,
        inductionHypothesis (.inl valid)]
      simp only [solid]
      rfl
    · cases impossible

/-! ### Texts that are read -/

/-- A name that has some letters in front of the first semicolon is one of a class. -/
theorem valid_object_of_takeWhile {text : List Char}
    (nonempty : ¬(text.takeWhile (· != ';')).isEmpty) :
    (object (String.ofList (text.takeWhile (· != ';')))).Valid := by
  refine ⟨fun empty => nonempty ?_, fun broken => ?_⟩
  · rw [String.ofList_eq_empty_iff.mp empty]
    rfl
  · rw [String.toList_ofList] at broken
    have apart := List.all_takeWhile (p := (· != ';')) (l := text)
    exact bne_iff_ne.mp (List.all_eq_true.mp apart _ broken) rfl

/-- Where a name ends, a semicolon stands. -/
theorem eq_append_of_dropWhile {text rest : List Char} {semicolon : Char}
    (ends : text.dropWhile (· != ';') = semicolon :: rest) :
    text = text.takeWhile (· != ';') ++ ';' :: rest := by
  have closes : semicolon = ';' := by
    have head := List.head?_dropWhile_not (fun letter => letter != ';') text
    rw [ends] at head
    simpa using head
  have cut := List.takeWhile_append_dropWhile (p := fun letter => letter != ';') (l := text)
  rw [ends, closes] at cut
  exact cut.symm

/-- What was taken off the front is valid or `void`, and the front is how it is spelt. -/
theorem spelt_of_parseFront {text rest : List Char} {type : FieldType}
    (parsed : parseFront text = .ok (type, rest)) :
    (type.Valid ∨ type = .void) ∧ text = type.characters ++ rest := by
  induction text generalizing type rest with
  | nil => cases parsed
  | cons first behind inductionHypothesis =>
    rw [parseFront] at parsed
    split at parsed
    · rename_i opens
      split at parsed
      · cases parsed
      · rename_i element remaining front
        split at parsed
        · cases parsed
        · rename_i solid
          cases parsed
          obtain ⟨valid, spelt⟩ := inductionHypothesis front
          refine ⟨.inl (valid.resolve_right fun void => solid (isVoid_iff.mpr void)), ?_⟩
          rw [opens, spelt]
          rfl
    · split at parsed
      · rename_i opens
        simp only at parsed
        split at parsed
        · cases parsed
        · rename_i semicolon remaining ends
          split at parsed
          · cases parsed
          · rename_i nonempty
            cases parsed
            refine ⟨.inl (valid_object_of_takeWhile nonempty), ?_⟩
            rw [opens, characters, String.toList_ofList, List.cons_append, List.append_assoc,
              List.singleton_append, ← eq_append_of_dropWhile ends]
      · split at parsed
        · rename_i base found
          cases parsed
          rw [characters, BaseType.letter_of_ofLetter? found]
          by_cases void : base = .void
          · exact ⟨.inr (congrArg FieldType.base void), rfl⟩
          · exact ⟨.inl void, rfl⟩
        · cases parsed

/-- What a text is the descriptor of is a type that a field can have, and the text is its
descriptor. -/
theorem parse_eq_ok_iff {text : String} {type : FieldType} :
    parse text = .ok type ↔ type.Valid ∧ type.descriptor = text := by
  constructor
  · intro parsed
    unfold parse at parsed
    split at parsed
    · cases parsed
    · rename_i found rest front
      split at parsed
      · cases parsed
      · rename_i solid
        split at parsed
        · rename_i nothingLeft
          cases parsed
          obtain ⟨valid, spelt⟩ := spelt_of_parseFront front
          refine ⟨valid.resolve_right fun void => solid (isVoid_iff.mpr void), ?_⟩
          rw [List.isEmpty_iff.mp nothingLeft, List.append_nil] at spelt
          rw [descriptor, ← spelt, String.ofList_toList]
        · cases parsed
  · rintro ⟨valid, rfl⟩
    have front := parseFront_characters (.inl valid) []
    rw [List.append_nil] at front
    unfold parse descriptor
    rw [String.toList_ofList, front]
    simp only [valid.isVoid_eq]
    rfl

/-- Every spelling begins with a letter or a bracket, so parameters do not end early. -/
theorem exists_cons_eq_characters (type : FieldType) :
    ∃ first rest, type.characters = first :: rest ∧ first ≠ ')' := by
  cases type with
  | base type => exact ⟨type.letter, [], rfl, by cases type <;> decide⟩
  | object name => exact ⟨'L', _, rfl, by decide⟩
  | array element => exact ⟨'[', _, rfl, by decide⟩

end FieldType

/-! ### Methods -/

namespace MethodType

theorem length_le_length_flatMap (parameters : List FieldType) :
    parameters.length ≤ (parameters.flatMap FieldType.characters).length := by
  induction parameters with
  | nil => exact Nat.le_refl _
  | cons parameter rest inductionHypothesis =>
    obtain ⟨first, behind, spelt, -⟩ := parameter.exists_cons_eq_characters
    rw [List.flatMap_cons, spelt, List.length_append, List.length_cons, List.length_cons]
    omega

theorem parseParameters_flatMap (text : String) {rounds : Nat} {parameters : List FieldType}
    (valid : ∀ parameter ∈ parameters, parameter.Valid) (enough : parameters.length < rounds)
    (seen : List FieldType) (rest : List Char) :
    parseParameters text rounds seen (parameters.flatMap FieldType.characters ++ ')' :: rest) =
      .ok (seen.reverse ++ parameters, rest) := by
  induction parameters generalizing rounds seen with
  | nil =>
    obtain ⟨rounds, rfl⟩ := Nat.exists_eq_add_one_of_ne_zero (Nat.ne_of_gt enough)
    rw [List.append_nil]
    rfl
  | cons parameter others inductionHypothesis =>
    obtain ⟨rounds, rfl⟩ := Nat.exists_eq_add_one_of_ne_zero (Nat.ne_zero_of_lt enough)
    obtain ⟨validHere, validLater⟩ := List.forall_mem_cons.mp valid
    obtain ⟨first, behind, spelt, opens⟩ := parameter.exists_cons_eq_characters
    have front := FieldType.parseFront_characters (.inl validHere)
      (others.flatMap FieldType.characters ++ ')' :: rest)
    rw [spelt, List.cons_append] at front
    rw [List.flatMap_cons, spelt, List.append_assoc, List.cons_append, parseParameters,
      if_neg opens, front]
    simp only [validHere.isVoid_eq, Bool.false_eq_true, if_false]
    rw [inductionHypothesis validLater (Nat.lt_of_succ_lt_succ enough), List.reverse_cons,
      List.append_assoc, List.singleton_append]

/-- The parameters that were taken off the front, behind those seen before. -/
theorem exists_of_parseParameters {text : String} {rounds : Nat}
    {seen parameters : List FieldType} {characters rest : List Char}
    (parsed : parseParameters text rounds seen characters = .ok (parameters, rest)) :
    ∃ taken, parameters = seen.reverse ++ taken ∧ (∀ parameter ∈ taken, parameter.Valid) ∧
      characters = taken.flatMap FieldType.characters ++ ')' :: rest := by
  induction rounds generalizing seen characters with
  | zero => cases parsed
  | succ rounds inductionHypothesis =>
    cases characters with
    | nil => cases parsed
    | cons first behind =>
      rw [parseParameters] at parsed
      split at parsed
      · rename_i closes
        cases parsed
        exact ⟨[], (List.append_nil _).symm, List.forall_mem_nil _, by rw [closes]; rfl⟩
      · split at parsed
        · cases parsed
        · rename_i parameter remaining front
          split at parsed
          · cases parsed
          · rename_i solid
            obtain ⟨valid, here⟩ := FieldType.spelt_of_parseFront front
            have validHere := valid.resolve_right fun void =>
              solid (FieldType.isVoid_iff.mpr void)
            obtain ⟨taken, same, validLater, later⟩ := inductionHypothesis parsed
            refine ⟨parameter :: taken, ?_, List.forall_mem_cons.mpr ⟨validHere, validLater⟩, ?_⟩
            · rw [same, List.reverse_cons, List.append_assoc, List.singleton_append]
            · rw [here, later, List.flatMap_cons, List.append_assoc]

/-- A method type that is spelt out is read back. -/
theorem parse_descriptor {type : MethodType} (valid : type.Valid) :
    parse type.descriptor = .ok type := by
  obtain ⟨parameters, returns⟩ := type
  obtain ⟨parametersValid, returnsValid⟩ := valid
  have enough : parameters.length <
      (parameters.flatMap FieldType.characters ++ ')' :: returns.characters).length := by
    have few := length_le_length_flatMap parameters
    rw [List.length_append, List.length_cons]
    omega
  have back := FieldType.parseFront_characters returnsValid []
  rw [List.append_nil] at back
  unfold parse descriptor
  rw [String.toList_ofList]
  simp only [parseParameters_flatMap _ parametersValid enough, back]
  rfl

/-- What a text is the descriptor of is a type that a method can have, and the text is its
descriptor. -/
theorem parse_eq_ok_iff {text : String} {type : MethodType} :
    parse text = .ok type ↔ type.Valid ∧ type.descriptor = text := by
  constructor
  · intro parsed
    unfold parse at parsed
    split at parsed
    · rename_i characters opened
      split at parsed
      · cases parsed
      · rename_i parameters behind parametersParsed
        split at parsed
        · cases parsed
        · rename_i returns rest returnsParsed
          split at parsed
          · rename_i nothingLeft
            cases parsed
            obtain ⟨taken, rfl, valid, front⟩ := exists_of_parseParameters parametersParsed
            obtain ⟨validReturns, back⟩ := FieldType.spelt_of_parseFront returnsParsed
            refine ⟨⟨valid, validReturns⟩, ?_⟩
            rw [List.isEmpty_iff.mp nothingLeft, List.append_nil] at back
            rw [descriptor, ← back, ← front, ← opened, String.ofList_toList]
          · cases parsed
    · cases parsed
  · rintro ⟨valid, rfl⟩
    exact parse_descriptor valid

end MethodType

/-- A method that was named by its texts has them as its name and as its descriptor. -/
theorem MethodKey.eq_of_parse {name descriptor : String} {key : MethodKey}
    (parsed : MethodKey.parse name descriptor = .ok key) :
    key.name = name ∧ key.type.descriptor = descriptor := by
  unfold MethodKey.parse at parsed
  cases type : MethodType.parse descriptor with
  | error reason =>
    rw [type] at parsed
    cases parsed
  | ok found =>
    rw [type] at parsed
    cases parsed
    exact ⟨rfl, (MethodType.parse_eq_ok_iff.mp type).2⟩

/-! ### Reading and printing -/

/-- Whether a parser and a printer are inverse to each other on the types that are valid. -/
structure Inverse {type : Type} (parse : String → Except DescriptorError type)
    (Valid : type → Prop) (descriptor : type → String) : Prop where
  /-- A text is read as a type exactly if that is valid and printed so. -/
  exact : ∀ text found, parse text = .ok found ↔ Valid found ∧ descriptor found = text
  /-- What is printed is read back exactly if it is of a valid type. -/
  readBack : ∀ found, parse (descriptor found) = .ok found ↔ Valid found
  /-- The texts that are read are those that exactly one valid type is printed as. -/
  unique : ∀ text, (∃ found, parse text = .ok found) ↔
    ∃! found, Valid found ∧ descriptor found = text

theorem Inverse.of_eq_ok_iff {type : Type} {parse : String → Except DescriptorError type}
    {Valid : type → Prop} {descriptor : type → String}
    (exact : ∀ text found, parse text = .ok found ↔ Valid found ∧ descriptor found = text) :
    Inverse parse Valid descriptor where
  exact := exact
  readBack found := (exact _ found).trans (and_iff_left rfl)
  unique text := by
    refine ⟨fun ⟨found, parsed⟩ => ⟨found, (exact text found).mp parsed, ?_⟩, fun only => ?_⟩
    · intro other spelt
      exact Except.ok.inj (((exact text other).mpr spelt).symm.trans parsed)
    · obtain ⟨found, spelt, -⟩ := only
      exact ⟨found, (exact text found).mpr spelt⟩

/-- The descriptors of fields and those of methods are read and printed without loss. -/
theorem inverse_parse_descriptor :
    Inverse FieldType.parse FieldType.Valid FieldType.descriptor ∧
      Inverse MethodType.parse MethodType.Valid MethodType.descriptor :=
  ⟨.of_eq_ok_iff fun _ _ => FieldType.parse_eq_ok_iff,
    .of_eq_ok_iff fun _ _ => MethodType.parse_eq_ok_iff⟩

/-- A class name may have brackets and parentheses in it. -/
example : MethodType.parse "(J[La[(;)V" = .ok ⟨[.base .long, .array (.object "a[(")], .void⟩ :=
  rfl

end JavaClass
