/-
The constant pool in a file. Reserved slots are counted and not written, and neither is the table
of first slots; both have to come out of the reading as they were. They do because a pool is
nothing but the constants that were added to it, in their order: reading a pool adds the same
constants again.
-/

import JavaClass.Pool.Encoding
import JavaClass.Proofs.Format.Reader

namespace JavaClass

open Reader

/-! ### Constants -/

namespace Constant

/-- A constant that a pool can be asked to hold: no reserved slot, and no text that is too long. -/
def Storable : Constant → Prop
  | .reserved => False
  | .utf8 bytes => bytes.length ≤ Pool.longestText
  | _ => True

theorem tag?_of_ofTag? {tag : UInt8} {kind : ConstantKind}
    (announced : ConstantKind.ofTag? tag = some kind) : kind.tag? = some tag := by
  unfold ConstantKind.ofTag? at announced
  generalize number : tag.toNat = code at announced
  have tagEq : tag = UInt8.ofNat code := by rw [← number, UInt8.ofNat_toNat]
  subst tagEq
  split at announced <;> simp only [Option.some.injEq, reduceCtorEq] at announced <;>
    subst announced <;> rfl

/-- Reading what follows a tag and writing it are inverse to each other. -/
theorem readContents_eq_ok_iff {kind : ConstantKind} (proper : kind ≠ .reserved)
    {constant : Constant} {bytes rest : Bytes} :
    readContents kind bytes = .ok (constant, rest) ↔
      (constant.kind = kind ∧ constant.Storable) ∧ bytes = constant.contents ++ rest := by
  constructor
  · intro read
    cases kind <;>
      simp only [readContents, readPair, bind_eq_ok_iff, u8_eq_ok_iff, u16_eq_ok_iff,
        u32_eq_ok_iff, u64_eq_ok_iff, take_eq_ok_iff, pure_eq_ok_iff] at read
    case utf8 =>
      obtain ⟨length, _, rfl, text, _, ⟨counted, rfl⟩, rfl, rfl⟩ := read
      refine ⟨⟨rfl, ?_⟩, ?_⟩
      · show text.length ≤ 65535
        have := length.toNat_lt
        omega
      · rw [contents, counted, UInt16.ofNat_toNat, List.append_assoc]
    case reserved => exact (proper rfl).elim
    case integer | float | long | double | className | string | methodType | module | package =>
      obtain ⟨_, _, rfl, rfl, rfl⟩ := read
      exact ⟨⟨rfl, trivial⟩, rfl⟩
    case field | method | interfaceMethod | nameAndType | dynamic | invokeDynamic =>
      obtain ⟨_, _, rfl, _, _, rfl, rfl, rfl⟩ := read
      exact ⟨⟨rfl, trivial⟩, by rw [contents, List.append_assoc]⟩
    case methodHandle =>
      obtain ⟨_, _, rfl, _, _, rfl, rfl, rfl⟩ := read
      exact ⟨⟨rfl, trivial⟩, rfl⟩
  · rintro ⟨⟨rfl, storable⟩, rfl⟩
    cases constant <;>
      simp only [kind, contents, List.append_assoc, readContents, readPair, bind_eq_ok_iff,
        u8_eq_ok_iff, u16_eq_ok_iff, u32_eq_ok_iff, u64_eq_ok_iff, take_eq_ok_iff, pure_eq_ok_iff]
    case utf8 text =>
      have short : text.length < 2 ^ 16 := Nat.lt_succ_of_le storable
      refine ⟨_, _, rfl, text, rest, ⟨?_, rfl⟩, rfl, rfl⟩
      rw [UInt16.toNat_ofNat', Nat.mod_eq_of_lt short]
    case reserved => exact storable.elim
    case integer | float | long | double | className | string | methodType | module | package =>
      exact ⟨_, rest, rfl, rfl, rfl⟩
    case field | method | interfaceMethod | nameAndType | dynamic | invokeDynamic =>
      exact ⟨_, _, rfl, _, rest, rfl, rfl, rfl⟩
    case methodHandle => exact ⟨_, _, rfl, _, rest, rfl, rfl, rfl⟩

theorem tag_of_storable {constant : Constant} (storable : constant.Storable) :
    ∃ tag, constant.kind.tag? = some tag := by
  cases constant <;> first | exact ⟨_, rfl⟩ | exact storable.elim

theorem read_inverts (limit : Nat) : Inverts read Storable write limit := by
  rintro bytes constant rest -
  rw [read, bind_eq_ok_iff]
  constructor
  · rintro ⟨tag, left, first, readRest⟩
    rw [u8_eq_ok_iff.mp first]
    cases announced : ConstantKind.ofTag? tag with
    | none =>
      rw [announced] at readRest
      exact (throw_eq_ok_iff.mp readRest).elim
    | some kind =>
      rw [announced] at readRest
      have tagged := tag?_of_ofTag? announced
      have proper : kind ≠ .reserved := by
        rintro rfl
        cases tagged
      obtain ⟨⟨rfl, storable⟩, rfl⟩ := (readContents_eq_ok_iff proper).mp readRest
      exact ⟨storable, by rw [write, tagged]; rfl⟩
  · rintro ⟨storable, rfl⟩
    obtain ⟨tag, tagged⟩ := tag_of_storable storable
    have proper : constant.kind ≠ .reserved := by
      intro reserved
      rw [reserved] at tagged
      cases tagged
    refine ⟨tag, constant.contents ++ rest, ?_, ?_⟩
    · rw [write, tagged]
      rfl
    · rw [ConstantKind.ofTag?_of_tag? _ _ tagged]
      exact (readContents_eq_ok_iff proper).mpr ⟨⟨rfl, storable⟩, rfl⟩

end Constant

/-! ### Pools as the constants added to them -/

namespace Pool

theorem size_add (pool : Pool) (constant : Constant) :
    (pool.add constant).size = pool.size + constant.width := by
  by_cases wide : constant.width = 2
  · simp [add, size, wide]
  · have narrow : constant.width = 1 := by
      unfold Constant.width at wide ⊢
      split at wide <;> simp_all
    simp [add, size, narrow]

theorem width_pos (constant : Constant) : 0 < constant.width := by
  unfold Constant.width
  split <;> decide

/-- What a slot behind a wide constant holds is not written. -/
theorem flatMap_write_add (pool : Pool) (constant : Constant) :
    (pool.add constant).slots.toList.flatMap Constant.write =
      pool.slots.toList.flatMap Constant.write ++ constant.write := by
  have reserved : Constant.write .reserved = [] := rfl
  by_cases wide : constant.width = 2
  · simp [add, wide, reserved]
  · simp [add, wide]

theorem refusal?_eq_none_iff {pool : Pool} {constant : Constant} :
    pool.refusal? constant = none ↔
      constant.Storable ∧ (pool.add constant).size ≤ mostSlots := by
  rw [size_add]
  cases constant
  case utf8 text =>
    by_cases short : text.length ≤ longestText
    · simp [refusal?, Constant.Storable, short, Nat.not_lt.mpr short]
    · simp [refusal?, Constant.Storable, short, Nat.lt_of_not_le short]
  all_goals simp [refusal?, Constant.Storable]

/-- A pool with more constants added at the end. -/
def addAll (pool : Pool) (constants : List Constant) : Pool := constants.foldl add pool

theorem size_addAll (pool : Pool) (constants : List Constant) :
    (pool.addAll constants).size = pool.size + (constants.map Constant.width).sum := by
  induction constants generalizing pool with
  | nil => rfl
  | cons constant later inductionHypothesis =>
    show ((pool.add constant).addAll later).size = _
    rw [inductionHypothesis, size_add, List.map_cons, List.sum_cons, Nat.add_assoc]

theorem flatMap_write_addAll (pool : Pool) (constants : List Constant) :
    (pool.addAll constants).slots.toList.flatMap Constant.write =
      pool.slots.toList.flatMap Constant.write ++ constants.flatMap Constant.write := by
  induction constants generalizing pool with
  | nil => exact (List.append_nil _).symm
  | cons constant later inductionHypothesis =>
    show ((pool.add constant).addAll later).slots.toList.flatMap _ = _
    rw [inductionHypothesis, flatMap_write_add, List.flatMap_cons, List.append_assoc]

/-- A pool that is full has room for no constant. -/
theorem eq_nil_of_size_addAll {pool : Pool} {constants : List Constant}
    (full : (pool.addAll constants).size ≤ pool.size) : constants = [] := by
  cases constants with
  | nil => rfl
  | cons constant later =>
    have positive := width_pos constant
    rw [size_addAll, List.map_cons, List.sum_cons] at full
    omega

/-- A pool that holds what was added to it and nothing else. -/
def Assembled (pool : Pool) : Prop :=
  ∃ constants : List Constant, (∀ constant ∈ constants, constant.Storable) ∧
    pool = empty.addAll constants ∧ pool.size ≤ mostSlots

/-! ### Reading a pool -/

theorem push_of_storable {pool : Pool} {constant : Constant} (storable : constant.Storable)
    (room : (pool.add constant).size ≤ mostSlots) :
    push constant pool = (.ok (UInt16.ofNat pool.size), pool.add constant) := by
  unfold push
  rw [refusal?_eq_none_iff.mpr ⟨storable, room⟩]

/-- What reading constants adds to a pool: storable ones that fill it to the count exactly. -/
def Fills (count : Nat) (pool found : Pool) (bytes rest : Bytes) : Prop :=
  ∃ constants : List Constant, (∀ constant ∈ constants, constant.Storable) ∧
    found = pool.addAll constants ∧ found.size = count ∧
    bytes = constants.flatMap Constant.write ++ rest

theorem fills_full_iff {count : Nat} {pool found : Pool} {bytes rest : Bytes}
    (full : pool.size = count) :
    Fills count pool found bytes rest ↔ pool = found ∧ bytes = rest := by
  constructor
  · rintro ⟨constants, -, rfl, size, rfl⟩
    rw [eq_nil_of_size_addAll (Nat.le_of_eq (size.trans full.symm))]
    exact ⟨rfl, rfl⟩
  · rintro ⟨rfl, rfl⟩
    exact ⟨[], by simp, rfl, full, rfl⟩

/-- Filling a pool that has room begins with a constant that fits. -/
theorem fills_iff_of_lt {count : Nat} {pool found : Pool} {bytes rest : Bytes}
    (room : pool.size < count) :
    Fills count pool found bytes rest ↔
      ∃ constant left, Constant.read bytes = .ok (constant, left) ∧
        (pool.add constant).size ≤ count ∧ Fills count (pool.add constant) found left rest := by
  constructor
  · rintro ⟨constants, storable, rfl, size, rfl⟩
    cases constants with
    | nil => exact absurd size (Nat.ne_of_lt room)
    | cons constant later =>
      obtain ⟨first, others⟩ := List.forall_mem_cons.mp storable
      have sizeLater : ((pool.add constant).addAll later).size = count := size
      refine ⟨constant, later.flatMap Constant.write ++ rest, ?_, ?_, later, others, rfl,
        sizeLater, rfl⟩
      · refine (Constant.read_inverts _ _ _ _ (Nat.le_refl _)).mpr ⟨first, ?_⟩
        rw [List.flatMap_cons, List.append_assoc]
      · rw [size_addAll] at sizeLater
        omega
  · rintro ⟨constant, left, read, -, later, storable, rfl, size, rfl⟩
    obtain ⟨first, rfl⟩ := (Constant.read_inverts _ _ _ _ (Nat.le_refl _)).mp read
    refine ⟨constant :: later, List.forall_mem_cons.mpr ⟨first, storable⟩, rfl, size, ?_⟩
    rw [List.flatMap_cons, List.append_assoc]

theorem readConstants_eq_ok_iff {count rounds : Nat} {pool found : Pool} {bytes rest : Bytes}
    (countable : count ≤ mostSlots) (room : pool.size ≤ count)
    (enough : count ≤ pool.size + rounds) :
    readConstants count rounds pool bytes = .ok (found, rest) ↔
      Fills count pool found bytes rest := by
  induction rounds generalizing pool bytes with
  | zero =>
    rw [fills_full_iff (by omega)]
    show Except.ok (pool, bytes) = _ ↔ _
    rw [Except.ok.injEq, Prod.mk.injEq]
  | succ rounds inductionHypothesis =>
    simp only [readConstants]
    by_cases full : count ≤ pool.size
    · rw [if_pos full, fills_full_iff (Nat.le_antisymm room full), Except.ok.injEq, Prod.mk.injEq]
    rw [if_neg full, fills_iff_of_lt (Nat.lt_of_not_le full)]
    cases read : Constant.read bytes with
    | error error => simp
    | ok pair =>
      obtain ⟨constant, left⟩ := pair
      have storable := ((Constant.read_inverts _ _ _ _ (Nat.le_refl _)).mp read).1
      have positive := width_pos constant
      by_cases past : count < pool.size + constant.width
      · simp only [if_pos past, reduceCtorEq, false_iff]
        rintro ⟨_, _, same, within, -⟩
        cases same
        rw [size_add] at within
        omega
      · have within : (pool.add constant).size ≤ count := by
          rw [size_add]
          omega
        simp only [if_neg past, push_of_storable storable (Nat.le_trans within countable)]
        rw [inductionHypothesis within (by rw [size_add]; omega)]
        constructor
        · intro filled
          exact ⟨constant, left, rfl, within, filled⟩
        · rintro ⟨_, _, same, -, filled⟩
          cases same
          exact filled

/-- The pool that was read is handed on if its references lead where they should. -/
theorem checked_eq_ok_iff {found pool : Pool} {bytes rest : Bytes} :
    (match found.checkReferences with
      | .error error => throw error
      | .ok () => pure found : Reader Pool) bytes = .ok (pool, rest) ↔
      found.checkReferences = .ok () ∧ found = pool ∧ bytes = rest := by
  cases found.checkReferences with
  | error error => simp only [throw_eq_ok_iff, reduceCtorEq, false_and]
  | ok nothing => simp only [pure_eq_ok_iff, true_and]

theorem size_empty : empty.size = 1 := rfl

theorem write_empty_addAll (constants : List Constant) :
    (empty.addAll constants).write =
      BigEndian.word16 (UInt16.ofNat (empty.addAll constants).size) ++
        constants.flatMap Constant.write := by
  rw [write, flatMap_write_addAll]
  rfl

/-- A pool is read exactly if it was assembled from constants and its references lead where they
should. The table of first slots comes out of the reading too, since the pool as a whole does. -/
theorem read_inverts (limit : Nat) :
    Inverts read (fun pool => pool.Assembled ∧ pool.checkReferences = .ok ()) write limit := by
  rintro bytes pool rest -
  simp only [read, bind_eq_ok_iff, u16_eq_ok_iff, refuse_eq_ok_iff]
  constructor
  · rintro ⟨count, left, rfl, nonzero, _, _, filled, checked⟩
    obtain ⟨references, rfl, rfl⟩ := checked_eq_ok_iff.mp checked
    have countable : count.toNat ≤ mostSlots := Nat.le_of_lt_succ count.toNat_lt
    rw [readConstants_eq_ok_iff countable (by rw [size_empty]; omega)
      (by rw [size_empty]; omega)] at filled
    obtain ⟨constants, storable, rfl, size, rfl⟩ := filled
    refine ⟨⟨⟨constants, storable, rfl, size ▸ countable⟩, references⟩, ?_⟩
    rw [write_empty_addAll, size, UInt16.ofNat_toNat, List.append_assoc]
  · rintro ⟨⟨⟨constants, storable, rfl, countable⟩, references⟩, rfl⟩
    have size : (UInt16.ofNat (empty.addAll constants).size).toNat =
        (empty.addAll constants).size := by
      have below : (empty.addAll constants).size < 2 ^ 16 := Nat.lt_succ_of_le countable
      rw [UInt16.toNat_ofNat', Nat.mod_eq_of_lt below]
    have positive : empty.size ≤ (empty.addAll constants).size := by
      rw [size_addAll]
      exact Nat.le_add_right _ _
    refine ⟨UInt16.ofNat (empty.addAll constants).size,
      constants.flatMap Constant.write ++ rest, ?_, ?_, _, rest, ?_,
      checked_eq_ok_iff.mpr ⟨references, rfl, rfl⟩⟩
    · rw [write_empty_addAll, List.append_assoc]
    · rw [size]
      exact Nat.ne_of_gt positive
    · rw [size, readConstants_eq_ok_iff countable positive (Nat.le_add_left _ _)]
      exact ⟨constants, storable, rfl, rfl, rfl⟩

/-! ### Pools that can come about -/

/-- A pool that reading or interning produces. Interning that fails leaves a pool behind too. -/
inductive Obtained : Pool → Prop
  | empty : Obtained empty
  | read {bytes rest : Bytes} {pool : Pool} (read : Pool.read bytes = .ok (pool, rest)) :
      Obtained pool
  | intern {pool : Pool} (constant : Constant) (obtained : Obtained pool) :
      Obtained (intern constant pool).2

theorem addAll_append_singleton (pool : Pool) (constants : List Constant) (constant : Constant) :
    pool.addAll (constants ++ [constant]) = (pool.addAll constants).add constant := by
  rw [addAll, List.foldl_append]
  rfl

/-- Interning a constant changes nothing or adds it at the end. -/
theorem intern_snd (constant : Constant) (pool : Pool) :
    (intern constant pool).2 = pool ∨
      pool.refusal? constant = none ∧ (intern constant pool).2 = pool.add constant := by
  unfold intern
  cases pool.find? constant with
  | some index => exact .inl rfl
  | none =>
    show (push constant pool).2 = pool ∨ _ ∧ (push constant pool).2 = _
    unfold push
    cases refusal : pool.refusal? constant with
    | some error => exact .inl rfl
    | none => exact .inr ⟨rfl, rfl⟩

theorem Obtained.assembled {pool : Pool} (obtained : pool.Obtained) : pool.Assembled := by
  induction obtained with
  | empty => exact ⟨[], List.forall_mem_nil _, rfl, by decide⟩
  | read read => exact ((read_inverts _ _ _ _ (Nat.le_refl _)).mp read).1.1
  | @intern pool constant _ inductionHypothesis =>
    obtain same | ⟨accepted, added⟩ := intern_snd constant pool
    · rw [same]
      exact inductionHypothesis
    · obtain ⟨constants, storable, rfl, -⟩ := inductionHypothesis
      obtain ⟨last, room⟩ := refusal?_eq_none_iff.mp accepted
      rw [added]
      refine ⟨constants ++ [constant], ?_, (addAll_append_singleton _ _ _).symm, room⟩
      rw [List.forall_mem_append, List.forall_mem_singleton]
      exact ⟨storable, last⟩

theorem obtained_of_assembled {pool : Pool} (assembled : pool.Assembled)
    (references : pool.checkReferences = .ok ()) : pool.Obtained := by
  have read := (read_inverts _ _ _ [] (Nat.le_refl _)).mpr ⟨⟨assembled, references⟩, rfl⟩
  exact .read read

/-- Nothing that is added ever stands at the front. -/
theorem slots_addAll_zero (pool : Pool) (constants : List Constant) (front : 0 < pool.size) :
    (pool.addAll constants).slots[0]? = pool.slots[0]? := by
  induction constants generalizing pool with
  | nil => rfl
  | cons constant later inductionHypothesis =>
    show ((pool.add constant).addAll later).slots[0]? = _
    have frontLater : 0 < (pool.add constant).size := by
      rw [size_add]
      omega
    rw [inductionHypothesis _ frontLater]
    have kept : (pool.slots.push constant)[0]? = pool.slots[0]? := by
      rw [Array.getElem?_push, if_neg]
      exact Nat.ne_of_lt front
    by_cases wide : constant.width = 2
    · simp only [add, wide, if_true]
      rw [Array.getElem?_push, if_neg (by rw [Array.size_push]; omega), kept]
    · simp only [add, wide, if_false]
      exact kept

theorem get_zero_of_assembled {pool : Pool} (assembled : pool.Assembled) :
    pool.get 0 = .error (.indexOutOfRange 0 pool.size) := by
  obtain ⟨constants, -, rfl, -⟩ := assembled
  have front : (empty.addAll constants).slots[(0 : UInt16).toNat]? = some .reserved :=
    slots_addAll_zero empty constants (by decide)
  rw [get, front]

end Pool

end JavaClass
