/-
Adding an interface. It takes a text and a class that names it, and they are not taken back if the
class finds no room any more: the one thing that can stay behind after a failure is the text, which
happens if it was new and took the last slot of the pool.
-/

import JavaClass.Proofs.Enhancement.Steps
import JavaClass.Proofs.Format.ClassFile
import JavaClass.Proofs.Pool.Interning

namespace JavaClass

/-! ### A class on its own -/

namespace Pool

/-- How a text is kept in a pool. -/
abbrev textConstant (text : String) : Constant := .utf8 (Text.ModifiedUtf8.encode text)

theorem refusal?_className (pool : Pool) (name : UInt16) :
    pool.refusal? (.className name) =
      if mostSlots < pool.size + 1 then some .poolOverflow else none :=
  rfl

/-- A class that cannot be interned leaves its name in the pool only if it took the last slot. -/
theorem internClass_eq_error {pool after : Pool} {name : String} {error : Error}
    (failed : internClass name pool = (.error error, after)) :
    after = pool ∨
      error = .poolOverflow ∧ pool.size + 1 = mostSlots ∧
        pool.find? (textConstant name) = none ∧ after = pool.add (textConstant name) := by
  obtain failed | ⟨text, middle, textInterned, failed⟩ := Stateful.bind_eq_error_iff.mp failed
  · exact .inl (intern_eq_error_iff.mp failed).2.2
  · obtain ⟨-, refused, rfl⟩ := intern_eq_error_iff.mp failed
    obtain ⟨-, rfl⟩ | ⟨unknown, accepted, rfl, rfl⟩ := intern_eq_ok_iff.mp textInterned
    · exact .inl rfl
    · obtain ⟨-, room⟩ := refusal?_eq_none_iff.mp accepted
      rw [refusal?_className, Option.ite_none_right_eq_some] at refused
      obtain ⟨full, same⟩ := refused
      have width : (textConstant name).width = 1 := rfl
      rw [size_add, width] at full room
      exact .inr ⟨(Option.some.inj same).symm, by omega, unknown, rfl⟩

/-- The name takes the last slot, and none is left for the class. -/
theorem internClass_of_one_free {pool : Pool} {name : String} (free : pool.size + 1 = mostSlots)
    (storable : (textConstant name).Storable) (unknown : pool.find? (textConstant name) = none)
    (unknownClass : (pool.add (textConstant name)).find? (.className (UInt16.ofNat pool.size)) =
      none) :
    internClass name pool = (.error .poolOverflow, pool.add (textConstant name)) := by
  have size : (pool.add (textConstant name)).size = mostSlots := (size_add _ _).trans free
  have accepted : pool.refusal? (textConstant name) = none :=
    refusal?_eq_none_iff.mpr ⟨storable, Nat.le_of_eq size⟩
  have interned : internText name pool =
      (.ok (UInt16.ofNat pool.size), pool.add (textConstant name)) :=
    intern_eq_ok_iff.mpr (.inr ⟨unknown, accepted, rfl, rfl⟩)
  refine Stateful.bind_eq_error_iff.mpr (.inr ⟨_, _, interned, ?_⟩)
  refine intern_eq_error_iff.mpr ⟨unknownClass, ?_, rfl⟩
  rw [refusal?_className, size, if_pos (Nat.lt_succ_self _)]

end Pool

namespace Enhancement.Enhancer

/-! ### A class being enhanced -/

/-- Adding an interface that fails leaves the class as it was or, if one slot of its pool was free
and the interface's name was not in it, with that name in the pool. -/
theorem eq_or_eq_add_of_addInterface_error {enhancer after : Enhancer} {name : String}
    {error : Error} (failed : addInterface name enhancer = (.error error, after)) :
    after = enhancer ∨
      error = .poolOverflow ∧ enhancer.file.pool.size + 1 = Pool.mostSlots ∧
        enhancer.file.pool.find? (Pool.textConstant name) = none ∧
        after = enhancer.withPool (enhancer.file.pool.add (Pool.textConstant name)) := by
  obtain failed | ⟨present, middle, asked, failed⟩ := Stateful.bind_eq_error_iff.mp failed
  · exact .inl (ask_eq_error_iff.mp failed).2.symm
  · obtain ⟨-, rfl⟩ := ask_eq_ok_iff.mp asked
    cases present with
    | true => exact absurd failed Stateful.not_pure_eq_error
    | false =>
      obtain failed | ⟨index, reached, -, failed⟩ := Stateful.bind_eq_error_iff.mp failed
      · obtain ⟨pool, refused, rfl⟩ := addConstants_eq_iff.mp failed
        obtain rfl | ⟨overflow, free, unknown, rfl⟩ := Pool.internClass_eq_error refused
        · exact .inl rfl
        · exact .inr ⟨overflow, free, unknown, rfl⟩
      · obtain failed | ⟨_, _, -, failed⟩ := Stateful.bind_eq_error_iff.mp failed
        · exact absurd failed not_change_eq_error
        · exact absurd failed Stateful.not_pure_eq_error

/-! ### A pool with one free slot -/

section crowded

variable (count : Nat)

/-- A name, the class of that name, and as many equal integers as wanted. -/
def crowdedConstants : List Constant :=
  Pool.textConstant "A" :: .className 1 :: List.replicate count (.integer 0)

/-- A class without members that keeps useless integers in its pool. -/
def crowded : ClassFile :=
  { version := ⟨0, 52⟩, pool := Pool.empty.addAll (crowdedConstants count), flags := ⟨0⟩
    thisClass := 2, superClass := none, interfaces := [], fields := [], methods := []
    attributes := [] }

theorem mem_crowdedConstants {constant : Constant} (member : constant ∈ crowdedConstants count) :
    constant = Pool.textConstant "A" ∨ constant = .className 1 ∨ constant = .integer 0 := by
  rw [crowdedConstants, List.mem_cons, List.mem_cons] at member
  exact member.imp_right fun later => later.imp_right List.eq_of_mem_replicate

theorem size_crowded : (crowded count).pool.size = count + 3 := by
  show (Pool.empty.addAll (crowdedConstants count)).size = _
  rw [Pool.size_addAll, crowdedConstants, List.map_cons, List.map_cons, List.map_replicate,
    List.sum_cons, List.sum_cons, List.sum_replicate_nat]
  show 1 + (1 + (1 + count * 1)) = count + 3
  omega

theorem storable_crowdedConstants :
    ∀ constant ∈ crowdedConstants count, constant.Storable := by
  intro constant member
  obtain rfl | rfl | rfl := mem_crowdedConstants count member
  · show (Text.ModifiedUtf8.encode "A").length ≤ 65535
    decide +kernel
  · trivial
  · trivial

variable (room : count + 3 ≤ Pool.mostSlots)

include room

/-- The integers come last. -/
theorem extends_crowded :
    (Pool.empty.addAll [Pool.textConstant "A", .className 1]).Extends (crowded count).pool := by
  refine ⟨List.replicate count (.integer 0), fun constant member => ?_, rfl, fun _ => ?_⟩
  · rw [List.eq_of_mem_replicate member]
    trivial
  · rw [size_crowded]
    exact room

theorem references_crowded : (crowded count).pool.checkReferences = .ok () := by
  rw [Pool.checkReferences, Outcome.forM_eq_ok_iff]
  intro constant member
  have slots : (crowded count).pool.slots.toList =
      .reserved :: (crowdedConstants count).flatMap Pool.slotsOf :=
    Pool.slots_addAll _ _
  rw [slots, List.mem_cons, List.mem_flatMap] at member
  obtain rfl | ⟨added, addedMember, inSlots⟩ := member
  · rfl
  · have text : (crowded count).pool.utf8 1 = .ok (Text.ModifiedUtf8.encode "A") :=
      (extends_crowded count room).utf8 rfl
    obtain rfl | rfl | rfl := mem_crowdedConstants count addedMember
    · rw [List.mem_singleton.mp inSlots]
      rfl
    · rw [List.mem_singleton.mp inSlots, Pool.checkConstant, text]
      rfl
    · rw [List.mem_singleton.mp inSlots]
      rfl

theorem wellFormed_crowded : (crowded count).WellFormed where
  version := by
    show (45 : UInt16) ≤ 52 ∧ (52 : UInt16) ≤ 69
    decide
  pool := by
    refine Pool.obtained_of_assembled ⟨_, storable_crowdedConstants count, rfl, ?_⟩
      (references_crowded count room)
    rw [size_crowded]
    exact room
  references := references_crowded count room
  thisClass := ⟨1, (extends_crowded count room).lookup rfl⟩
  superClass := fun _ impossible => nomatch impossible
  interfaceCount := (by decide : 0 < 2 ^ 16)
  interfaces := List.forall_mem_nil _
  fieldCount := (by decide : 0 < 2 ^ 16)
  fields := List.forall_mem_nil _
  methodCount := (by decide : 0 < 2 ^ 16)
  methods := List.forall_mem_nil _
  bodyCounts := List.forall_mem_nil _
  attributes := ⟨(by decide : 0 < 2 ^ 16), List.forall_mem_nil _⟩

end crowded

theorem storable_interfaceName : (Pool.textConstant "I").Storable := by
  show (Text.ModifiedUtf8.encode "I").length ≤ 65535
  decide +kernel

theorem interfaceName_not_mem_crowded (count : Nat) :
    Pool.textConstant "I" ∉ crowdedConstants count := by
  have other : Pool.textConstant "I" ≠ Pool.textConstant "A" := by
    decide +kernel
  intro member
  obtain same | same | same := mem_crowdedConstants count member
  · exact other same
  · cases same
  · cases same

/-- The class of the interface would be at an index that none has been referred to by. -/
theorem interface_not_mem_crowded {count : Nat} (full : count + 4 = Pool.mostSlots) :
    .className (UInt16.ofNat (count + 3)) ∉ crowdedConstants count ++ [Pool.textConstant "I"] := by
  intro member
  obtain member | member := List.mem_append.mp member
  · obtain same | same | same := mem_crowdedConstants count member
    · cases same
    · have index : (UInt16.ofNat (count + 3)).toNat = 1 :=
        congrArg UInt16.toNat (Constant.className.inj same)
      have limit : count + 4 = 65535 := full
      rw [UInt16.toNat_ofNat'] at index
      omega
    · cases same
  · cases List.mem_singleton.mp member

/-- The name of an interface that finds no room stays in the pool. -/
theorem addInterface_crowded {count : Nat} (full : count + 4 = Pool.mostSlots) :
    addInterface "I" (.ofClass .silent [] (crowded count)) =
      (.error .poolOverflow, Enhancer.withPool
        ((crowded count).pool.add (Pool.textConstant "I"))
        (.ofClass .silent [] (crowded count))) := by
  have size := size_crowded count
  have unknown : (crowded count).pool.find? (Pool.textConstant "I") = none :=
    Pool.find?_addAll_eq_none (storable_crowdedConstants count)
      (interfaceName_not_mem_crowded count) Std.ExtTreeMap.getElem?_empty
  have unknownClass : ((crowded count).pool.add (Pool.textConstant "I")).find?
      (.className (UInt16.ofNat (crowded count).pool.size)) = none := by
    have pool : (crowded count).pool.add (Pool.textConstant "I") =
        Pool.empty.addAll (crowdedConstants count ++ [Pool.textConstant "I"]) :=
      (Pool.addAll_append_singleton _ _ _).symm
    rw [size, pool]
    refine Pool.find?_addAll_eq_none ?_ (interface_not_mem_crowded full)
      Std.ExtTreeMap.getElem?_empty
    exact List.forall_mem_append.mpr
      ⟨storable_crowdedConstants count, List.forall_mem_singleton.mpr storable_interfaceName⟩
  have free : (crowded count).pool.size + 1 = Pool.mostSlots := by
    rw [size]
    exact full
  have refused :=
    Pool.internClass_of_one_free free storable_interfaceName unknown unknownClass
  refine Stateful.bind_eq_error_iff.mpr (.inr ⟨false, _, rfl, ?_⟩)
  refine Stateful.bind_eq_error_iff.mpr (.inl ?_)
  exact addConstants_eq_iff.mpr ⟨_, refused, rfl⟩

/-- A class that can be read from a file is not as it was after an interface could not be added. -/
theorem not_unchanged_of_addInterface_error :
    ∃ bytes file name error after, ClassFile.read bytes = .ok file ∧
      addInterface name (.ofClass .silent [] file) = (.error error, after) ∧
      after.file.pool ≠ file.pool := by
  have full : 65531 + 4 = Pool.mostSlots := rfl
  have proper : (crowded 65531).WellFormed := wellFormed_crowded 65531 (by rw [← full]; omega)
  refine ⟨(crowded 65531).write, crowded 65531, "I", .poolOverflow, _,
    ClassFile.read_eq_ok_iff.mpr ⟨proper, rfl⟩, addInterface_crowded full, fun same => ?_⟩
  have sizes := congrArg Pool.size same
  have more := Pool.size_add (crowded 65531).pool (Pool.textConstant "I")
  have width : (Pool.textConstant "I").width = 1 := rfl
  have grown : ((crowded 65531).pool.add (Pool.textConstant "I")).size =
    (crowded 65531).pool.size := sizes
  omega

/-- In a pool with one free slot the text of the interface is what stays. -/
theorem eq_or_eq_add_of_addInterface_error_crowded :
    ∃ enhancer after name error, addInterface name enhancer = (.error error, after) ∧
      (after = enhancer ∨
        error = .poolOverflow ∧ enhancer.file.pool.size + 1 = Pool.mostSlots ∧
          enhancer.file.pool.find? (Pool.textConstant name) = none ∧
          after = enhancer.withPool (enhancer.file.pool.add (Pool.textConstant name))) := by
  have full : 65531 + 4 = Pool.mostSlots := rfl
  have failed := addInterface_crowded full
  exact ⟨_, _, "I", .poolOverflow, failed, eq_or_eq_add_of_addInterface_error failed⟩

end Enhancement.Enhancer

end JavaClass
