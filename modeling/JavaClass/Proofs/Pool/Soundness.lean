/-
References inside a pool. A pool that can be read back has no reference that leads astray, and this
is kept when a constant is added whose own references lead to constants that are there already.
Interning a text, a class or a member puts what is referred to into the pool before what refers to
it, so a sound pool stays sound.
-/

import JavaClass.Proofs.Pool.Interning

namespace JavaClass

/-- The indices of other constants that are in a constant. -/
def Constant.references : Constant → List UInt16
  | .className index | .string index | .methodType index | .module index | .package index
  | .methodHandle _ index | .dynamic _ index | .invokeDynamic _ index => [index]
  | .field first second | .method first second | .interfaceMethod first second
  | .nameAndType first second => [first, second]
  | .utf8 _ | .integer _ | .float _ | .long _ | .double _ | .reserved => []

namespace Pool

/-! ### Checking references -/

theorem checkReferences_eq_ok_iff {pool : Pool} :
    pool.checkReferences = .ok () ↔
      ∀ constant ∈ pool.slots.toList, pool.checkConstant constant = .ok () :=
  Outcome.forM_eq_ok_iff

theorem mem_slots_of_get {pool : Pool} {index : UInt16} {constant : Constant}
    (got : pool.get index = .ok constant) : constant ∈ pool.slots.toList := by
  obtain ⟨-, slot⟩ := get_eq_ok_iff.mp got
  exact List.mem_of_getElem? (Array.getElem?_toList.trans slot)

theorem lt_size_of_get {pool : Pool} {index : UInt16} {constant : Constant}
    (got : pool.get index = .ok constant) : index.toNat < pool.size := by
  obtain ⟨-, slot⟩ := get_eq_ok_iff.mp got
  exact (Array.getElem?_eq_some_iff.mp slot).1

theorem lt_size_of_lookup {pool : Pool} {α : Type} {expected : ExpectedConstant}
    {select : Constant → Option α} {index : UInt16} {value : α}
    (found : pool.lookup expected select index = .ok value) : index.toNat < pool.size := by
  obtain ⟨constant, got, -⟩ := lookup_eq_ok_iff.mp found
  exact lt_size_of_get got

/-- References that lead to the right constants lead into the pool. -/
theorem lt_size_of_checkConstant {pool : Pool} {constant : Constant}
    (checked : pool.checkConstant constant = .ok ()) :
    ∀ reference ∈ constant.references, reference.toNat < pool.size := by
  cases constant with
  | className | string | methodType | module | package =>
    obtain ⟨text, found⟩ := Outcome.discard_eq_ok_iff.mp checked
    exact List.forall_mem_singleton.mpr (lt_size_of_lookup found)
  | field | method | interfaceMethod | nameAndType =>
    simp only [checkConstant, Outcome.bind_eq_ok_iff, Outcome.discard_eq_ok_iff] at checked
    obtain ⟨_, ⟨_, first⟩, _, second⟩ := checked
    exact List.forall_mem_cons.mpr
      ⟨lt_size_of_lookup first, List.forall_mem_singleton.mpr (lt_size_of_lookup second)⟩
  | methodHandle =>
    obtain ⟨held, found⟩ := Outcome.discard_eq_ok_iff.mp checked
    exact List.forall_mem_singleton.mpr (lt_size_of_get found)
  | dynamic | invokeDynamic =>
    obtain ⟨entries, found⟩ := Outcome.discard_eq_ok_iff.mp checked
    exact List.forall_mem_singleton.mpr (lt_size_of_lookup found)
  | utf8 | integer | float | long | double | reserved => exact List.forall_mem_nil _

/-- Where the references have been checked, they lead into the pool. -/
theorem lt_size_of_slot {pool : Pool} (references : pool.checkReferences = .ok ()) {place : Nat}
    {constant : Constant} (slot : pool.slots[place]? = some constant) :
    ∀ reference ∈ constant.references, reference.toNat < pool.size :=
  lt_size_of_checkConstant (checkReferences_eq_ok_iff.mp references constant
    (List.mem_of_getElem? (Array.getElem?_toList.trans slot)))

theorem checkConstant_of_get {pool : Pool} (references : pool.checkReferences = .ok ())
    {index : UInt16} {constant : Constant} (got : pool.get index = .ok constant) :
    pool.checkConstant constant = .ok () :=
  checkReferences_eq_ok_iff.mp references constant (mem_slots_of_get got)

/-- Where the references have been checked, what a class is named by is a text. -/
theorem exists_utf8_of_classEntry {pool : Pool} (references : pool.checkReferences = .ok ())
    {index name : UInt16} (found : pool.classEntry index = .ok name) :
    ∃ bytes, pool.utf8 name = .ok bytes :=
  Outcome.discard_eq_ok_iff.mp
    (checkConstant_of_get references (classEntry_eq_ok_iff.mp found))

/-- References that led to the right constants do so in a pool that has grown. -/
theorem Extends.checkConstant {before after : Pool} (grown : before.Extends after)
    {constant : Constant} (checked : before.checkConstant constant = .ok ()) :
    after.checkConstant constant = .ok () := by
  cases constant with
  | className | string | methodType | module | package =>
    obtain ⟨text, found⟩ := Outcome.discard_eq_ok_iff.mp checked
    exact Outcome.discard_eq_ok_iff.mpr ⟨text, grown.utf8 found⟩
  | field | method | interfaceMethod =>
    simp only [Pool.checkConstant, Outcome.bind_eq_ok_iff, Outcome.discard_eq_ok_iff]
      at checked ⊢
    obtain ⟨_, ⟨name, owner⟩, entries, member⟩ := checked
    exact ⟨(), ⟨name, grown.lookup owner⟩, entries, grown.lookup member⟩
  | nameAndType =>
    simp only [Pool.checkConstant, Outcome.bind_eq_ok_iff, Outcome.discard_eq_ok_iff]
      at checked ⊢
    obtain ⟨_, ⟨first, name⟩, second, descriptor⟩ := checked
    exact ⟨(), ⟨first, grown.utf8 name⟩, second, grown.utf8 descriptor⟩
  | methodHandle =>
    obtain ⟨held, found⟩ := Outcome.discard_eq_ok_iff.mp checked
    exact Outcome.discard_eq_ok_iff.mpr ⟨held, grown.get found⟩
  | dynamic | invokeDynamic =>
    obtain ⟨entries, found⟩ := Outcome.discard_eq_ok_iff.mp checked
    exact Outcome.discard_eq_ok_iff.mpr ⟨entries, grown.lookup found⟩
  | utf8 | integer | float | long | double | reserved => rfl

/-- A pool in which constants were entered as they came, and whose references lead to constants of
the kinds they need. -/
structure Sound (pool : Pool) : Prop where
  assembled : pool.Assembled
  references : pool.checkReferences = .ok ()

theorem Sound.add {pool : Pool} (sound : pool.Sound) {constant : Constant}
    (accepted : pool.refusal? constant = none)
    (checked : pool.checkConstant constant = .ok ()) : (pool.add constant).Sound := by
  have grown := extends_add accepted
  refine ⟨grown.assembled sound.assembled, checkReferences_eq_ok_iff.mpr ?_⟩
  rw [slots_add, List.forall_mem_append]
  refine ⟨fun held member => ?_, fun held member => ?_⟩
  · exact grown.checkConstant (checkReferences_eq_ok_iff.mp sound.references held member)
  · unfold slotsOf at member
    rcases List.mem_cons.mp member with rfl | behind
    · exact grown.checkConstant checked
    · split at behind
      · rw [List.mem_singleton.mp behind]
        rfl
      · cases behind

/-! ### Interning -/

section interning

variable {pool after : Pool} {index : UInt16}

theorem classEntry_of_internClass (assembled : pool.Assembled) {name : String}
    (interned : internClass name pool = (.ok index, after)) :
    ∃ entry, after.classEntry index = .ok entry := by
  have found := className_of_internClass assembled interned
  simp only [className, Outcome.bind_eq_ok_iff] at found
  obtain ⟨entry, found, -⟩ := found
  exact ⟨entry, found⟩

theorem nameAndTypeEntry_of_internNameAndType (assembled : pool.Assembled)
    {name descriptor : String}
    (interned : internNameAndType name descriptor pool = (.ok index, after)) :
    ∃ entries, after.nameAndTypeEntry index = .ok entries := by
  have found := nameAndType_of_internNameAndType assembled interned
  simp only [nameAndType, Outcome.bind_eq_ok_iff] at found
  obtain ⟨entries, found, -⟩ := found
  exact ⟨entries, found⟩

end interning

namespace Sound

variable {pool : Pool} (sound : pool.Sound)

include sound

theorem intern {constant : Constant} (checked : pool.checkConstant constant = .ok ()) :
    (Pool.intern constant pool).2.Sound := by
  obtain same | ⟨accepted, added⟩ := intern_snd constant pool
  · rw [same]
    exact sound
  · rw [added]
    exact sound.add accepted checked

theorem internText (text : String) : (Pool.internText text pool).2.Sound := sound.intern rfl

/-- A class that finds no room leaves a pool that is sound, be it with or without its name. -/
theorem internClass (name : String) : (Pool.internClass name pool).2.Sound := by
  refine Stateful.holds_after_bind (sound.internText name) fun text middle interned here => ?_
  have holds := utf8_of_internText sound.assembled interned
  exact here.intern (Outcome.discard_eq_ok_iff.mpr ⟨_, holds⟩)

theorem internString (text : String) : (Pool.internString text pool).2.Sound := by
  refine Stateful.holds_after_bind (sound.internText text) fun held middle interned here => ?_
  have holds := utf8_of_internText sound.assembled interned
  exact here.intern (Outcome.discard_eq_ok_iff.mpr ⟨_, holds⟩)

theorem internNameAndType (name descriptor : String) :
    (Pool.internNameAndType name descriptor pool).2.Sound := by
  refine Stateful.holds_after_bind (sound.internText name) fun first middle nameInterned here => ?_
  refine Stateful.holds_after_bind (here.internText descriptor)
    fun second last descriptorInterned there => ?_
  have grown := (always_internText descriptor).relates descriptorInterned
  have nameHolds := grown.utf8 (utf8_of_internText sound.assembled nameInterned)
  have descriptorHolds := utf8_of_internText here.assembled descriptorInterned
  refine there.intern ?_
  simp only [checkConstant, Outcome.bind_eq_ok_iff, Outcome.discard_eq_ok_iff]
  exact ⟨(), ⟨_, nameHolds⟩, _, descriptorHolds⟩

theorem internMember {make : UInt16 → UInt16 → Constant} (member : IsMember make)
    (owner name descriptor : String) :
    (Pool.internMember make owner name descriptor pool).2.Sound := by
  refine Stateful.holds_after_bind (sound.internClass owner)
    fun first middle ownerInterned here => ?_
  refine Stateful.holds_after_bind (here.internNameAndType name descriptor)
    fun second last typeInterned there => ?_
  have grown := (always_internNameAndType name descriptor).relates typeInterned
  obtain ⟨nameIndex, ownerFound⟩ := classEntry_of_internClass sound.assembled ownerInterned
  have typeFound := nameAndTypeEntry_of_internNameAndType here.assembled typeInterned
  have checked : last.checkConstant (.field first second) = .ok () := by
    simp only [checkConstant, Outcome.bind_eq_ok_iff, Outcome.discard_eq_ok_iff]
    exact ⟨(), ⟨nameIndex, grown.lookup ownerFound⟩, typeFound⟩
  refine there.intern ?_
  obtain rfl | rfl | rfl := member
  · exact checked
  · exact checked
  · exact checked

end Sound

end Pool

end JavaClass
