/-
Class files in a file. Writing a class that was read gives the file back, byte for byte, and
reading what was written for a well-formed class gives the class back, its pool and the pool's
table of first slots included. Both say that reading a class and writing it are inverse to each
other, and that is proved once, from the equivalences for the parts of a class in the order in
which a file has them.
-/

import JavaClass.ClassFile.Encoding
import JavaClass.Proofs.Format.Attribute
import JavaClass.Proofs.Format.Pool

namespace JavaClass

open Reader

/-! ### Well-formed classes -/

/-- Whether a version is one that is read. -/
def Version.IsKnown (version : Version) : Prop :=
  ClassFile.oldestMajor ≤ version.major ∧ version.major ≤ ClassFile.newestMajor

/-- Whether a pool holds a class at an index. -/
def Pool.HoldsClass (pool : Pool) (index : UInt16) : Prop :=
  ∃ name, pool.classEntry index = .ok name

/-- Whether a pool holds a text at an index, be it one that can be decoded or not. -/
def Pool.HoldsUtf8 (pool : Pool) (index : UInt16) : Prop := ∃ bytes, pool.utf8 index = .ok bytes

/-- A member whose name and descriptor are texts. -/
structure Member.WellFormed {holder : FlagHolder} (pool : Pool) (member : Member holder) :
    Prop where
  name : pool.HoldsUtf8 member.name
  descriptor : pool.HoldsUtf8 member.descriptor
  attributes : Attributes.WellFormed pool member.attributes

/-- How many bodies a method has. -/
def Method.bodyCount (method : Method) : Nat :=
  method.attributes.countP fun entry => entry.content.body?.isSome

/-- A class that a file can hold. -/
structure ClassFile.WellFormed (file : ClassFile) : Prop where
  version : file.version.IsKnown
  pool : file.pool.Obtained
  references : file.pool.checkReferences = .ok ()
  thisClass : file.pool.HoldsClass file.thisClass
  superClass : ∀ index ∈ file.superClass, file.pool.HoldsClass index
  interfaceCount : file.interfaces.length < 2 ^ 16
  interfaces : ∀ index ∈ file.interfaces, file.pool.HoldsClass index
  fieldCount : file.fields.length < 2 ^ 16
  fields : ∀ field ∈ file.fields, Member.WellFormed file.pool field
  methodCount : file.methods.length < 2 ^ 16
  methods : ∀ method ∈ file.methods, Member.WellFormed file.pool method
  bodyCounts : ∀ method ∈ file.methods, method.bodyCount ≤ 1
  attributes : Attributes.WellFormed file.pool file.attributes

/-! ### The parts of a class -/

theorem Version.isKnown_iff {version : Version} :
    version.IsKnown ↔ ¬(version.major < ClassFile.oldestMajor ||
      ClassFile.newestMajor < version.major) = true := by
  rw [Bool.or_eq_true, decide_eq_true_iff, decide_eq_true_iff, not_or, UInt16.not_lt,
    UInt16.not_lt]
  rfl

theorem Version.read_inverts (limit : Nat) :
    Inverts Version.read Version.IsKnown
      (fun version => BigEndian.word16 version.minor ++ BigEndian.word16 version.major) limit := by
  rintro bytes ⟨minor, major⟩ rest -
  simp only [Version.read, bind_eq_ok_iff, u16_eq_ok_iff, refuse_eq_ok_iff, pure_eq_ok_iff,
    isKnown_iff, List.append_assoc]
  constructor
  · rintro ⟨_, _, rfl, _, _, rfl, known, same, rfl⟩
    cases same
    exact ⟨known, rfl⟩
  · rintro ⟨known, rfl⟩
    exact ⟨minor, _, rfl, major, rest, rfl, known, rfl, rfl⟩

theorem readClassIndex_inverts (pool : Pool) (limit : Nat) :
    Inverts (readClassIndex pool) pool.HoldsClass BigEndian.word16 limit := by
  rintro bytes index rest -
  simp only [readClassIndex, bind_eq_ok_iff, u16_eq_ok_iff, check_eq_ok_iff, pure_eq_ok_iff]
  constructor
  · rintro ⟨_, _, rfl, _, _, ⟨holds, rfl⟩, rfl, rfl⟩
    exact ⟨holds, rfl⟩
  · rintro ⟨holds, rfl⟩
    exact ⟨index, rest, rfl, (), rest, ⟨holds, rfl⟩, rfl, rfl⟩

/-- No class stands at zero, so zero can stand for none. -/
theorem not_holdsClass_zero {pool : Pool} (assembled : pool.Assembled) : ¬pool.HoldsClass 0 := by
  rintro ⟨name, found⟩
  rw [Pool.classEntry, Pool.lookup, Pool.get_zero_of_assembled assembled] at found
  cases found

theorem readOptionalClassIndex_inverts {pool : Pool} (assembled : pool.Assembled) (limit : Nat) :
    Inverts (readOptionalClassIndex pool) (fun superClass => ∀ index ∈ superClass,
      pool.HoldsClass index) (fun superClass => BigEndian.word16 (superClass.getD 0)) limit := by
  rintro bytes superClass rest -
  rw [readOptionalClassIndex, bind_eq_ok_iff]
  simp only [u16_eq_ok_iff]
  constructor
  · rintro ⟨index, left, rfl, read⟩
    by_cases zero : index = 0
    · rw [if_pos zero, pure_eq_ok_iff] at read
      obtain ⟨rfl, rfl⟩ := read
      exact ⟨by simp, by rw [zero]; rfl⟩
    · simp only [if_neg zero, bind_eq_ok_iff, check_eq_ok_iff, pure_eq_ok_iff] at read
      obtain ⟨_, _, ⟨holds, rfl⟩, rfl, rfl⟩ := read
      exact ⟨fun _ member => Option.some.inj member ▸ holds, rfl⟩
  · rintro ⟨holds, rfl⟩
    cases superClass with
    | none => exact ⟨0, rest, rfl, pure_eq_ok_iff.mpr ⟨rfl, rfl⟩⟩
    | some index =>
      have holdsIndex : pool.HoldsClass index := holds index rfl
      have nonzero : index ≠ 0 := by
        rintro rfl
        exact not_holdsClass_zero assembled holdsIndex
      refine ⟨index, rest, rfl, ?_⟩
      simp only [if_neg nonzero, bind_eq_ok_iff, check_eq_ok_iff, pure_eq_ok_iff]
      exact ⟨(), rest, ⟨holdsIndex, rfl⟩, trivial, rfl⟩

theorem Member.read_inverts {holder : FlagHolder} (pool : Pool) (limit : Nat) :
    Inverts (Member.read pool) (fun member : Member holder => member.WellFormed pool) Member.write
      limit := by
  rintro bytes ⟨flags, name, descriptor, attributes⟩ rest short
  have readAttributes := Attributes.read_inverts pool limit
  simp only [Member.read, bind_eq_ok_iff, u16_eq_ok_iff, check_eq_ok_iff, pure_eq_ok_iff,
    Member.write, List.append_assoc]
  constructor
  · rintro ⟨_, _, rfl, _, _, rfl, _, _, rfl, _, _, ⟨holdsName, rfl⟩, _, _, ⟨holdsDescriptor, rfl⟩,
      _, _, read, same, rfl⟩
    cases same
    simp only [List.length_append] at short
    obtain ⟨proper, rfl⟩ := (readAttributes _ _ _ (by omega)).mp read
    exact ⟨⟨holdsName, holdsDescriptor, proper⟩, rfl⟩
  · rintro ⟨⟨holdsName, holdsDescriptor, proper⟩, rfl⟩
    simp only [List.length_append] at short
    refine ⟨_, _, rfl, _, _, rfl, _, _, rfl, (), _, ⟨holdsName, rfl⟩, (), _,
      ⟨holdsDescriptor, rfl⟩, _, _, (readAttributes _ _ _ ?_).mpr ⟨proper, rfl⟩, rfl, rfl⟩
    rw [List.length_append]
    omega

theorem Method.read_inverts (pool : Pool) (limit : Nat) :
    Inverts (Method.read pool)
      (fun method => Member.WellFormed pool method ∧ method.bodyCount ≤ 1) Member.write
      limit := by
  intro bytes method rest short
  simp only [Method.read, bind_eq_ok_iff, refuse_eq_ok_iff, pure_eq_ok_iff]
  constructor
  · rintro ⟨_, _, read, single, rfl, rfl⟩
    obtain ⟨proper, rfl⟩ := (Member.read_inverts pool limit _ _ _ short).mp read
    exact ⟨⟨proper, Nat.le_of_not_lt single⟩, rfl⟩
  · rintro ⟨⟨proper, single⟩, rfl⟩
    exact ⟨method, rest, (Member.read_inverts pool limit _ _ _ short).mpr ⟨proper, rfl⟩,
      Nat.not_lt.mpr single, rfl, rfl⟩

/-! ### Whole classes -/

theorem readInterfaces_inverts (pool : Pool) (limit : Nat) :
    Inverts (counted (readClassIndex pool))
      (fun interfaces => interfaces.length < 2 ^ 16 ∧ ∀ index ∈ interfaces, pool.HoldsClass index)
      (writeCounted BigEndian.word16) limit :=
  counted_inverts (readClassIndex_inverts pool limit)

theorem readFields_inverts (pool : Pool) (limit : Nat) :
    Inverts (counted (Member.read pool))
      (fun fields : List Field => fields.length < 2 ^ 16 ∧ ∀ field ∈ fields, field.WellFormed pool)
      (writeCounted Member.write) limit :=
  counted_inverts (Member.read_inverts pool limit)

theorem readMethods_inverts (pool : Pool) (limit : Nat) :
    Inverts (counted (Method.read pool))
      (fun methods => methods.length < 2 ^ 16 ∧
        ∀ method ∈ methods, Member.WellFormed pool method ∧ method.bodyCount ≤ 1)
      (writeCounted Member.write) limit :=
  counted_inverts (Method.read_inverts pool limit)

theorem ClassFile.wellFormed_of_readFront {bytes rest : Bytes} {file : ClassFile}
    (read : ClassFile.readFront bytes = .ok (file, rest)) :
    file.WellFormed ∧ bytes = file.write ++ rest := by
  simp only [ClassFile.readFront, bind_eq_ok_iff, u16_eq_ok_iff, u32_eq_ok_iff, refuse_eq_ok_iff,
    pure_eq_ok_iff] at read
  obtain ⟨_, _, rfl, magic, version, _, versionRead, pool, _, poolRead, flags, _, rfl,
    thisClass, _, thisRead, superClass, _, superRead, interfaces, _, interfacesRead,
    fields, _, fieldsRead, methods, _, methodsRead, attributes, _, attributesRead, rfl, rfl⟩ := read
  obtain ⟨known, rfl⟩ := (Version.read_inverts _ _ _ _ (Nat.le_refl _)).mp versionRead
  obtain ⟨⟨assembled, references⟩, rfl⟩ :=
    (Pool.read_inverts _ _ _ _ (Nat.le_refl _)).mp poolRead
  obtain ⟨holdsThis, rfl⟩ := (readClassIndex_inverts pool _ _ _ _ (Nat.le_refl _)).mp thisRead
  obtain ⟨holdsSuper, rfl⟩ :=
    (readOptionalClassIndex_inverts assembled _ _ _ _ (Nat.le_refl _)).mp superRead
  obtain ⟨⟨interfaceCount, holdsInterfaces⟩, rfl⟩ :=
    (readInterfaces_inverts pool _ _ _ _ (Nat.le_refl _)).mp interfacesRead
  obtain ⟨⟨fieldCount, fieldsProper⟩, rfl⟩ :=
    (readFields_inverts pool _ _ _ _ (Nat.le_refl _)).mp fieldsRead
  obtain ⟨⟨methodCount, methodsProper⟩, rfl⟩ :=
    (readMethods_inverts pool _ _ _ _ (Nat.le_refl _)).mp methodsRead
  obtain ⟨attributesProper, rfl⟩ :=
    (Attributes.read_inverts pool _ _ _ _ (Nat.le_refl _)).mp attributesRead
  refine ⟨?_, by rw [Decidable.not_not.mp magic]; simp only [ClassFile.write, List.append_assoc]⟩
  exact {
    version := known
    pool := Pool.obtained_of_assembled assembled references
    references
    thisClass := holdsThis
    superClass := holdsSuper
    interfaceCount
    interfaces := holdsInterfaces
    fieldCount
    fields := fieldsProper
    methodCount
    methods := fun method member => (methodsProper method member).1
    bodyCounts := fun method member => (methodsProper method member).2
    attributes := attributesProper }

theorem ClassFile.readFront_written {file : ClassFile} (proper : file.WellFormed) (rest : Bytes) :
    ClassFile.readFront (file.write ++ rest) = .ok (file, rest) := by
  simp only [ClassFile.readFront, bind_eq_ok_iff, u16_eq_ok_iff, u32_eq_ok_iff, refuse_eq_ok_iff,
    pure_eq_ok_iff, ClassFile.write, List.append_assoc]
  have assembled := proper.pool.assembled
  have methodsProper : ∀ method ∈ file.methods,
      Member.WellFormed file.pool method ∧ method.bodyCount ≤ 1 :=
    fun method member => ⟨proper.methods method member, proper.bodyCounts method member⟩
  refine ⟨_, _, rfl, not_not_intro rfl,
    _, _, (Version.read_inverts _ _ _ _ (Nat.le_refl _)).mpr
      ⟨proper.version, (List.append_assoc _ _ _).symm⟩,
    _, _, (Pool.read_inverts _ _ _ _ (Nat.le_refl _)).mpr ⟨⟨assembled, proper.references⟩, rfl⟩,
    _, _, rfl,
    _, _, (readClassIndex_inverts _ _ _ _ _ (Nat.le_refl _)).mpr ⟨proper.thisClass, rfl⟩,
    _, _, (readOptionalClassIndex_inverts assembled _ _ _ _ (Nat.le_refl _)).mpr
      ⟨proper.superClass, rfl⟩,
    _, _, (readInterfaces_inverts _ _ _ _ _ (Nat.le_refl _)).mpr
      ⟨⟨proper.interfaceCount, proper.interfaces⟩, rfl⟩,
    _, _, (readFields_inverts _ _ _ _ _ (Nat.le_refl _)).mpr
      ⟨⟨proper.fieldCount, proper.fields⟩, rfl⟩,
    _, _, (readMethods_inverts _ _ _ _ _ (Nat.le_refl _)).mpr
      ⟨⟨proper.methodCount, methodsProper⟩, rfl⟩,
    _, _, (Attributes.read_inverts _ _ _ _ _ (Nat.le_refl _)).mpr ⟨proper.attributes, rfl⟩,
    rfl, rfl⟩

/-- Reading the front of a file, the magic number included, and writing it are inverse to each
other. What stands behind it is not looked at. -/
theorem ClassFile.readFront_eq_ok_iff {bytes rest : Bytes} {file : ClassFile} :
    ClassFile.readFront bytes = .ok (file, rest) ↔
      file.WellFormed ∧ bytes = file.write ++ rest := by
  constructor
  · exact ClassFile.wellFormed_of_readFront
  · intro ⟨proper, written⟩
    rw [written]
    exact ClassFile.readFront_written proper rest

theorem ClassFile.read_eq_ok_iff {bytes : Bytes} {file : ClassFile} :
    ClassFile.read bytes = .ok file ↔ file.WellFormed ∧ bytes = file.write := by
  have front : ClassFile.readFront bytes = .ok (file, []) ↔ _ := ClassFile.readFront_eq_ok_iff
  rw [List.append_nil] at front
  rw [← front, ClassFile.read]
  cases ClassFile.readFront bytes with
  | error error => simp
  | ok pair =>
    obtain ⟨found, extra⟩ := pair
    cases extra with
    | nil => simp
    | cons byte others => simp

namespace ClassFile

/-! ### Files and classes -/

/-- No byte is lost or normalised: a class is written as the file that it was read from. -/
theorem write_of_read {bytes : Bytes} {file : ClassFile} (read : ClassFile.read bytes = .ok file) :
    file.write = bytes :=
  (read_eq_ok_iff.mp read).2.symm

/-- A file that has a text twice, a constant that takes two slots, unknown flags, no superclass, a
method whose body has a handler for everything and a frame, and an attribute of an unknown name. -/
def fileOfMethod : Bytes :=
  [0xCA, 0xFE, 0xBA, 0xBE, 0, 3, 0, 52,
    0, 10, 7, 0, 2, 1, 0, 1, 65, 1, 0, 4, 67, 111, 100, 101, 1, 0, 3, 40, 41, 86,
    5, 0, 0, 0, 0, 0, 0, 0, 7, 1, 0, 1, 65,
    1, 0, 13, 83, 116, 97, 99, 107, 77, 97, 112, 84, 97, 98, 108, 101, 1, 0, 1, 63,
    0xFF, 0xFF, 0, 1, 0, 0, 0, 0, 0, 0,
    0, 1, 0, 8, 0, 7, 0, 4, 0, 1,
    0, 3, 0, 0, 0, 33, 0, 0, 0, 1, 0, 0, 0, 4, 0xA7, 0, 3, 0xB1,
    0, 1, 0, 0, 0, 3, 0, 3, 0, 0, 0, 1, 0, 8, 0, 0, 0, 3, 0, 1, 3,
    0, 1, 0, 9, 0, 0, 0, 2, 1, 2]

theorem write_of_read_fileOfMethod :
    ∃ file, ClassFile.read fileOfMethod = .ok file ∧ file.write = fileOfMethod := by
  obtain ⟨file, read⟩ : ∃ file, ClassFile.read fileOfMethod = .ok file := ⟨_, rfl⟩
  exact ⟨file, read, write_of_read read⟩

/-- A well-formed class is read from what it is written as, its pool with the table of first slots
included. -/
theorem read_write {file : ClassFile} (proper : file.WellFormed) :
    ClassFile.read file.write = .ok file :=
  read_eq_ok_iff.mpr ⟨proper, rfl⟩

/-- The pool that `ofMethod` refers to. -/
def poolOfMethod : Pool :=
  (Pool.intern (.utf8 [40, 41, 86]) (Pool.intern (.utf8 [67, 111, 100, 101])
    (Pool.intern (.className 1) (Pool.intern (.utf8 [65]) Pool.empty).2).2).2).2

/-- A class with a method that returns at once. -/
def ofMethod : ClassFile where
  version := ⟨0, 65⟩
  pool := poolOfMethod
  flags := ClassFlags.accPublic
  thisClass := 2
  superClass := none
  interfaces := []
  fields := []
  methods := [⟨MethodFlags.accStatic, 1, 4, [⟨3, .code (Body.ofCode 0 1 [0xB1])⟩]⟩]
  attributes := []

theorem obtained_poolOfMethod : poolOfMethod.Obtained :=
  .intern _ (.intern _ (.intern _ (.intern _ .empty)))

theorem wellFormed_ofMethod : ofMethod.WellFormed where
  version := ⟨by decide, by decide⟩
  pool := obtained_poolOfMethod
  references := rfl
  thisClass := ⟨_, rfl⟩
  superClass := fun _ member => nomatch member
  interfaceCount := by decide
  interfaces := List.forall_mem_nil _
  fieldCount := by decide
  fields := List.forall_mem_nil _
  methodCount := by decide
  methods := by
    refine List.forall_mem_singleton.mpr ⟨⟨_, rfl⟩, ⟨_, rfl⟩, by decide, ?_⟩
    refine List.forall_mem_singleton.mpr ⟨⟨"Code", rfl, rfl⟩, by decide, ?_⟩
    exact ⟨by decide, ⟨by decide, List.forall_mem_nil _⟩, by decide, trivial⟩
  bodyCounts := List.forall_mem_singleton.mpr (by decide)
  attributes := ⟨by decide, List.forall_mem_nil _⟩

theorem read_write_ofMethod : ClassFile.read ofMethod.write = .ok ofMethod :=
  read_write wellFormed_ofMethod

end ClassFile

end JavaClass
