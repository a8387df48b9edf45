/-
Interfaces and fields that are added to a class. Interfaces that the class does not have yet are
added behind those it has, once each and in the order in which they are asked for, and fields are
added behind the fields there are, as they are asked for. Nothing else of the class changes but the
pool, which grows.
-/

import JavaClass.Proofs.Enhancement.Members

namespace JavaClass

/-! ### Interfaces of a class -/

namespace ClassFile

/-- Whether a class names an interface among those it implements. -/
def implements (file : ClassFile) (name : String) : Bool :=
  file.interfaces.any fun index => (file.pool.className index).toOption == some name

/-- Those of the given interfaces that a class does not implement, once each. -/
def missingInterfaces (file : ClassFile) (names : List String) : List String :=
  (names.filter fun name => !file.implements name).eraseDups

/-- The class with an interface behind those it has, and with another pool. -/
def withInterface (pool : Pool) (index : UInt16) (file : ClassFile) : ClassFile :=
  { file with pool, interfaces := file.interfaces ++ [index] }

variable {file : ClassFile} {names : List String}

theorem contains_interfaceNames (named : file.interfaceNames = .ok names) (name : String) :
    names.contains name = file.implements name := by
  have row := Outcome.mapM_eq_ok_iff.mp named
  clear named
  unfold implements
  generalize file.interfaces = indices at row
  induction row with
  | nil => rfl
  | cons found _ inductionHypothesis =>
    rw [List.contains_cons, List.any_cons, inductionHypothesis, found, BEq.comm]
    rfl

theorem interfaceNames_withInterface (named : file.interfaceNames = .ok names) {pool : Pool}
    (grown : file.pool.Extends pool) {index : UInt16} {added : String}
    (found : pool.className index = .ok added) :
    (file.withInterface pool index).interfaceNames = .ok (names ++ [added]) := by
  have row := (Outcome.mapM_eq_ok_iff.mp named).imp fun _ _ known => grown.className known
  exact Outcome.mapM_eq_ok_iff.mpr (List.rel_append row (.cons found .nil))

/-- One interface more is implemented. -/
theorem implements_withInterface (named : file.interfaceNames = .ok names) {pool : Pool}
    (grown : file.pool.Extends pool) {index : UInt16} {added : String}
    (found : pool.className index = .ok added) (name : String) :
    (file.withInterface pool index).implements name = (file.implements name || name == added) := by
  rw [← contains_interfaceNames named,
    ← contains_interfaceNames (interfaceNames_withInterface named grown found),
    List.contains_append, List.contains_cons, List.contains_nil, Bool.or_false]

theorem missingInterfaces_cons_of_implements {name : String} (present : file.implements name = true)
    (rest : List String) :
    file.missingInterfaces (name :: rest) = file.missingInterfaces rest := by
  rw [missingInterfaces, List.filter_cons_of_neg (by rw [present]; decide), missingInterfaces]

theorem missingInterfaces_cons {name : String} (absent : file.implements name = false)
    {later : ClassFile}
    (implements : ∀ other, later.implements other = (file.implements other || other == name))
    (rest : List String) :
    file.missingInterfaces (name :: rest) = name :: later.missingInterfaces rest := by
  rw [missingInterfaces, List.filter_cons_of_pos (by rw [absent]; decide), List.eraseDups_cons,
    List.filter_filter, missingInterfaces]
  congr 2
  refine List.filter_congr fun other _ => ?_
  rw [implements, Bool.not_or, Bool.and_comm]

/-! ### Members of a class with more in it -/

theorem Legible.withInterface (legible : file.Legible) {pool : Pool}
    (grown : file.pool.Extends pool) (index : UInt16) :
    (file.withInterface pool index).Legible where
  pool := grown.assembled legible.pool
  fields := fun field member => (legible.fields field member).extends grown
  methods := fun method member => (legible.methods method member).extends grown
  bodies := legible.bodies

theorem Legible.withField (legible : file.Legible) {pool : Pool}
    (grown : file.pool.Extends pool) {field : Field} (fieldLegible : field.Legible pool) :
    { file with pool, fields := file.fields ++ [field] }.Legible where
  pool := grown.assembled legible.pool
  fields := List.forall_mem_append.mpr
    ⟨fun held member => (legible.fields held member).extends grown,
      List.forall_mem_singleton.mpr fieldLegible⟩
  methods := fun method member => (legible.methods method member).extends grown
  bodies := legible.bodies

end ClassFile

namespace Enhancement.Enhancer

variable {enhancer after : Enhancer}

/-- What adding an interface comes to: nothing, if the class implements it already. -/
theorem exists_of_addInterface (legible : enhancer.file.Legible) {name : String} {isNew : Bool}
    (ran : addInterface name enhancer = (.ok isNew, after)) :
    ∃ names, enhancer.file.interfaceNames = .ok names ∧
      (enhancer.file.implements name = true ∧ after = enhancer ∨
        enhancer.file.implements name = false ∧ ∃ pool index, enhancer.file.pool.Extends pool ∧
          pool.className index = .ok name ∧
          after = { enhancer with file := enhancer.file.withInterface pool index }) := by
  obtain ⟨present, middle, asked, ran⟩ := Stateful.bind_eq_ok_iff.mp ran
  obtain ⟨question, rfl⟩ := ask_eq_ok_iff.mp asked
  obtain ⟨names, named, answer⟩ := Outcome.bind_eq_ok_iff.mp question
  have same : names.contains name = present :=
    Outcome.pure_eq_ok_iff.mp (Outcome.check_eq_ok_iff.mp answer).2
  refine ⟨names, named, ?_⟩
  rw [← ClassFile.contains_interfaceNames named, same]
  cases present with
  | true =>
    obtain ⟨-, rfl⟩ := Stateful.pure_eq_ok_iff.mp ran
    exact .inl ⟨rfl, rfl⟩
  | false =>
    obtain ⟨index, reached, added, ran⟩ := Stateful.bind_eq_ok_iff.mp ran
    obtain ⟨pool, interned, rfl⟩ := addConstants_eq_iff.mp added
    obtain ⟨_, changed, change, done⟩ := Stateful.bind_eq_ok_iff.mp ran
    obtain ⟨-, rfl⟩ := Stateful.pure_eq_ok_iff.mp done
    have grown := (Pool.always_internClass name).relates interned
    refine .inr ⟨rfl, pool, index, grown, Pool.className_of_internClass legible.pool interned, ?_⟩
    exact (change_eq_ok_iff.mp change).symm

/-- A class that interfaces were added to, behind those it had: those of the given names that it did
not implement yet. -/
structure InterfacesAdded (names : List String) (before after : Enhancer) (added : List UInt16) :
    Prop where
  rest : after = { before with
    file := { before.file with
      pool := after.file.pool
      interfaces := before.file.interfaces ++ added } }
  pool : before.file.pool.Extends after.file.pool
  interfaces : List.Forall₂ (fun name index => after.file.pool.className index = .ok name)
    (before.file.missingInterfaces names) added
  legible : after.file.Legible

/-- Whether the interfaces of a class can be read and a name is among them. -/
def HasInterface (enhancer : Enhancer) (name : String) : Prop :=
  ∃ names, enhancer.file.interfaceNames = .ok names ∧ name ∈ names

theorem HasInterface.keeps {before after : Enhancer}
    (grown : before.file.pool.Extends after.file.pool) {added : List UInt16}
    (interfaces : after.file.interfaces = before.file.interfaces ++ added)
    {addedNames : List String}
    (named : List.Forall₂ (fun name index => after.file.pool.className index = .ok name) addedNames
      added) {name : String} (has : HasInterface before name) : HasInterface after name := by
  obtain ⟨names, read, member⟩ := has
  refine ⟨names ++ addedNames, ?_, List.mem_append_left _ member⟩
  have row := (Outcome.mapM_eq_ok_iff.mp read).imp fun _ _ known => grown.className known
  unfold ClassFile.interfaceNames
  rw [interfaces]
  exact Outcome.mapM_eq_ok_iff.mpr (List.rel_append row named.flip)

theorem InterfacesAdded.hasInterface {names : List String} {added : List UInt16}
    (interfaces : InterfacesAdded names enhancer after added) {name : String}
    (has : HasInterface enhancer name) : HasInterface after name :=
  has.keeps interfaces.pool (by rw [interfaces.rest]) interfaces.interfaces

/-- What adding interfaces one after the other comes to. -/
theorem exists_interfacesAdded (legible : enhancer.file.Legible) {names : List String}
    {nothing : PUnit}
    (ran : names.forM (fun name => discard (addInterface name)) enhancer = (.ok nothing, after)) :
    (∀ name ∈ names, HasInterface after name) ∧
      ∃ added, InterfacesAdded names enhancer after added := by
  induction names generalizing enhancer with
  | nil =>
    obtain ⟨-, rfl⟩ := Stateful.pure_eq_ok_iff.mp ran
    exact ⟨List.forall_mem_nil _, [], by rw [List.append_nil], .refl _, .nil, legible⟩
  | cons name rest inductionHypothesis =>
    obtain ⟨middle, first, others⟩ := Stateful.forM_cons_eq_ok_iff.mp ran
    obtain ⟨isNew, first⟩ := Stateful.discard_eq_ok_iff.mp first
    obtain ⟨known, named, ⟨present, rfl⟩ | ⟨absent, pool, index, grown, found, rfl⟩⟩ :=
      exists_of_addInterface legible first
    · obtain ⟨hasLater, added, later⟩ := inductionHypothesis legible others
      have has : HasInterface middle name := by
        rw [← ClassFile.contains_interfaceNames named] at present
        exact ⟨known, named, List.contains_iff_mem.mp present⟩
      refine ⟨List.forall_mem_cons.mpr ⟨later.hasInterface has, hasLater⟩, added,
        { later with interfaces := ?_ }⟩
      rw [ClassFile.missingInterfaces_cons_of_implements present]
      exact later.interfaces
    · obtain ⟨hasLater, added, later⟩ :=
        inductionHypothesis (legible.withInterface grown index) others
      have implements := ClassFile.implements_withInterface named grown found
      have has :
          HasInterface { enhancer with file := enhancer.file.withInterface pool index } name :=
        ⟨_, ClassFile.interfaceNames_withInterface named grown found, by simp⟩
      refine ⟨List.forall_mem_cons.mpr ⟨later.hasInterface has, hasLater⟩, index :: added, ?_,
        grown.trans later.pool, ?_, later.legible⟩
      · rw [later.rest, ClassFile.withInterface, List.append_assoc, List.singleton_append]
      · rw [ClassFile.missingInterfaces_cons absent implements]
        exact .cons (later.pool.className found) later.interfaces

/-! ### Fields -/

/-- A field without attributes that is what a plan asks for. -/
structure IsAdded (pool : Pool) (wanted : AddedField) (field : Field) : Prop where
  flags : field.flags = wanted.flags
  name : pool.text field.name = .ok wanted.name
  descriptor : pool.text field.descriptor = .ok wanted.descriptor
  attributes : field.attributes = []

theorem IsAdded.extends {before after : Pool} (grown : before.Extends after) {wanted : AddedField}
    {field : Field} (added : IsAdded before wanted field) : IsAdded after wanted field :=
  { added with name := grown.text added.name, descriptor := grown.text added.descriptor }

/-- A member without attributes, from the texts it was asked for with. -/
theorem memberWithoutAttributes_ok {holder : FlagHolder} {pool after : Pool}
    (assembled : pool.Assembled) {name descriptor : String} {flags : Flags holder}
    {member : Member holder}
    (made : memberWithoutAttributes name descriptor flags pool = (.ok member, after)) :
    pool.Extends after ∧ member.isCalled after name (some descriptor) = true ∧
      member.flags = flags ∧ member.attributes = [] := by
  obtain ⟨nameIndex, middle, nameInterned, made⟩ := Stateful.bind_eq_ok_iff.mp made
  obtain ⟨descriptorIndex, last, descriptorInterned, done⟩ := Stateful.bind_eq_ok_iff.mp made
  obtain ⟨rfl, rfl⟩ := Stateful.pure_eq_ok_iff.mp done
  let made : Member holder := ⟨flags, nameIndex, descriptorIndex, []⟩
  obtain ⟨grown, called⟩ := Member.isCalled_of_internText made assembled nameInterned
    descriptorInterned
  exact ⟨grown, called, rfl, rfl⟩

theorem exists_of_addField (legible : enhancer.file.Legible) {wanted : AddedField} {nothing : Unit}
    (ran : addField wanted.name wanted.descriptor wanted.flags enhancer = (.ok nothing, after)) :
    (∃ type, fieldType wanted.descriptor = .ok type) ∧
      ∃ pool field, enhancer.file.pool.Extends pool ∧
        field.isCalled pool wanted.name (some wanted.descriptor) = true ∧
        IsAdded pool wanted field ∧ after = { enhancer with
          file := { enhancer.file with pool, fields := enhancer.file.fields ++ [field] } } := by
  obtain ⟨typed, -, field, pool, made, rfl⟩ := addField_eq_ok_iff.mp ran
  obtain ⟨grown, called, flags, attributes⟩ := memberWithoutAttributes_ok legible.pool made
  obtain ⟨name, descriptor⟩ := Member.texts_of_isCalled called
  exact ⟨typed, pool, field, grown, called, ⟨flags, name, descriptor, attributes⟩, rfl⟩

/-- A class that fields were added to, behind those it had. -/
structure FieldsAdded (wanted : List AddedField) (before after : Enhancer) (added : List Field) :
    Prop where
  rest : after = { before with
    file := { before.file with
      pool := after.file.pool
      fields := before.file.fields ++ added } }
  pool : before.file.pool.Extends after.file.pool
  fields : List.Forall₂ (IsAdded after.file.pool) wanted added
  legible : after.file.Legible

/-- Whether a field that is asked for has a type and a class has one that is called so. -/
def HasField (enhancer : Enhancer) (wanted : AddedField) : Prop :=
  (∃ type, fieldType wanted.descriptor = .ok type) ∧ ∃ field ∈ enhancer.file.fields,
    field.isCalled enhancer.file.pool wanted.name (some wanted.descriptor) = true

theorem HasField.keeps {before after : Enhancer} (grown : before.file.pool.Extends after.file.pool)
    {added : List Field} (fields : after.file.fields = before.file.fields ++ added)
    {wanted : AddedField} (has : HasField before wanted) : HasField after wanted := by
  obtain ⟨typed, field, member, called⟩ := has
  refine ⟨typed, field, ?_, Member.isCalled_extends grown called⟩
  rw [fields]
  exact List.mem_append_left _ member

/-- What adding fields one after the other comes to. -/
theorem exists_fieldsAdded (legible : enhancer.file.Legible) {wanted : List AddedField}
    {nothing : PUnit}
    (ran : wanted.forM (fun field => addField field.name field.descriptor field.flags) enhancer =
      (.ok nothing, after)) :
    (∀ field ∈ wanted, HasField after field) ∧
      ∃ added, FieldsAdded wanted enhancer after added := by
  induction wanted generalizing enhancer with
  | nil =>
    obtain ⟨-, rfl⟩ := Stateful.pure_eq_ok_iff.mp ran
    exact ⟨List.forall_mem_nil _, [], by rw [List.append_nil], .refl _, .nil, legible⟩
  | cons first rest inductionHypothesis =>
    obtain ⟨middle, here, others⟩ := Stateful.forM_cons_eq_ok_iff.mp ran
    obtain ⟨typed, pool, field, grown, called, isAdded, rfl⟩ := exists_of_addField legible here
    obtain ⟨hasLater, added, later⟩ := inductionHypothesis
      (legible.withField grown (Member.legible_of_isCalled called)) others
    have has : HasField { enhancer with
        file := { enhancer.file with pool, fields := enhancer.file.fields ++ [field] } } first :=
      ⟨typed, field, List.mem_append_right _ (List.mem_singleton_self field), called⟩
    refine ⟨List.forall_mem_cons.mpr ⟨has.keeps later.pool (by rw [later.rest]), hasLater⟩,
      field :: added, ?_, grown.trans later.pool, .cons (isAdded.extends later.pool) later.fields,
      later.legible⟩
    rw [later.rest, List.append_assoc, List.singleton_append]

end Enhancement.Enhancer

end JavaClass
