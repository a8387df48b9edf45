/-
Indices that never dangle. Whatever is done to a class, with or without success, its pool holds a
class wherever the class refers to one and a text wherever a member or an attribute has its name,
and the references inside the pool lead to constants of the kinds they need. Constants are taken
back after a failure, but only those that were added since, and nothing that stays refers to them.

Bodies are made of steps that emit code. A step that is there for the constants alone could put a
reference into the pool that leads nowhere.
-/

import JavaClass.Proofs.Enhancement.Operations

namespace JavaClass

/-! ### Names of attributes -/

namespace Attributes

/-- Whether an attribute is one of the given ones, or is in the body of one of them, however deep.
-/
inductive Within (entry : Attribute) : List Attribute → Prop
  | here {attributes : List Attribute} (member : entry ∈ attributes) : Within entry attributes
  | inBody {attributes : List Attribute} {name : UInt16} {body : Body}
      (member : ⟨name, .code body⟩ ∈ attributes) (within : Within entry body.attributes) :
      Within entry attributes

/-- Whether the names of attributes are texts, those of attributes in bodies included. -/
def Named (pool : Pool) (attributes : List Attribute) : Prop :=
  ∀ entry, Within entry attributes → pool.HoldsUtf8 entry.name

theorem Named.extends {before after : Pool} (grown : before.Extends after)
    {attributes : List Attribute} (named : Named before attributes) : Named after attributes :=
  fun entry within => (named entry within).extends grown

theorem named_nil (pool : Pool) : Named pool [] := by
  intro entry within
  cases within with
  | here member => cases member
  | inBody member => cases member

theorem named_of_wellFormed {pool : Pool} {attributes : List Attribute}
    (proper : ∀ entry ∈ attributes, Attribute.WellFormed pool entry) : Named pool attributes := by
  rintro ⟨name, content⟩ within
  induction within with
  | here member =>
    obtain ⟨⟨_, text, -⟩, -⟩ := proper _ member
    exact Enhancement.holdsUtf8_of_text text
  | inBody member _ inductionHypothesis =>
    obtain ⟨-, -, body⟩ := proper _ member
    exact inductionHypothesis (Body.wellFormed_iff.mp body).2.2.2

/-- A body without attributes has no name but its own. -/
theorem named_ofCode {pool : Pool} {name : UInt16} (holds : pool.HoldsUtf8 name)
    (maxStack maxLocals : UInt16) (code : Bytes) :
    Named pool [⟨name, .code (.ofCode maxStack maxLocals code)⟩] := by
  intro entry within
  cases within with
  | here member =>
    rw [List.mem_singleton.mp member]
    exact holds
  | inBody member inner =>
    cases List.mem_singleton.mp member
    exact named_nil pool entry inner

theorem mem_setBody {attributes : List Attribute} {old new : Body}
    (found : Attributes.body? attributes = some old) {entry : Attribute}
    (member : entry ∈ Attributes.setBody new attributes) :
    entry ∈ attributes ∨ ∃ name, entry = ⟨name, .code new⟩ ∧ ⟨name, .code old⟩ ∈ attributes := by
  induction attributes with
  | nil => cases found
  | cons first rest inductionHypothesis =>
    obtain ⟨name, content⟩ := first
    cases content with
    | code held =>
      obtain rfl : held = old := Option.some.inj found
      obtain rfl | later := List.mem_cons.mp member
      · exact .inr ⟨name, rfl, List.mem_cons_self⟩
      · exact .inl (List.mem_cons_of_mem _ later)
    | _ =>
      obtain rfl | later := List.mem_cons.mp member
      · exact .inl List.mem_cons_self
      · refine (inductionHypothesis found later).imp (List.mem_cons_of_mem _) ?_
        exact fun ⟨name, same, inRest⟩ => ⟨name, same, List.mem_cons_of_mem _ inRest⟩

/-- A body in place of one with the same attributes brings no name along. -/
theorem Named.setBody {pool : Pool} {attributes : List Attribute} (named : Named pool attributes)
    {old new : Body} (found : Attributes.body? attributes = some old)
    (same : new.attributes = old.attributes) :
    Named pool (Attributes.setBody new attributes) := by
  intro entry within
  cases within with
  | here member =>
    obtain before | ⟨name, rfl, held⟩ := mem_setBody found member
    · exact named entry (.here before)
    · exact named ⟨name, .code old⟩ (.here held)
  | inBody member inner =>
    obtain before | ⟨name, isNew, held⟩ := mem_setBody found member
    · exact named entry (.inBody before inner)
    · cases isNew
      rw [same] at inner
      exact named entry (.inBody held inner)

end Attributes

/-! ### Classes without dangling indices -/

/-- A member whose name and descriptor are texts, and the names of all its attributes likewise. -/
structure Member.Named {holder : FlagHolder} (pool : Pool) (member : Member holder) : Prop where
  legible : member.Legible pool
  attributes : Attributes.Named pool member.attributes

theorem Member.Named.extends {before after : Pool} (grown : before.Extends after)
    {holder : FlagHolder} {member : Member holder} (named : member.Named before) :
    member.Named after :=
  ⟨named.legible.extends grown, named.attributes.extends grown⟩

theorem Member.WellFormed.named {pool : Pool} {holder : FlagHolder} {member : Member holder}
    (proper : member.WellFormed pool) : member.Named pool :=
  ⟨⟨proper.name, proper.descriptor⟩, Attributes.named_of_wellFormed proper.attributes.2⟩

theorem Method.Recoded.named {pool : Pool} {old new : Method} (recoded : old.Recoded new)
    (named : Member.Named pool old) : Member.Named pool new := by
  refine ⟨recoded.legible named.legible, ?_⟩
  obtain rfl | ⟨oldBody, newBody, replaces, found, rfl, revised⟩ := recoded
  · exact named.attributes
  · exact named.attributes.setBody found revised.attributes

/-- A class all of whose indices lead to constants of the kinds they need. -/
structure ClassFile.Intact (file : ClassFile) : Prop where
  references : file.pool.checkReferences = .ok ()
  thisClass : file.pool.HoldsClass file.thisClass
  superClass : ∀ index ∈ file.superClass, file.pool.HoldsClass index
  interfaces : ∀ index ∈ file.interfaces, file.pool.HoldsClass index
  fields : ∀ field ∈ file.fields, Member.Named file.pool field
  methods : ∀ method ∈ file.methods, Member.Named file.pool method
  attributes : Attributes.Named file.pool file.attributes

theorem ClassFile.WellFormed.intact {file : ClassFile} (proper : file.WellFormed) :
    file.Intact where
  references := proper.references
  thisClass := proper.thisClass
  superClass := proper.superClass
  interfaces := proper.interfaces
  fields := fun field member => (proper.fields field member).named
  methods := fun method member => (proper.methods method member).named
  attributes := Attributes.named_of_wellFormed proper.attributes.2

namespace Enhancement

theorem IsBare.intact {file : ClassFile} (bare : IsBare file) : file.Intact where
  references := bare.pool.references
  thisClass := bare.thisClass
  superClass := bare.superClass
  interfaces := by
    rw [bare.interfaces]
    exact List.forall_mem_nil _
  fields := by
    rw [bare.fields]
    exact List.forall_mem_nil _
  methods := by
    rw [bare.methods]
    exact List.forall_mem_nil _
  attributes := by
    rw [bare.attributes]
    exact Attributes.named_nil _

theorem IsMade.named {pool : Pool} {limit : Nat} {method : Method}
    (made : IsMade pool limit method) : Member.Named pool method := by
  refine ⟨made.legible, ?_⟩
  obtain none | ⟨codeName, maxStack, maxLocals, code, text, -, attributes⟩ := made.attributes
  · rw [none]
    exact Attributes.named_nil pool
  · rw [attributes]
    exact Attributes.named_ofCode (holdsUtf8_of_text text) maxStack maxLocals code

/-- What an operation does to a class leaves no index dangling if the pool is sound afterwards. -/
theorem Altered.intact {operation : Operation} {before after : ClassFile}
    (altered : Altered operation before after) (intact : before.Intact)
    (references : after.pool.checkReferences = .ok ()) : after.Intact := by
  have grown := altered.pool
  obtain ⟨addedInterfaces, interfaces, -, holdClasses⟩ := altered.interfaces
  obtain ⟨addedFields, fields, -, fieldsMade⟩ := altered.fields
  obtain ⟨kept, addedMethods, methods, row, -, methodsMade⟩ := altered.methods
  constructor
  · exact references
  · rw [altered.thisClass]
    exact intact.thisClass.extends grown
  · rw [altered.superClass]
    exact fun index member => (intact.superClass index member).extends grown
  · rw [interfaces]
    exact List.forall_mem_append.mpr
      ⟨fun index member => (intact.interfaces index member).extends grown, holdClasses⟩
  · rw [fields]
    refine List.forall_mem_append.mpr
      ⟨fun field member => (intact.fields field member).extends grown, fun field member => ?_⟩
    obtain ⟨legible, none⟩ := fieldsMade field member
    refine ⟨legible, ?_⟩
    rw [none]
    exact Attributes.named_nil after.pool
  · rw [methods]
    refine List.forall_mem_append.mpr
      ⟨fun method member => ?_, fun method member => (methodsMade method member).named⟩
    obtain ⟨old, oldMember, recoded⟩ := exists_mem_of_forall₂_right row member
    exact recoded.named ((intact.methods old oldMember).extends grown)
  · rw [altered.attributes]
    exact intact.attributes.extends grown

/-- An operation leaves a sound pool if it finds one, however it ends. -/
theorem sound_of_run {enhancer : Enhancer} (sound : enhancer.file.pool.Sound)
    {operation : Operation} (emits : operation.Emits) :
    (operation.run enhancer).2.file.pool.Sound :=
  ((Operation.always_run_of_emits emits enhancer).pool sound.assembled).sound sound

/-! ### Everything that can be reached -/

/-- No index of a class dangles, whatever was done to the class and however that ended, and whatever
is done to it next, the constants that it has stay where they are. -/
theorem intact_of_reachableBy {enhancer : Enhancer}
    (reachable : ReachableBy (fun _ operation => operation.Emits) enhancer) :
    enhancer.file.Intact ∧ ∀ operation : Operation, enhancer.file.pool.slots.toList <+:
      (operation.run enhancer).2.file.pool.slots.toList := by
  refine ⟨?_, fun operation => (altered_of_run reachable.legible operation).pool.slots_prefix⟩
  refine reachable.induction (fun _ proper => proper.intact) (fun _ bare => bare.intact)
    fun enhancer operation reachable emits altered intact => ?_
  have sound := sound_of_run ⟨reachable.legible.pool, intact.references⟩ emits
  exact altered.intact intact sound.references

/-- A class to which a method could not be added, because its body was given up after a string had
been put into the pool for it, and to which an interface was added then. -/
theorem intact_of_reachableBy_givenUp :
    ∃ enhancer, ReachableBy (fun _ operation => operation.Emits) enhancer ∧
      enhancer.file.Intact ∧ ∀ operation : Operation, enhancer.file.pool.slots.toList <+:
        (operation.run enhancer).2.file.pool.slots.toList := by
  have made : (ClassFile.create 52 "A" none).isOk = true := by decide +kernel
  cases created : ClassFile.create 52 "A" none with
  | error error =>
    rw [created] at made
    cases made
  | ok file =>
    have refused : (Operation.addMethod "m" "()V" ⟨0⟩ [.pushString "x", .refuse "no"]).Emits := by
      intro step member
      obtain rfl | rfl := List.mem_pair.mp member
      · trivial
      · trivial
    have made : ReachableBy (fun _ operation => operation.Emits) (.ofClass .silent [] file) :=
      .create created .silent []
    have added : (Operation.addInterface "I").Emits := trivial
    have reachable := (made.operate refused).operate added
    exact ⟨_, reachable, intact_of_reachableBy reachable⟩

end Enhancement

end JavaClass
