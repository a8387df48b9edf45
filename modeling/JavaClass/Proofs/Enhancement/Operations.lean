/-
What operations come to, all of them alike. Whichever operation is run on a class, and however it
ends, the class gets interfaces, fields and methods behind those it has, no more than were asked
for, and constants at the end of its pool; a method that it had keeps everything but the code of its
body, and that code keeps its length. `Altered` says so, and what holds of every class that can be
reached is shown from it, whatever operations are permitted on the way.
-/

import JavaClass.Proofs.Enhancement.Atomicity
import JavaClass.Proofs.Enhancement.Soundness

namespace JavaClass

namespace Enhancement

open Enhancer

/-! ### What is asked for -/

namespace Operation

/-- How many interfaces are asked for. -/
def interfacesAsked : Operation → Nat
  | addInterface _ => 1
  | apply plan => plan.interfaces.length
  | _ => 0

/-- How many fields are asked for. -/
def fieldsAsked : Operation → Nat
  | addField .. => 1
  | apply plan => plan.addedFields.length
  | _ => 0

/-- How many methods are asked for. -/
def methodsAsked : Operation → Nat
  | addMethod .. | addAbstractMethod .. => 1
  | addAccessors managed => (wantedAccessors managed.accessors).length
  | apply plan => (plan.managedFields.map fun managed =>
      (wantedAccessors managed.accessors).length).sum
  | _ => 0

/-- The most code that a body has that is made for a class. -/
def mostCode (file : ClassFile) : Operation → Nat
  | addMethod _ descriptor flags steps =>
    match methodType descriptor with
    | .error _ => 0
    | .ok type => (CodeStep.runAll steps
        (.startMethod file.pool (flags.has MethodFlags.accStatic) type)).2.code.size
  | addAccessors _ | apply _ => longestAccessor
  | _ => 0

end Operation

/-! ### What becomes of a class -/

/-- What an operation may have made of a class, whether or not it succeeded. -/
structure Altered (operation : Operation) (before after : ClassFile) : Prop where
  version : after.version = before.version
  flags : after.flags = before.flags
  thisClass : after.thisClass = before.thisClass
  superClass : after.superClass = before.superClass
  attributes : after.attributes = before.attributes
  pool : before.pool.Extends after.pool
  interfaces : ∃ added, after.interfaces = before.interfaces ++ added ∧
    added.length ≤ operation.interfacesAsked ∧ ∀ index ∈ added, after.pool.HoldsClass index
  fields : ∃ added, after.fields = before.fields ++ added ∧
    added.length ≤ operation.fieldsAsked ∧
      ∀ field ∈ added, field.Legible after.pool ∧ field.attributes = []
  methods : ∃ kept added, after.methods = kept ++ added ∧
    List.Forall₂ Method.Recoded before.methods kept ∧ added.length ≤ operation.methodsAsked ∧
      ∀ method ∈ added, IsMade after.pool (operation.mostCode before) method

/-- Whatever has become of the pool, nothing else was touched. -/
theorem Altered.withPool (operation : Operation) {enhancer : Enhancer} {pool : Pool}
    (grown : enhancer.file.pool.Extends pool) :
    Altered operation enhancer.file (enhancer.withPool pool).file where
  version := rfl
  flags := rfl
  thisClass := rfl
  superClass := rfl
  attributes := rfl
  pool := grown
  interfaces := ⟨[], (List.append_nil _).symm, Nat.zero_le _, List.forall_mem_nil _⟩
  fields := ⟨[], (List.append_nil _).symm, Nat.zero_le _, List.forall_mem_nil _⟩
  methods := ⟨enhancer.file.methods, [], (List.append_nil _).symm,
    List.forall₂_same.mpr fun _ _ => .inl rfl, Nat.zero_le _,
    List.forall_mem_nil _⟩

/-! ### One operation after the other -/

theorem length_eraseDups_le (names : List String) : names.eraseDups.length ≤ names.length := by
  induction length : names.length using Nat.strongRecOn generalizing names with
  | ind count inductionHypothesis =>
    cases names with
    | nil => exact Nat.zero_le _
    | cons name rest =>
      have shorter := List.length_filter_le (fun other => !other == name) rest
      rw [List.length_cons] at length
      have later := inductionHypothesis _ (by omega) (rest.filter fun other => !other == name) rfl
      rw [List.eraseDups_cons, List.length_cons]
      omega

theorem length_missingInterfaces_le (file : ClassFile) (names : List String) :
    (file.missingInterfaces names).length ≤ names.length :=
  Nat.le_trans (length_eraseDups_le _) (List.length_filter_le _ _)

section outcomes

variable {before after : Enhancer}

theorem altered_of_addInterface (legible : before.file.Legible) {name : String} {isNew : Bool}
    (ran : addInterface name before = (.ok isNew, after)) :
    Altered (.addInterface name) before.file after.file := by
  obtain ⟨_, -, ⟨-, rfl⟩ | ⟨-, pool, index, grown, found, rfl⟩⟩ :=
    exists_of_addInterface legible ran
  · exact .withPool _ (.refl _)
  · refine { Altered.withPool (.addInterface name) grown with interfaces := ?_ }
    refine ⟨[index], rfl, Nat.le_refl _, List.forall_mem_singleton.mpr ?_⟩
    exact holdsClass_of_className found

theorem altered_of_addField (legible : before.file.Legible) {name descriptor : String}
    {flags : FieldFlags} {nothing : Unit}
    (ran : addField name descriptor flags before = (.ok nothing, after)) :
    Altered (.addField name descriptor flags) before.file after.file := by
  let wanted : AddedField := ⟨name, descriptor, flags⟩
  have ran : addField wanted.name wanted.descriptor wanted.flags before = (.ok nothing, after) :=
    ran
  obtain ⟨-, pool, field, grown, called, added, rfl⟩ := exists_of_addField legible ran
  refine { Altered.withPool (.addField name descriptor flags) grown with fields := ?_ }
  refine ⟨[field], rfl, Nat.le_refl _, List.forall_mem_singleton.mpr ?_⟩
  exact ⟨Member.legible_of_isCalled called, added.attributes⟩

/-- A class that methods were added to. -/
theorem Altered.withMethods {operation : Operation} {pool : Pool} {methods : List Method}
    (grown : before.file.pool.Extends pool) (few : methods.length ≤ operation.methodsAsked)
    (made : ∀ method ∈ methods, IsMade pool (operation.mostCode before.file) method) :
    Altered operation before.file
      { before.file with pool, methods := before.file.methods ++ methods } :=
  { Altered.withPool operation grown with
    methods := ⟨before.file.methods, methods, rfl,
      List.forall₂_same.mpr fun _ _ => .inl rfl, few, made⟩ }

theorem altered_of_addAbstractMethod (legible : before.file.Legible) {name descriptor : String}
    {flags : MethodFlags} {nothing : Unit}
    (ran : addAbstractMethod name descriptor flags before = (.ok nothing, after)) :
    Altered (.addAbstractMethod name descriptor flags) before.file after.file := by
  obtain ⟨-, -, method, pool, made, rfl⟩ := addAbstractMethod_eq_ok_iff.mp ran
  obtain ⟨grown, called, -, attributes⟩ := memberWithoutAttributes_ok legible.pool made
  refine .withMethods grown (Nat.le_refl _) (List.forall_mem_singleton.mpr ?_)
  exact ⟨Member.legible_of_isCalled called, .inl attributes⟩

theorem altered_of_addMethod (legible : before.file.Legible) {name descriptor : String}
    {flags : MethodFlags} {steps : List CodeStep} {nothing : Unit}
    (ran : addMethod name descriptor flags steps before = (.ok nothing, after)) :
    Altered (.addMethod name descriptor flags steps) before.file after.file := by
  obtain ⟨type, typed, -, method, pool, made, rfl⟩ := addMethod_eq_ok_iff.mp ran
  obtain ⟨builder, codeName, built, -, called, -, code, attributes⟩ :=
    exists_of_buildMethod legible.pool made
  have grown := (always_buildMethod (CodeStep.always_runAll steps) name type flags).relates made
  refine .withMethods grown (Nat.le_refl _) (List.forall_mem_singleton.mpr ?_)
  refine ⟨Member.legible_of_isCalled called, .inr ⟨codeName, _, _, _, code, ?_, attributes⟩⟩
  simp only [Operation.mostCode, typed, built]
  exact Nat.le_refl _

/-- No more accessors are added than are wanted. -/
theorem length_declaredAccessors_le (file : ClassFile) (managed : List ManagedField) :
    (declaredAccessors file managed).length ≤
      (managed.map fun field => (wantedAccessors field.accessors).length).sum := by
  induction managed with
  | nil => exact Nat.le_refl 0
  | cons field rest inductionHypothesis =>
    unfold declaredAccessors at inductionHypothesis ⊢
    rw [List.map_cons, List.sum_cons, List.filter_cons]
    split
    · rw [List.flatMap_cons, List.length_append, List.length_map]
      omega
    · omega

theorem altered_of_addAccessors (legible : before.file.Legible) {managed : ManagedField}
    {nothing : Unit} (ran : addAccessors managed before = (.ok nothing, after)) :
    Altered (.addAccessors managed) before.file after.file := by
  obtain ⟨-, added, accessors⟩ := exists_of_addAccessors legible ran
  have few := length_declaredAccessors_le before.file [managed]
  rw [accessors.accessors.length_eq, List.map_singleton, List.sum_singleton] at few
  rw [accessors.rest]
  refine .withMethods accessors.pool few fun method member => ?_
  obtain ⟨wanted, -, field, _, -, -, accessor⟩ :=
    exists_mem_of_forall₂_right accessors.accessors member
  exact accessor.isMade

/-- The body in which uses of a field were redirected has revised code. -/
theorem BodyRedirected.revised {earlier later : Pool} {field : ResolvedField} {user : String}
    {accessors : FieldAccessors} {old new : Body} {count : Nat}
    (redirected : BodyRedirected earlier later field user accessors old new count) :
    old.Revised (Becomes earlier later field user accessors) new where
  maxStack := redirected.maxStack
  maxLocals := redirected.maxLocals
  handlers := redirected.handlers
  attributes := redirected.attributes
  code := by
    obtain ⟨olds, news, code, -⟩ := redirected.code
    exact ⟨olds, news, code.imp fun _ _ became => .inr became⟩

theorem altered_of_redirectFieldUses (legible : before.file.Legible) {name descriptor : String}
    {managed : ManagedField} {count : Nat}
    (ran : redirectFieldUses name descriptor managed before = (.ok count, after)) :
    Altered (.redirectFieldUses name descriptor managed) before.file after.file := by
  have grown := ((always_redirectFieldUses name descriptor managed).relates ran).grown legible.pool
  obtain ⟨field, user, front, old, new, back, redirected⟩ := exists_redirected legible ran
  obtain ⟨oldBody, newBody, found, same, body⟩ := redirected.body
  have recoded : old.Recoded new := .inr ⟨oldBody, newBody, _, found, same, body.revised⟩
  have unchanged (methods : List Method) : List.Forall₂ Method.Recoded methods methods :=
    List.forall₂_same.mpr fun _ _ => .inl rfl
  have kept : List.Forall₂ Method.Recoded before.file.methods (front ++ new :: back) := by
    rw [redirected.located.methods]
    exact List.rel_append (unchanged front) (.cons recoded (unchanged back))
  rw [redirected.rest]
  exact { Altered.withPool (.redirectFieldUses name descriptor managed) grown with
    methods := ⟨_, [], (List.append_nil _).symm, kept, Nat.zero_le _, List.forall_mem_nil _⟩ }

theorem altered_of_apply (legible : before.file.Legible) {plan : Plan} {count : Nat}
    (ran : apply plan before = (.ok count, after)) :
    Altered (.apply plan) before.file after.file := by
  have carried := carriedOut_of_applySteps legible (apply_eq_ok_iff.mp ran)
  obtain ⟨interfaces, sameInterfaces, interfaceRow⟩ := carried.interfaces
  obtain ⟨fields, sameFields, fieldRow⟩ := carried.fields
  obtain ⟨kept, added, sameMethods, keptRow, addedRow, -⟩ := carried.methods
  exact {
    version := carried.version
    flags := carried.flags
    thisClass := carried.thisClass
    superClass := carried.superClass
    attributes := carried.attributes
    pool := ((always_apply plan).relates ran).grown legible.pool
    interfaces := by
      refine ⟨interfaces, sameInterfaces, ?_, fun index member => ?_⟩
      · rw [← interfaceRow.length_eq]
        exact length_missingInterfaces_le before.file plan.interfaces
      · obtain ⟨name, -, found⟩ := exists_mem_of_forall₂_right interfaceRow member
        exact holdsClass_of_className found
    fields := by
      refine ⟨fields, sameFields, Nat.le_of_eq fieldRow.length_eq.symm, fun field member => ?_⟩
      obtain ⟨wanted, -, isAdded⟩ := exists_mem_of_forall₂_right fieldRow member
      exact ⟨⟨holdsUtf8_of_text isAdded.name, holdsUtf8_of_text isAdded.descriptor⟩,
        isAdded.attributes⟩
    methods := by
      refine ⟨kept, added, sameMethods, keptRow.imp fun _ _ revised => revised.recoded, ?_,
        fun method member => ?_⟩
      · rw [← addedRow.length_eq]
        exact length_declaredAccessors_le after.file plan.managedFields
      · obtain ⟨wanted, -, field, _, -, -, accessor⟩ :=
          exists_mem_of_forall₂_right addedRow member
        exact accessor.isMade }

/-- An interface that cannot be added leaves at most its name in the pool. -/
theorem exists_of_addInterface_error {name : String} {error : Error}
    (failed : addInterface name before = (.error error, after)) :
    ∃ pool, after = before.withPool pool := by
  obtain failed | ⟨present, middle, asked, failed⟩ := Stateful.bind_eq_error_iff.mp failed
  · obtain ⟨-, rfl⟩ := ask_eq_error_iff.mp failed
    exact ⟨before.file.pool, rfl⟩
  · obtain ⟨-, rfl⟩ := ask_eq_ok_iff.mp asked
    cases present with
    | true => exact absurd failed Stateful.not_pure_eq_error
    | false =>
      have touches : TouchesPoolOnly (addConstants (Pool.internClass name) >>= fun index => do
          Enhancer.change fun file => { file with interfaces := file.interfaces ++ [index] }
          return true) := .addConstants_bind fun _ => .bind_pure (.change _)
      exact touches _ _ _ failed

/-- An operation that fails touches nothing but the pool. -/
theorem exists_of_run_error (assembled : before.file.pool.Assembled) {operation : Operation}
    {error : Error} (failed : operation.run before = (.error error, after)) :
    ∃ pool, before.file.pool.Extends pool ∧ after = before.withPool pool := by
  have grown := (operation.always_run.relates failed).grown assembled
  by_cases adds : operation.AddsInterface
  · obtain ⟨name, rfl⟩ := adds
    obtain ⟨pool, rfl⟩ := exists_of_addInterface_error (Stateful.discard_eq_error_iff.mp failed)
    exact ⟨pool, grown, rfl⟩
  · obtain rfl := Operation.atomic_run adds before after error assembled failed
    exact ⟨after.file.pool, .refl _, rfl⟩

/-- What any operation comes to, however it ends. -/
theorem altered_of_run (legible : before.file.Legible) (operation : Operation) :
    Altered operation before.file (operation.run before).2.file := by
  cases ran : operation.run before with
  | mk result after =>
    cases result with
    | error error =>
      obtain ⟨pool, grown, rfl⟩ := exists_of_run_error legible.pool ran
      exact .withPool operation grown
    | ok nothing =>
      cases operation with
      | addInterface name =>
        obtain ⟨isNew, ran⟩ := Stateful.discard_eq_ok_iff.mp ran
        exact altered_of_addInterface legible ran
      | addField name descriptor flags => exact altered_of_addField legible ran
      | addMethod name descriptor flags steps => exact altered_of_addMethod legible ran
      | addAbstractMethod name descriptor flags => exact altered_of_addAbstractMethod legible ran
      | addAccessors managed => exact altered_of_addAccessors legible ran
      | redirectFieldUses name descriptor managed =>
        obtain ⟨count, ran⟩ := Stateful.discard_eq_ok_iff.mp ran
        exact altered_of_redirectFieldUses legible ran
      | apply plan =>
        obtain ⟨count, ran⟩ := Stateful.discard_eq_ok_iff.mp ran
        exact altered_of_apply legible ran

end outcomes

end Enhancement

/-! ### Classes that stay legible -/

theorem Method.Recoded.legible {pool : Pool} {old new : Method} (recoded : old.Recoded new)
    (legible : Member.Legible pool old) : Member.Legible pool new := by
  obtain rfl | ⟨_, _, _, -, rfl, -⟩ := recoded
  · exact legible
  · exact legible

theorem Method.Recoded.framesFit {old new : Method} (recoded : old.Recoded new)
    (fit : ∀ body, old.body? = some body → body.FramesFit) {body : Body}
    (found : new.body? = some body) : body.FramesFit := by
  obtain rfl | ⟨oldBody, newBody, replaces, oldFound, rfl, revised⟩ := recoded
  · exact fit body found
  · obtain rfl := Option.some.inj ((Method.body?_setBody oldFound newBody).symm.trans found)
    rw [Body.FramesFit, revised.attributes]
    exact fit oldBody oldFound

namespace Enhancement

theorem IsMade.framesFit {pool : Pool} {limit : Nat} {method : Method}
    (made : IsMade pool limit method) {body : Body} (found : method.body? = some body) :
    body.FramesFit := by
  obtain none | ⟨codeName, maxStack, maxLocals, code, -, -, attributes⟩ := made.attributes
  · rw [Method.body?, none] at found
    cases found
  · rw [Method.body?, attributes] at found
    obtain rfl := Option.some.inj found
    exact List.forall_mem_nil _

theorem Altered.legible {operation : Operation} {before after : ClassFile}
    (altered : Altered operation before after) (legible : before.Legible) : after.Legible := by
  obtain ⟨addedFields, fields, -, fieldsLegible⟩ := altered.fields
  obtain ⟨kept, addedMethods, methods, row, -, made⟩ := altered.methods
  constructor
  · exact altered.pool.assembled legible.pool
  · rw [fields]
    exact List.forall_mem_append.mpr
      ⟨fun field member => (legible.fields field member).extends altered.pool,
        fun field member => (fieldsLegible field member).1⟩
  · rw [methods]
    refine List.forall_mem_append.mpr ⟨fun method member => ?_,
      fun method member => (made method member).legible⟩
    obtain ⟨old, oldMember, recoded⟩ := exists_mem_of_forall₂_right row member
    exact recoded.legible ((legible.methods old oldMember).extends altered.pool)
  · rw [methods]
    refine List.forall_mem_append.mpr ⟨fun method member body found => ?_,
      fun method member body found => (made method member).framesFit found⟩
    obtain ⟨old, oldMember, recoded⟩ := exists_mem_of_forall₂_right row member
    exact recoded.framesFit (legible.bodies old oldMember) found

/-! ### Everything that can be reached -/

/-- What a class that was read or made can come to by operations that are permitted, whether or not
they succeed. What it inherits and what is reported may be set anew at any time. -/
inductive ReachableBy (permits : Enhancer → Operation → Prop) : Enhancer → Prop
  | read {bytes : Bytes} {file : ClassFile} (read : ClassFile.read bytes = .ok file)
      (reporting : Reporting) (inherited : List InheritedField) :
      ReachableBy permits (.ofClass reporting inherited file)
  | create {major : UInt16} {name : String} {superName : Option String} {file : ClassFile}
      (created : ClassFile.create major name superName = .ok file) (reporting : Reporting)
      (inherited : List InheritedField) : ReachableBy permits (.ofClass reporting inherited file)
  | resume {enhancer : Enhancer} (reachable : ReachableBy permits enhancer)
      (reporting : Reporting) (inherited : List InheritedField) :
      ReachableBy permits (.ofClass reporting inherited enhancer.file)
  | operate {enhancer : Enhancer} (reachable : ReachableBy permits enhancer)
      {operation : Operation} (permitted : permits enhancer operation) :
      ReachableBy permits (operation.run enhancer).2

/-- A class as it is made: it has a name and perhaps a superclass, and nothing else but constants
that lead where they should. -/
structure IsBare (file : ClassFile) : Prop where
  pool : file.pool.Sound
  thisClass : file.pool.HoldsClass file.thisClass
  superClass : ∀ index ∈ file.superClass, file.pool.HoldsClass index
  interfaces : file.interfaces = []
  fields : file.fields = []
  methods : file.methods = []
  attributes : file.attributes = []

theorem isBare_of_create {major : UInt16} {name : String} {superName : Option String}
    {file : ClassFile} (created : ClassFile.create major name superName = .ok file) :
    IsBare file := by
  have sound := (ClassFile.linked_of_create created).sound Pool.sound_empty
  have assembled := Pool.sound_empty.assembled
  unfold ClassFile.create at created
  simp only at created
  split at created
  · cases created
  · rename_i thisClass superClass pool ran
    obtain rfl := Except.ok.inj created
    obtain ⟨_, middle, thisInterned, ran⟩ := Stateful.bind_eq_ok_iff.mp ran
    obtain ⟨_, last, superInterned, done⟩ := Stateful.bind_eq_ok_iff.mp ran
    obtain ⟨same, rfl⟩ := Stateful.pure_eq_ok_iff.mp done
    obtain ⟨rfl, rfl⟩ := Prod.mk.inj same
    have holdsThis := Pool.classEntry_of_internClass assembled thisInterned
    have assembledMiddle :=
      Pool.assembled_of_always assembled (Pool.always_internClass name) thisInterned
    cases superName with
    | none =>
      obtain ⟨rfl, rfl⟩ := Stateful.pure_eq_ok_iff.mp superInterned
      exact ⟨sound, holdsThis, (fun _ impossible => nomatch impossible), rfl, rfl, rfl, rfl⟩
    | some superName =>
      obtain ⟨index, reached, interned, done⟩ := Stateful.bind_eq_ok_iff.mp superInterned
      obtain ⟨rfl, rfl⟩ := Stateful.pure_eq_ok_iff.mp done
      have grown := (Pool.always_internClass superName).relates interned
      refine ⟨sound, Pool.HoldsClass.extends grown holdsThis, fun _ member => ?_, rfl, rfl, rfl,
        rfl⟩
      obtain rfl := Option.some.inj member
      exact Pool.classEntry_of_internClass assembledMiddle interned

theorem IsBare.legible {file : ClassFile} (bare : IsBare file) : file.Legible where
  pool := bare.pool.assembled
  fields := by
    rw [bare.fields]
    exact List.forall_mem_nil _
  methods := by
    rw [bare.methods]
    exact List.forall_mem_nil _
  bodies := by
    rw [bare.methods]
    exact List.forall_mem_nil _

theorem ReachableBy.legible {permits : Enhancer → Operation → Prop} {enhancer : Enhancer}
    (reachable : ReachableBy permits enhancer) : enhancer.file.Legible := by
  induction reachable with
  | read read => exact (ClassFile.read_eq_ok_iff.mp read).1.legible
  | create created => exact (isBare_of_create created).legible
  | resume _ _ _ inductionHypothesis => exact inductionHypothesis
  | @operate enhancer _ operation _ inductionHypothesis =>
    exact (altered_of_run inductionHypothesis operation).legible inductionHypothesis

/-- What holds of every class that is read and of every class that is made, and is kept by what
permitted operations do, holds of every class that can be reached by them. -/
theorem ReachableBy.induction {permits : Enhancer → Operation → Prop} {property : ClassFile → Prop}
    (wellFormed : ∀ file, file.WellFormed → property file)
    (bare : ∀ file, IsBare file → property file)
    (step : ∀ enhancer operation, ReachableBy permits enhancer → permits enhancer operation →
      Altered operation enhancer.file (operation.run enhancer).2.file → property enhancer.file →
      property (operation.run enhancer).2.file)
    {enhancer : Enhancer} (reachable : ReachableBy permits enhancer) : property enhancer.file := by
  induction reachable with
  | read read => exact wellFormed _ (ClassFile.read_eq_ok_iff.mp read).1
  | create created => exact bare _ (isBare_of_create created)
  | resume _ _ _ inductionHypothesis => exact inductionHypothesis
  | operate reachable permitted inductionHypothesis =>
    exact step _ _ reachable permitted (altered_of_run reachable.legible _) inductionHypothesis

end Enhancement

end JavaClass
