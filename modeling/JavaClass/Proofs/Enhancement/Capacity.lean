/-
How much a file can hold. Interfaces, fields and methods are counted in two bytes each, and code
may have no more bytes than two bytes can count; but adding to a class asks for no room, and a body
may be made of any amount of code. A class that came about by operations that found room for what
they added can be counted and read back, and one to which a longer body was added cannot.
-/

import JavaClass.Proofs.Enhancement.Operations

namespace JavaClass

/-! ### Classes that a file has room for -/

/-- A class that a file has room for: its members, its attributes and everything in them can be
written and read back, and its interfaces, fields and methods can be counted. -/
structure ClassFile.Roomy (file : ClassFile) : Prop where
  thisClass : file.pool.HoldsClass file.thisClass
  superClass : ∀ index ∈ file.superClass, file.pool.HoldsClass index
  interfaces : ∀ index ∈ file.interfaces, file.pool.HoldsClass index
  fields : ∀ field ∈ file.fields, Member.WellFormed file.pool field
  methods : ∀ method ∈ file.methods, Member.WellFormed file.pool method ∧ method.bodyCount ≤ 1
  attributes : Attributes.WellFormed file.pool file.attributes
  countable : file.Countable

theorem ClassFile.WellFormed.roomy {file : ClassFile} (proper : file.WellFormed) : file.Roomy where
  thisClass := proper.thisClass
  superClass := proper.superClass
  interfaces := proper.interfaces
  fields := proper.fields
  methods := fun method member => ⟨proper.methods method member, proper.bodyCounts method member⟩
  attributes := proper.attributes
  countable := ⟨Nat.le_of_lt_succ proper.interfaceCount, Nat.le_of_lt_succ proper.fieldCount,
    Nat.le_of_lt_succ proper.methodCount⟩

/-- All else that a file asks for is a version that is known and a pool whose references lead where
they should. -/
theorem ClassFile.Roomy.wellFormed {file : ClassFile} (roomy : file.Roomy)
    (version : file.version.IsKnown) (assembled : file.pool.Assembled)
    (references : file.pool.checkReferences = .ok ()) : file.WellFormed where
  version := version
  pool := Pool.obtained_of_assembled assembled references
  references := references
  thisClass := roomy.thisClass
  superClass := roomy.superClass
  interfaceCount := Nat.lt_succ_of_le roomy.countable.interfaces
  interfaces := roomy.interfaces
  fieldCount := Nat.lt_succ_of_le roomy.countable.fields
  fields := roomy.fields
  methodCount := Nat.lt_succ_of_le roomy.countable.methods
  methods := fun method member => (roomy.methods method member).1
  bodyCounts := fun method member => (roomy.methods method member).2
  attributes := roomy.attributes

/-- The code of every method is short enough to be read back. -/
theorem ClassFile.Roomy.length_code_le {file : ClassFile} (roomy : file.Roomy) {method : Method}
    (member : method ∈ file.methods) {body : Body} (found : method.body? = some body) :
    body.code.length ≤ longestCode :=
  (Body.wellFormed_iff.mp
    (Attributes.wellFormed_of_body? (roomy.methods method member).1.attributes.2 found)).1

namespace Enhancement

open Enhancer

theorem IsBare.roomy {file : ClassFile} (bare : IsBare file) : file.Roomy where
  thisClass := bare.thisClass
  superClass := bare.superClass
  interfaces := by
    rw [bare.interfaces]
    exact List.forall_mem_nil _
  fields := by
    rw [bare.fields]
    exact List.forall_mem_nil _
  methods := by
    rw [bare.methods]
    exact List.forall_mem_nil _
  attributes := by
    rw [bare.attributes]
    exact ⟨Nat.two_pow_pos 16, List.forall_mem_nil _⟩
  countable := by
    refine ⟨?_, ?_, ?_⟩
    · rw [bare.interfaces]
      exact Nat.zero_le _
    · rw [bare.fields]
      exact Nat.zero_le _
    · rw [bare.methods]
      exact Nat.zero_le _

/-! ### Operations that find room -/

/-- Whether a class has room for what an operation asks for: it can be counted together with what is
there already, and the body that is made is short enough. -/
structure Operation.Fits (operation : Operation) (file : ClassFile) : Prop where
  interfaces : file.interfaces.length + operation.interfacesAsked ≤ 65535
  fields : file.fields.length + operation.fieldsAsked ≤ 65535
  methods : file.methods.length + operation.methodsAsked ≤ 65535
  code : operation.mostCode file ≤ longestCode

theorem Altered.countable {operation : Operation} {before after : ClassFile}
    (altered : Altered operation before after) (fits : operation.Fits before) :
    after.Countable := by
  obtain ⟨addedInterfaces, interfaces, fewInterfaces, -⟩ := altered.interfaces
  obtain ⟨addedFields, fields, fewFields, -⟩ := altered.fields
  obtain ⟨kept, addedMethods, methods, row, fewMethods, -⟩ := altered.methods
  refine ⟨?_, ?_, ?_⟩
  · rw [interfaces, List.length_append]
    exact Nat.le_trans (Nat.add_le_add_left fewInterfaces _) fits.interfaces
  · rw [fields, List.length_append]
    exact Nat.le_trans (Nat.add_le_add_left fewFields _) fits.fields
  · rw [methods, List.length_append, ← row.length_eq]
    exact Nat.le_trans (Nat.add_le_add_left fewMethods _) fits.methods

/-- An operation that finds room leaves a class that a file has room for. -/
theorem Altered.roomy {operation : Operation} {before after : ClassFile}
    (altered : Altered operation before after) (fits : operation.Fits before)
    (roomy : before.Roomy) : after.Roomy := by
  have grown := altered.pool
  have countable := altered.countable fits
  obtain ⟨addedInterfaces, interfaces, -, holdClasses⟩ := altered.interfaces
  obtain ⟨addedFields, fields, -, fieldsMade⟩ := altered.fields
  obtain ⟨kept, addedMethods, methods, row, -, methodsMade⟩ := altered.methods
  constructor
  · rw [altered.thisClass]
    exact roomy.thisClass.extends grown
  · rw [altered.superClass]
    exact fun index member => (roomy.superClass index member).extends grown
  · rw [interfaces]
    exact List.forall_mem_append.mpr
      ⟨fun index member => (roomy.interfaces index member).extends grown, holdClasses⟩
  · rw [fields]
    refine List.forall_mem_append.mpr
      ⟨fun field member => (roomy.fields field member).extends grown, fun field member => ?_⟩
    obtain ⟨⟨name, descriptor⟩, none⟩ := fieldsMade field member
    refine ⟨name, descriptor, ?_⟩
    rw [none]
    exact ⟨Nat.two_pow_pos 16, List.forall_mem_nil _⟩
  · rw [methods]
    refine List.forall_mem_append.mpr
      ⟨fun method member => ?_,
        fun method member => (methodsMade method member).wellFormed fits.code⟩
    obtain ⟨old, oldMember, recoded⟩ := exists_mem_of_forall₂_right row member
    obtain ⟨proper, single⟩ := roomy.methods old oldMember
    exact recoded.wellFormed (proper.extends grown) single
  · rw [altered.attributes]
    exact Attributes.WellFormed.extends grown roomy.attributes
  · exact countable

/-- As long as operations find room, a file can count the interfaces, fields and methods of the
class, no code is too long, and what the class is written as is read as this class if its version is
known and the references in its pool lead where they should. -/
theorem countable_of_reachableBy {enhancer : Enhancer}
    (reachable : ReachableBy (fun enhancer operation => operation.Fits enhancer.file) enhancer) :
    enhancer.file.Countable ∧
      (∀ method ∈ enhancer.file.methods, ∀ body, Method.body? method = some body →
        body.code.length ≤ longestCode) ∧
      (enhancer.file.version.IsKnown → enhancer.file.pool.checkReferences = .ok () →
        ClassFile.read enhancer.file.write = .ok enhancer.file) := by
  have roomy : enhancer.file.Roomy := reachable.induction (fun _ proper => proper.roomy)
    (fun _ bare => bare.roomy) fun _ _ _ fits altered roomy => altered.roomy fits roomy
  refine ⟨roomy.countable, fun method member body found => roomy.length_code_le member found,
    fun version references => ?_⟩
  have proper := roomy.wellFormed version reachable.legible.pool references
  exact ClassFile.read_eq_ok_iff.mpr ⟨proper, rfl⟩

/-- A class that is made has room for a field. -/
theorem countable_of_reachableBy_field :
    ∃ enhancer, ReachableBy (fun enhancer operation => operation.Fits enhancer.file) enhancer ∧
      enhancer.file.Countable ∧
      (∀ method ∈ enhancer.file.methods, ∀ body, Method.body? method = some body →
        body.code.length ≤ longestCode) ∧
      (enhancer.file.version.IsKnown → enhancer.file.pool.checkReferences = .ok () →
        ClassFile.read enhancer.file.write = .ok enhancer.file) := by
  have made : (ClassFile.create 52 "A" none).isOk = true := by decide +kernel
  cases created : ClassFile.create 52 "A" none with
  | error error =>
    rw [created] at made
    cases made
  | ok file =>
    have bare := isBare_of_create created
    have fits : (Operation.addField "x" "I" ⟨1⟩).Fits file := by
      refine ⟨?_, ?_, ?_, Nat.zero_le _⟩
      · rw [bare.interfaces]
        decide
      · rw [bare.fields]
        decide
      · rw [bare.methods]
        decide
    have start : ReachableBy (fun enhancer operation => operation.Fits enhancer.file)
        (.ofClass .silent [] file) := .create created .silent []
    have reachable := start.operate fits
    exact ⟨_, reachable, countable_of_reachableBy reachable⟩

/-! ### A body that is too long -/

/-- Whatever code a body is made of, making the method needs the same constants. -/
theorem exists_buildMethod_raw {name : String} {type : MethodType} {flags : MethodFlags}
    {pool after : Pool} {method : Method}
    (made : buildMethod name type flags [] pool = (.ok method, after)) (code : Bytes) :
    ∃ other body, buildMethod name type flags [.raw code 0 0] pool = (.ok other, after) ∧
      Method.body? other = some body ∧ body.code = code := by
  obtain ⟨nameIndex, named, nameInterned, made⟩ := Stateful.bind_eq_ok_iff.mp made
  obtain ⟨descriptorIndex, typed, descriptorInterned, made⟩ := Stateful.bind_eq_ok_iff.mp made
  obtain ⟨_, last, codeMade, done⟩ := Stateful.bind_eq_ok_iff.mp made
  obtain ⟨-, rfl⟩ := Stateful.pure_eq_ok_iff.mp done
  obtain ⟨codeName, coded, codeInterned, done⟩ := Stateful.bind_eq_ok_iff.mp codeMade
  obtain ⟨-, rfl⟩ := Stateful.pure_eq_ok_iff.mp done
  let start := Builder.startMethod pool (flags.has MethodFlags.accStatic) type
  let body := (Builder.withCode code 0 0 start).build
  refine ⟨⟨flags, nameIndex, descriptorIndex, [⟨codeName, .code body⟩]⟩, body, ?_, rfl, ?_⟩
  · refine Stateful.bind_eq_ok_iff.mpr ⟨nameIndex, named, nameInterned, ?_⟩
    refine Stateful.bind_eq_ok_iff.mpr ⟨descriptorIndex, typed, descriptorInterned, ?_⟩
    refine Stateful.bind_eq_ok_iff.mpr ⟨⟨codeName, .code body⟩, coded, ?_, rfl⟩
    exact Stateful.bind_eq_ok_iff.mpr ⟨codeName, coded, codeInterned, rfl⟩
  · show ((#[] : Array UInt8) ++ code).toList = code
    rw [Array.toList_appendList, Array.toList_empty, List.nil_append]

theorem exists_addMethod_raw {name descriptor : String} {flags : MethodFlags}
    {before after : Enhancer} {nothing : Unit}
    (ran : addMethod name descriptor flags [] before = (.ok nothing, after)) (code : Bytes) :
    ∃ other, addMethod name descriptor flags [.raw code 0 0] before = (.ok (), other) ∧
      ∃ method ∈ other.file.methods, ∃ body, Method.body? method = some body ∧
        body.code = code := by
  obtain ⟨type, typed, absent, method, pool, made, -⟩ := addMethod_eq_ok_iff.mp ran
  obtain ⟨other, body, madeOther, found, same⟩ := exists_buildMethod_raw made code
  refine ⟨_, addMethod_eq_ok_iff.mpr ⟨type, typed, absent, other, pool, madeOther, rfl⟩, other, ?_,
    body, found, same⟩
  exact List.mem_append_right _ (List.mem_singleton_self other)

/-- A class that is made can get a method with more code than a file can hold, and then it is not
read from what it is written as. -/
theorem exists_longCode_of_addMethod :
    ∃ file after, ClassFile.create 52 "A" (some "java/lang/Object") = .ok file ∧
      addMethod "m" "()V" ⟨1⟩ [.raw (List.replicate 65536 0) 0 0] (.ofClass .silent [] file) =
        (.ok (), after) ∧
      (∃ method ∈ after.file.methods, ∃ body, Method.body? method = some body ∧
        longestCode < body.code.length) ∧
      ClassFile.read after.file.write ≠ .ok after.file := by
  have added : (ClassFile.create 52 "A" (some "java/lang/Object")).map (fun file =>
      (addMethod "m" "()V" ⟨1⟩ [] (.ofClass .silent [] file)).1) = .ok (.ok ()) := by
    decide +kernel
  obtain ⟨file, created, added⟩ := Outcome.map_eq_ok_iff.mp added
  obtain ⟨after, ran, method, member, body, found, code⟩ := exists_addMethod_raw
    (Prod.ext added rfl) (List.replicate 65536 0)
  have long : longestCode < body.code.length := by
    rw [code, List.length_replicate]
    decide
  refine ⟨file, after, created, ran, ⟨method, member, body, found, long⟩, fun read => ?_⟩
  have roomy := (ClassFile.read_eq_ok_iff.mp read).1.roomy
  exact Nat.not_le_of_lt long (roomy.length_code_le member found)

end Enhancement

end JavaClass
