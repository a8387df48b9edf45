/-
Plans that leave nothing to do. If a class implements every interface that a plan names, and the
plan neither adds nor manages fields, then every step of the plan only looks at the class. What it
looks at are names and descriptors, and it fails if one of them cannot be read; otherwise the class
is written as the bytes it was read from, down to the last one.
-/

import JavaClass.Proofs.Enhancement.Soundness
import JavaClass.Proofs.Pool.Description
import JavaClass.Proofs.Pool.Spelling

namespace JavaClass

/-! ### Names and descriptors that cannot be read -/

/-- Whether a pool holds bytes at an index that spell no text, and what is said about it. -/
def Pool.IllSpelt (pool : Pool) (index : UInt16) (error : Error) : Prop :=
  ∃ bytes reason, pool.utf8 index = .ok bytes ∧ Text.ModifiedUtf8.decode bytes = .error reason ∧
    error = .malformed (.undecodableText reason)

/-- What is wrong with the names and the descriptors of a class: its own name, the name of one of
its interfaces, or the name or the descriptor of one of its methods that have a body. A descriptor
may be a text and yet describe no type. -/
inductive ClassFile.Misspells (file : ClassFile) : Error → Prop
  | className {text : UInt16} {error : Error}
      (found : file.pool.classEntry file.thisClass = .ok text)
      (spelt : file.pool.IllSpelt text error) : Misspells file error
  | interfaceName {index text : UInt16} {error : Error} (member : index ∈ file.interfaces)
      (found : file.pool.classEntry index = .ok text)
      (spelt : file.pool.IllSpelt text error) : Misspells file error
  | methodName {method : Method} {error : Error} (member : method ∈ file.methods)
      (hasBody : (Method.body? method).isSome = true)
      (spelt : file.pool.IllSpelt method.name error) : Misspells file error
  | methodDescriptor {method : Method} {error : Error} (member : method ∈ file.methods)
      (hasBody : (Method.body? method).isSome = true)
      (spelt : file.pool.IllSpelt method.descriptor error) : Misspells file error
  | methodType {method : Method} {descriptor : String} {reason : DescriptorError}
      (member : method ∈ file.methods) (hasBody : (Method.body? method).isSome = true)
      (described : file.pool.text method.descriptor = .ok descriptor)
      (refused : MethodType.parse descriptor = .error reason) :
      Misspells file (.invalidDescriptor descriptor reason)

section misspelt

variable {pool : Pool} {index : UInt16} {error : Error}

theorem Pool.illSpelt_of_text_error (holds : pool.HoldsUtf8 index)
    (failed : pool.text index = .error error) : pool.IllSpelt index error := by
  obtain ⟨bytes, found⟩ := holds
  rw [Pool.text, Outcome.bind_of_ok found] at failed
  cases decoded : Text.ModifiedUtf8.decode bytes with
  | ok text =>
    rw [decoded] at failed
    cases failed
  | error reason =>
    rw [decoded] at failed
    exact ⟨bytes, reason, found, decoded, (Except.error.inj failed).symm⟩

theorem Pool.exists_illSpelt_of_className_error (references : pool.checkReferences = .ok ())
    (holds : pool.HoldsClass index) (failed : pool.className index = .error error) :
    ∃ text, pool.classEntry index = .ok text ∧ pool.IllSpelt text error := by
  obtain ⟨text, found⟩ := holds
  rw [Pool.className, Outcome.bind_of_ok found] at failed
  have holdsText := Pool.exists_utf8_of_classEntry references found
  exact ⟨text, found, Pool.illSpelt_of_text_error holdsText failed⟩

variable {file : ClassFile}

theorem ClassFile.WellFormed.misspells_of_name_error (proper : file.WellFormed)
    (failed : file.name = .error error) : file.Misspells error := by
  obtain ⟨text, found, spelt⟩ :=
    Pool.exists_illSpelt_of_className_error proper.references proper.thisClass failed
  exact .className found spelt

theorem ClassFile.WellFormed.misspells_of_interfaceNames_error (proper : file.WellFormed)
    (failed : file.interfaceNames = .error error) : file.Misspells error := by
  obtain ⟨index, member, failed⟩ := Outcome.exists_of_mapM_eq_error failed
  obtain ⟨text, found, spelt⟩ := Pool.exists_illSpelt_of_className_error proper.references
    (proper.interfaces index member) failed
  exact .interfaceName member found spelt

/-- A text that can be read is what is shown of it. -/
theorem Pool.describe_of_text {text : String} (found : pool.text index = .ok text) :
    pool.describe index = text := by
  obtain ⟨bytes, held, read⟩ := Pool.text_eq_ok_iff.mp found
  rw [Pool.describe_of_utf8 held, Text.ModifiedUtf8.decodeLossy_of_decode read]

theorem ClassFile.WellFormed.misspells_of_methodsWithBody_error (proper : file.WellFormed)
    (failed : Enhancement.Enhancer.methodsWithBody file = .error error) :
    file.Misspells error := by
  obtain ⟨method, listed, failed⟩ := Outcome.exists_of_mapM_eq_error failed
  obtain ⟨member, hasBody⟩ := List.mem_filter.mp listed
  have wellFormed := proper.methods method member
  obtain failed | ⟨name, -, failed⟩ := Outcome.bind_eq_error_iff.mp failed
  · exact .methodName member hasBody (Pool.illSpelt_of_text_error wellFormed.name failed)
  obtain failed | ⟨descriptor, described, failed⟩ := Outcome.bind_eq_error_iff.mp failed
  · exact .methodDescriptor member hasBody
      (Pool.illSpelt_of_text_error wellFormed.descriptor failed)
  cases parsed : MethodType.parse descriptor with
  | ok type =>
    rw [MethodKey.parse, parsed] at failed
    cases failed
  | error reason =>
    rw [MethodKey.parse, parsed, Pool.describe_of_text described] at failed
    obtain rfl := Except.error.inj failed
    exact .methodType member hasBody described parsed

end misspelt

namespace Enhancement

/-- Whether a class leaves a plan nothing to do: the plan adds no field, manages no field, and names
only interfaces that the class implements. -/
structure Plan.FulfilledBy (plan : Plan) (file : ClassFile) : Prop where
  interfaces : ∀ name ∈ plan.interfaces, file.implements name = true
  addedFields : plan.addedFields = []
  managedFields : plan.managedFields = []

instance (plan : Plan) (file : ClassFile) : Decidable (plan.FulfilledBy file) :=
  decidable_of_iff
    ((∀ name ∈ plan.interfaces, file.implements name = true) ∧ plan.addedFields = [] ∧
      plan.managedFields = [])
    ⟨fun ⟨interfaces, addedFields, managedFields⟩ => ⟨interfaces, addedFields, managedFields⟩,
      fun ⟨interfaces, addedFields, managedFields⟩ => ⟨interfaces, addedFields, managedFields⟩⟩

/-! ### The steps of such a plan -/

namespace Enhancer

theorem looks_ask {α : Type} {refusal : Error → Prop} {question : Enhancer → Except Error α}
    {enhancer : Enhancer} (fails : ∀ error, question enhancer = .error error → refusal error) :
    Stateful.Looks refusal enhancer (ask question) :=
  ⟨question enhancer, rfl, fails⟩

/-- An interface that is implemented is not added, so that the names are all that is looked at. -/
theorem looks_addInterface (enhancer : Enhancer) (proper : enhancer.file.WellFormed) {name : String}
    (implemented : enhancer.file.implements name = true) :
    Stateful.Looks enhancer.file.Misspells enhancer (addInterface name) := by
  refine (looks_ask fun error failed => ?_).bind fun present asked => ?_
  · obtain failed | ⟨names, read, failed⟩ := Outcome.bind_eq_error_iff.mp failed
    · exact proper.misspells_of_interfaceNames_error failed
    · obtain ⟨-, failed⟩ | ⟨-, failed⟩ := Outcome.check_eq_error_iff.mp failed
      · exact proper.misspells_of_name_error (Outcome.discard_eq_error_iff.mp failed)
      · cases failed
  · obtain ⟨answered, -⟩ := ask_eq_ok_iff.mp asked
    obtain ⟨names, read, answered⟩ := Outcome.bind_eq_ok_iff.mp answered
    obtain rfl : names.contains name = present :=
      Outcome.pure_eq_ok_iff.mp (Outcome.check_eq_ok_iff.mp answered).2
    rw [ClassFile.contains_interfaceNames read, if_pos implemented]
    exact .of_eq_ok rfl

/-- No use of a field is redirected on account of no managed fields. -/
theorem redirectAll_nil (methods : List MethodKey) (enhancer : Enhancer) :
    redirectAll [] methods enhancer = (.ok 0, enhancer) :=
  Stateful.foldlM_of_idle fun _ _ => rfl

/-- Taking the steps of a plan that leaves nothing to do changes what the class is known to inherit
and nothing else. -/
theorem looks_applySteps {plan : Plan} (before : Enhancer) (proper : before.file.WellFormed)
    (fulfilled : plan.FulfilledBy before.file) :
    ∃ result, applySteps plan before = (result, before.inheriting plan.inheritedFields) ∧
      ∀ error, result = .error error → before.file.Misspells error := by
  have inherit : (modify fun enhancer => { enhancer with
      inherited := enhancer.inherited ++ plan.inheritedFields } : Enhancing PUnit) before =
        (.ok PUnit.unit, before.inheriting plan.inheritedFields) := rfl
  unfold applySteps
  rw [Stateful.bind_of_ok inherit, fulfilled.addedFields, fulfilled.managedFields]
  refine Stateful.Looks.bind (.forM fun name member => ?_) fun _ _ => ?_
  · have implemented := fulfilled.interfaces name member
    exact (looks_addInterface (before.inheriting plan.inheritedFields) proper implemented).discard
  refine Stateful.Looks.bind (.of_eq_ok rfl) fun _ _ => ?_
  refine Stateful.Looks.bind (.of_eq_ok rfl) fun _ _ => ?_
  refine (looks_ask fun error failed => ?_).bind fun methods _ => ?_
  · exact proper.misspells_of_methodsWithBody_error failed
  refine Stateful.Looks.bind (.of_eq_ok (redirectAll_nil _ _)) fun _ _ => ?_
  refine (looks_ask fun error failed => ?_).bind fun _ _ => .of_eq_ok rfl
  split at failed
  · exact proper.misspells_of_name_error (Outcome.discard_eq_error_iff.mp failed)
  · cases failed

end Enhancer

/-! ### Bytes to bytes -/

section bytes

variable (reporting : Reporting) {plan : Plan} {file : ClassFile}

theorem enhanceClass_of_fulfilledBy (proper : file.WellFormed)
    (fulfilled : plan.FulfilledBy file) :
    enhanceClass reporting plan file = .ok file ∨
      ∃ error, enhanceClass reporting plan file = .error error ∧ file.Misspells error := by
  obtain ⟨result, ran, fails⟩ :=
    Enhancer.looks_applySteps (.ofClass reporting [] file) proper fulfilled
  cases result with
  | ok count => exact .inl (enhanceClass_eq_ok_iff.mpr ⟨count, _, ran, rfl⟩)
  | error error => exact .inr ⟨error, enhanceClass_of_error ran, fails error rfl⟩

/-- What a model has no plan for is handed back, and what it has one for is enhanced as without a
model. -/
theorem enhanceWith_of_read {bytes : Bytes} (read : ClassFile.read bytes = .ok file) {name : String}
    (named : file.name = .ok name) (model : Model) :
    enhanceWith reporting model bytes =
      match model name with
      | none => .ok bytes
      | some plan => enhance reporting plan bytes := by
  rw [enhanceWith, Outcome.bind_of_ok read, Outcome.bind_of_ok named]
  cases model name with
  | none => rfl
  | some plan =>
    show _ = enhance reporting plan bytes
    rw [enhance, Outcome.bind_of_ok read]

end bytes

/-- A plan that leaves nothing to do gives the bytes back, every one of them, or is refused over a
name or a descriptor of the class; and a model decides by the name of the class alone whether its
bytes are given back or a plan is carried out. -/
theorem enhance_of_fulfilledBy {bytes : Bytes} {file : ClassFile}
    (read : ClassFile.read bytes = .ok file) (reporting : Reporting) :
    (∀ plan : Plan, plan.FulfilledBy file → enhance reporting plan bytes = .ok bytes ∨
      ∃ error, enhance reporting plan bytes = .error error ∧ file.Misspells error) ∧
    ∀ (model : Model) (name : String), file.name = .ok name →
      enhanceWith reporting model bytes =
        match model name with
        | none => .ok bytes
        | some plan => enhance reporting plan bytes := by
  obtain ⟨proper, written⟩ := ClassFile.read_eq_ok_iff.mp read
  refine ⟨fun plan fulfilled => ?_,
    fun model name named => enhanceWith_of_read reporting read named model⟩
  obtain same | ⟨error, refused, misspells⟩ :=
    enhanceClass_of_fulfilledBy reporting proper fulfilled
  · exact .inl (enhance_eq_ok_iff.mpr ⟨file, file, read, same, written⟩)
  · exact .inr ⟨error, enhance_of_error read refused, misspells⟩

/-- A class A that implements I and has a method with a body. The name of the method is one byte. -/
def fileOfRunner (name : UInt8) : Bytes :=
  [0xCA, 0xFE, 0xBA, 0xBE, 0, 0, 0, 52,
    0, 8, 1, 0, 1, 65, 7, 0, 1, 1, 0, 1, 73, 7, 0, 3, 1, 0, 1, name,
    1, 0, 3, 40, 41, 86, 1, 0, 4, 67, 111, 100, 101,
    0, 33, 0, 2, 0, 0, 0, 1, 0, 4, 0, 0,
    0, 1, 0, 1, 0, 5, 0, 6, 0, 1, 0, 7, 0, 0, 0, 13, 0, 1, 0, 1, 0, 0, 0, 1, 0xB1, 0, 0, 0, 0,
    0, 0]

/-- A plan to implement I. -/
def planOfRunner : Plan := { Plan.empty with interfaces := ["I"] }

/-- A class that gives its bytes back, and one with a method of which the name is no text. -/
theorem enhance_of_fulfilledBy_planOfRunner :
    (∃ file, ClassFile.read (fileOfRunner 109) = .ok file ∧ planOfRunner.FulfilledBy file ∧
      enhanceWith .detailed (fun _ => some planOfRunner) (fileOfRunner 109) =
        .ok (fileOfRunner 109)) ∧
    ∃ file error, ClassFile.read (fileOfRunner 0xFF) = .ok file ∧ planOfRunner.FulfilledBy file ∧
      enhance .detailed planOfRunner (fileOfRunner 0xFF) = .error error ∧ file.Misspells error := by
  constructor
  · have examined : (ClassFile.read (fileOfRunner 109)).map (fun file =>
        decide (file.name = .ok "A" ∧ planOfRunner.FulfilledBy file)) = .ok true := by
      decide +kernel
    have succeeds : (enhance .detailed planOfRunner (fileOfRunner 109)).toOption.isSome = true := by
      decide +kernel
    obtain ⟨file, read, holds⟩ := Outcome.map_eq_ok_iff.mp examined
    obtain ⟨named, fulfilled⟩ := of_decide_eq_true holds
    obtain ⟨gives, models⟩ := enhance_of_fulfilledBy read .detailed
    refine ⟨file, read, fulfilled, ?_⟩
    rw [models _ _ named]
    refine (gives planOfRunner fulfilled).resolve_right fun ⟨error, refused, _⟩ => ?_
    rw [refused] at succeeds
    cases succeeds
  · have examined : (ClassFile.read (fileOfRunner 0xFF)).map (fun file =>
        decide (planOfRunner.FulfilledBy file)) = .ok true := by
      decide +kernel
    have fails : enhance .detailed planOfRunner (fileOfRunner 0xFF) ≠ .ok (fileOfRunner 0xFF) := by
      decide +kernel
    obtain ⟨file, read, holds⟩ := Outcome.map_eq_ok_iff.mp examined
    have fulfilled := of_decide_eq_true holds
    obtain ⟨error, refused, misspells⟩ :=
      ((enhance_of_fulfilledBy read .detailed).1 planOfRunner fulfilled).resolve_left fails
    exact ⟨file, error, read, fulfilled, refused, misspells⟩

end Enhancement

end JavaClass
