/-
Looking accessors up. A call names an accessor by a name and a descriptor, and what runs is the
first method of the class that is called so. When accessors are added none of these is there yet,
and the two accessors of one field differ in their descriptors, so what is found is the accessor
that was made. It is found still when more methods are added behind it and when others are revised,
since a method that is named like an accessor is not.
-/

import JavaClass.Proofs.Descriptor
import JavaClass.Proofs.Enhancement.Plan

namespace JavaClass

/-! ### The first of some methods -/

section lookup

variable {file : ClassFile} {name descriptor : String} {pool : Pool} {added : List Method}
  {method : Method}

theorem ClassFile.method?_of_extends (legible : file.Legible) (grown : file.pool.Extends pool) :
    Member.locate? pool name (some descriptor) file.methods = file.method? name descriptor :=
  Member.locate?_of_extends grown legible.methods name (some descriptor)

/-- A method that is found is found still when others are added behind it. -/
theorem ClassFile.locate?_append_of_found (legible : file.Legible)
    (grown : file.pool.Extends pool) (found : file.method? name descriptor = some method) :
    Member.locate? pool name (some descriptor) (file.methods ++ added) = some method := by
  have first := (method?_of_extends legible grown).trans found
  unfold Member.locate? at first ⊢
  rw [List.find?_append, first, Option.some_or]

/-- Where no method is found, one that is added may be. -/
theorem ClassFile.locate?_append_of_missing (legible : file.Legible)
    (grown : file.pool.Extends pool) (missing : file.method? name descriptor = none) :
    Member.locate? pool name (some descriptor) (file.methods ++ added) =
      Member.locate? pool name (some descriptor) added := by
  have first := (method?_of_extends legible grown).trans missing
  unfold Member.locate? at first ⊢
  rw [List.find?_append, first, Option.none_or]

end lookup

namespace Enhancement

/-! ### The descriptors of accessors -/

/-- What reads a field and what writes it differ in their descriptors: behind the receiver one goes
on with a parenthesis, the other with a type. -/
theorem descriptor_getterType_ne (field : ResolvedField) :
    field.getterType.descriptor ≠ field.setterType.descriptor := by
  intro same
  have spelt := String.ofList_injective same
  obtain ⟨first, rest, type, opens⟩ := field.type.exists_cons_eq_characters
  rw [ResolvedField.getterType, ResolvedField.setterType, List.flatMap_append, List.append_assoc,
    List.flatMap_singleton, type, List.cons_append] at spelt
  have behind := List.append_cancel_left (List.cons.inj spelt).2
  exact opens (List.cons.inj behind).1.symm

theorem accessorType_descriptor_inj {field : ResolvedField} {first second : Direction}
    (same : (field.accessorType first).descriptor = (field.accessorType second).descriptor) :
    first = second := by
  cases first with
  | read =>
    cases second with
    | read => rfl
    | write => exact absurd same (descriptor_getterType_ne field)
  | write =>
    cases second with
    | read => exact absurd same.symm (descriptor_getterType_ne field)
    | write => rfl

/-! ### What is found -/

/-- Whether the accessor of a managed field for a direction is what a class has under its name and
its descriptor. -/
def FindsAccessor (enhancer : Enhancer) (managed : ManagedField) (wanted : Direction × String) :
    Prop :=
  ∃ field declared method,
    Enhancer.resolveField managed.name managed.descriptor enhancer = .ok field ∧
      enhancer.file.field? managed.name managed.descriptor = some declared ∧
      enhancer.file.method? wanted.2 (field.accessorType wanted.1).descriptor = some method ∧
      IsAccessor enhancer.file.pool field
        (Enhancer.accessorFlags enhancer.file.isInterface declared.flags) wanted method

section phases

variable {plan : Plan} {before after : Enhancer} {managed : ManagedField}
  {wanted : Direction × String}

/-- An accessor that was found is found as long as the method is. -/
theorem FindsAccessor.keeps (keeps : before.KeepsFields after) (legible : before.file.Legible)
    (stays : ∀ {descriptor method}, before.file.method? wanted.2 descriptor = some method →
      after.file.method? wanted.2 descriptor = some method)
    (finds : FindsAccessor before managed wanted) : FindsAccessor after managed wanted := by
  obtain ⟨field, declared, method, resolved, found, located, accessor⟩ := finds
  have still := keeps.resolveField legible.fields resolved
  refine ⟨field, declared, method, still, ?_, stays located, ?_⟩
  · rw [keeps.field? legible.fields, found]
  · rw [keeps.isInterface]
    exact accessor.extends keeps.pool

/-- Accessors that were just added are found. -/
theorem findsAccessor_of_addAccessors (legible : before.file.Legible) {nothing : Unit}
    (ran : Enhancer.addAccessors managed before = (.ok nothing, after))
    (isWanted : wanted ∈ Enhancer.wantedAccessors managed.accessors) :
    FindsAccessor after managed wanted := by
  obtain ⟨field, declared, added, made⟩ := exists_accessorsMade legible ran
  have keeps := made.keepsFields
  have methods : after.file.methods = before.file.methods ++ added := by
    rw [made.rest]
  -- Among those that were added, only the one that is wanted is called what is looked for.
  have agree (other : Direction × String) (method : Method)
      (both : method.isCalled after.file.pool other.2
          (some (field.accessorType other.1).descriptor) = true ∧
        IsAccessor after.file.pool field
          (Enhancer.accessorFlags before.file.isInterface declared.flags) other method) :
      method.isCalled after.file.pool wanted.2
        (some (field.accessorType wanted.1).descriptor) = decide (other = wanted) := by
    obtain ⟨called, accessor⟩ := both
    by_cases same : other = wanted
    · rw [decide_eq_true same, ← same, called]
    · rw [decide_eq_false same, Bool.eq_false_iff]
      intro calledSo
      obtain ⟨name, descriptor⟩ := Member.texts_of_isCalled calledSo
      have descriptors : (field.accessorType other.1).descriptor =
          (field.accessorType wanted.1).descriptor :=
        Except.ok.inj (accessor.descriptor.symm.trans descriptor)
      exact same (Prod.ext (accessorType_descriptor_inj descriptors)
        (Except.ok.inj (accessor.name.symm.trans name)))
  have picked : (Enhancer.wantedAccessors managed.accessors).find?
      (fun other => decide (other = wanted)) = some wanted := by
    cases found : (Enhancer.wantedAccessors managed.accessors).find?
        (fun other => decide (other = wanted)) with
    | none => exact absurd (decide_eq_true rfl) (List.find?_eq_none.mp found wanted isWanted)
    | some other =>
      have same := List.find?_some (p := fun other => decide (other = wanted)) found
      rw [of_decide_eq_true same]
  obtain ⟨method, located, -, accessor⟩ := exists_find?_of_forall₂ made.made _ agree picked
  refine ⟨field, declared, method, keeps.resolveField legible.fields made.resolved, ?_, ?_, ?_⟩
  · rw [keeps.field? legible.fields, made.found]
  · unfold ClassFile.method?
    rw [methods, ClassFile.locate?_append_of_missing legible made.pool
      (made.missing wanted isWanted)]
    exact located
  · rw [keeps.isInterface]
    exact accessor

theorem FindsAccessor.of_accessorsAdded {others : List ManagedField} {added : List Method}
    (legible : before.file.Legible) (accessors : AccessorsAdded others before after added)
    (finds : FindsAccessor before managed wanted) : FindsAccessor after managed wanted := by
  refine finds.keeps accessors.keepsFields legible fun {descriptor method} found => ?_
  have methods : after.file.methods = before.file.methods ++ added := by
    rw [accessors.rest]
  unfold ClassFile.method?
  rw [methods]
  exact ClassFile.locate?_append_of_found legible accessors.pool found

theorem findsAccessor_of_addAccessorsIfDeclared (legible : before.file.Legible) {nothing : Unit}
    (ran : Enhancer.addAccessorsIfDeclared managed before = (.ok nothing, after))
    (declared : declares before.file managed = true)
    (isWanted : wanted ∈ Enhancer.wantedAccessors managed.accessors) :
    FindsAccessor after managed wanted := by
  obtain ⟨present, middle, asked, ran⟩ := Stateful.bind_eq_ok_iff.mp ran
  obtain ⟨question, rfl⟩ := Enhancer.ask_eq_ok_iff.mp asked
  obtain rfl := Outcome.pure_eq_ok_iff.mp question
  unfold declares at declared
  rw [if_pos declared] at ran
  exact findsAccessor_of_addAccessors legible ran isWanted

/-- When the accessors of one managed field after the other were added, all of them are found. -/
theorem findsAccessor_of_forM (legible : before.file.Legible) {fields : List ManagedField}
    {nothing : PUnit}
    (ran : fields.forM Enhancer.addAccessorsIfDeclared before = (.ok nothing, after)) :
    ∀ managed ∈ fields, declares before.file managed = true →
      ∀ wanted ∈ Enhancer.wantedAccessors managed.accessors,
        FindsAccessor after managed wanted := by
  induction fields generalizing before with
  | nil => exact List.forall_mem_nil _
  | cons field rest inductionHypothesis =>
    obtain ⟨middle, first, later⟩ := Stateful.forM_cons_eq_ok_iff.mp ran
    obtain ⟨-, added, here⟩ := exists_of_addAccessorsIfDeclared legible first
    obtain ⟨-, addedLater, others⟩ := exists_accessorsAdded here.legible later
    refine List.forall_mem_cons.mpr ⟨fun declared wanted isWanted => ?_,
      fun managed member declared => ?_⟩
    · exact (findsAccessor_of_addAccessorsIfDeclared legible first declared isWanted)
        |>.of_accessorsAdded here.legible others
    · refine inductionHypothesis here.legible later managed member ?_
      rw [declares, here.keepsFields.field? legible.fields]
      exact declared

/-- Accessors are found still when methods have given up their uses of managed fields. -/
theorem FindsAccessor.of_givenUp {count : Nat} (legible : before.file.Legible)
    (given : GivenUp plan before count after) (inPlan : managed ∈ plan.managedFields)
    (isWanted : wanted ∈ Enhancer.wantedAccessors managed.accessors)
    (finds : FindsAccessor before managed wanted) : FindsAccessor after managed wanted := by
  refine finds.keeps given.keepsFields legible fun {descriptor method} found => ?_
  obtain ⟨new, foundNew, revised⟩ := given.exists_method? legible found
  obtain ⟨named, -⟩ := Member.texts_of_isCalled (List.find?_some found)
  rw [← revised.eq_of_isAccessor (given.pool.text named)
    (isAccessor_of_mem_wantedAccessors inPlan isWanted)]
  exact foundNew

/-- After a plan was carried out, the accessors of the managed fields that the class declares are
what is found under their names and descriptors. -/
theorem findsAccessor_of_applySteps {count : Nat} (legible : before.file.Legible)
    (ran : Enhancer.applySteps plan before = (.ok count, after))
    (inPlan : managed ∈ plan.managedFields) (declared : declares after.file managed = true)
    (isWanted : wanted ∈ Enhancer.wantedAccessors managed.accessors) :
    FindsAccessor after managed wanted := by
  obtain ⟨implementing, declaring, calling, phases⟩ := applySteps_eq_ok_iff.mp ran
  have accomplished := phases.accomplished legible
  obtain ⟨added, fields⟩ := accomplished.fields
  obtain ⟨addedMethods, accessors⟩ := accomplished.accessors
  have given := accomplished.given
  have keeps := accessors.keepsFields.trans given.keepsFields
  have declaredFirst : declares declaring.file managed = true := by
    rw [declares, keeps.field? fields.legible.fields] at declared
    exact declared
  exact (findsAccessor_of_forM fields.legible phases.accessors managed inPlan declaredFirst wanted
    isWanted).of_givenUp accessors.legible given inPlan isWanted

end phases

end Enhancement

end JavaClass
