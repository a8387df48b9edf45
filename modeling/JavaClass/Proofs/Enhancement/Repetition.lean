/-
Enhancing again. A plan that was carried out leaves a settled class: the interfaces, fields and
accessors it asks for are there, and no method that it concerns has a use left to redirect. On a
settled class every step of the plan leaves things as they are or finds a member there already. So
the second time a plan either is refused for a duplicate member, which it is if and only if it adds
members to the class, or changes nothing at all.
-/

import JavaClass.Proofs.Enhancement.Soundness

namespace JavaClass.Enhancement

/-- Whether a plan adds members to a class: a field, or an accessor of a field that the class
declares. -/
def Plan.AddsMembers (plan : Plan) (file : ClassFile) : Prop :=
  plan.addedFields ≠ [] ∨
    ∃ managed ∈ plan.managedFields, managed.accessors.names ≠ [] ∧ declares file managed = true

/-- A class that has what a plan asks for. -/
structure Settled (plan : Plan) (enhancer : Enhancer) : Prop where
  interfaces : ∀ name ∈ plan.interfaces, Enhancer.HasInterface enhancer name
  fields : ∀ field ∈ plan.addedFields, Enhancer.HasField enhancer field
  accessors : ∀ managed ∈ plan.managedFields, declares enhancer.file managed = true →
    HasAccessors enhancer managed
  uses : ∃ methods, Enhancer.methodsWithBody enhancer.file = .ok methods ∧
    ∀ method ∈ plan.concerned methods, ∀ managed ∈ plan.managedFields,
      FreeOf managed method.name method.type.descriptor enhancer
  reports : enhancer.reporting ≠ .silent → ∃ name, enhancer.file.name = .ok name

/-! ### What carrying out a plan leaves -/

section settling

variable {plan : Plan} {before implementing declaring calling after : Enhancer} {count : Nat}

/-- Once fields were added, the class keeps its fields. -/
theorem Accomplished.keepsFields
    (accomplished : Accomplished plan before implementing declaring calling count after) :
    declaring.KeepsFields after := by
  obtain ⟨added, called⟩ := accomplished.accessors
  exact called.keepsFields.trans accomplished.given.keepsFields

theorem settled_of_phases (phases : Phases plan before implementing declaring calling count after)
    (legible : before.file.Legible) : Settled plan after := by
  have accomplished := phases.accomplished legible
  have given := accomplished.given
  have keeps := accomplished.keepsFields
  obtain ⟨addedInterfaces, implemented⟩ := accomplished.interfaces
  obtain ⟨addedFields, declared⟩ := accomplished.fields
  obtain ⟨addedMethods, called⟩ := accomplished.accessors
  obtain ⟨methods, listed, free⟩ := accomplished.free
  have interfaces : after.file.interfaces = implementing.file.interfaces := by
    rw [given.rest, called.rest, declared.rest]
  exact {
    interfaces := fun name member => (accomplished.hasInterfaces name member).keeps
      (declared.pool.trans keeps.pool) (interfaces.trans (List.append_nil _).symm) .nil
    fields := fun field member => (accomplished.hasFields field member).keeps keeps.pool
      (keeps.fields.trans (List.append_nil _).symm)
    accessors := fun managed member isDeclared => by
      rw [declares, keeps.field? declared.legible.fields] at isDeclared
      refine (accomplished.hasAccessors managed member isDeclared).keeps given.keepsFields
        called.legible fun method isMethod => ?_
      obtain ⟨kept, isKept, revised⟩ := exists_mem_of_forall₂_right given.methods.flip isMethod
      exact ⟨kept, isKept, MethodRevised.texts_eq revised⟩
    uses := ⟨methods, given.methodsWithBody_eq listed, free⟩
    reports := phases.reports }

/-- A class that is read again inherits what the plan says, as the one that was written did. -/
theorem CarriedOut.inheriting_eq {reporting : Reporting} {file : ClassFile}
    (carried : CarriedOut plan (.ofClass reporting [] file) count after) :
    (Enhancer.ofClass reporting [] after.file).inheriting plan.inheritedFields = after := by
  have inherited := carried.inherited
  have reports : after.reporting = reporting := carried.reporting
  obtain ⟨held, afterInherited, afterReporting⟩ := after
  obtain rfl : afterInherited = _ := inherited
  obtain rfl : afterReporting = reporting := reports
  rfl

/-- Whether a plan adds members can be told before it is carried out and afterwards. -/
theorem Accomplished.addsMembers_iff
    (accomplished : Accomplished plan before implementing declaring calling count after)
    (legible : before.file.Legible) :
    plan.AddsMembers after.file ↔ plan.AddsMembers before.file := by
  refine or_congr_right' fun noFields => ?_
  obtain ⟨addedInterfaces, implemented⟩ := accomplished.interfaces
  obtain ⟨addedFields, declared⟩ := accomplished.fields
  have row := declared.fields
  rw [not_not.mp noFields] at row
  obtain rfl := List.forall₂_nil_left_iff.mp row
  have keeps : (before.inheriting plan.inheritedFields).KeepsFields declaring := by
    rw [declared.rest, implemented.rest]
    exact ⟨implemented.pool.trans declared.pool, rfl, rfl, List.append_nil _, rfl⟩
  have same (managed : ManagedField) :
      declares after.file managed = declares before.file managed := by
    unfold declares
    rw [(keeps.trans accomplished.keepsFields).field? legible.fields]
    rfl
  simp only [same]

end settling

/-! ### The steps once more -/

section steps

variable {enhancer : Enhancer}

theorem addInterface_of_hasInterface {name : String} (has : Enhancer.HasInterface enhancer name)
    (reports : enhancer.reporting ≠ .silent → ∃ own, enhancer.file.name = .ok own) :
    Enhancer.addInterface name enhancer = (.ok false, enhancer) := by
  obtain ⟨names, read, member⟩ := has
  refine Stateful.bind_eq_ok_iff.mpr ⟨true, enhancer, Enhancer.ask_eq_ok_iff.mpr ⟨?_, rfl⟩, rfl⟩
  refine Outcome.bind_eq_ok_iff.mpr ⟨names, read, Outcome.check_eq_ok_iff.mpr ⟨fun asked => ?_, ?_⟩⟩
  · have detailed := of_decide_eq_true (Bool.and_eq_true_iff.mp asked).2
    exact Outcome.discard_eq_ok_iff.mpr (reports (by rw [detailed]; decide))
  · exact Outcome.pure_eq_ok_iff.mpr (List.contains_iff_mem.mpr member)

theorem addField_of_hasField {field : AddedField} (has : Enhancer.HasField enhancer field) :
    Enhancer.addField field.name field.descriptor field.flags enhancer =
      (.error (.duplicateMember field.name field.descriptor), enhancer) := by
  obtain ⟨⟨type, typed⟩, there⟩ := has
  have isThere : (enhancer.file.field? field.name (some field.descriptor)).isSome = true :=
    List.find?_isSome.mpr there
  refine Stateful.bind_of_error (Enhancer.ask_eq_error_iff.mpr ⟨?_, rfl⟩)
  simp only [typed, isThere, if_true]
  rfl

theorem wantedAccessors_eq_nil_iff {accessors : FieldAccessors} :
    Enhancer.wantedAccessors accessors = [] ↔ accessors.names = [] := by
  obtain ⟨getter, setter⟩ := accessors
  cases getter <;> cases setter <;> simp [Enhancer.wantedAccessors, FieldAccessors.names]

variable {managed : ManagedField}

/-- Adding the accessors of a field that is to have none. -/
theorem addAccessors_of_none (has : HasAccessors enhancer managed)
    (declared : declares enhancer.file managed = true)
    (none : Enhancer.wantedAccessors managed.accessors = []) :
    Enhancer.addAccessors managed enhancer = (.ok (), enhancer) := by
  obtain ⟨field, resolved, -⟩ := has
  obtain ⟨holder, found⟩ := Option.isSome_iff_exists.mp declared
  unfold Enhancer.addAccessors
  simp only [none]
  refine Stateful.bind_eq_ok_iff.mpr
    ⟨(field, Enhancer.accessorFlags enhancer.file.isInterface holder.flags), enhancer,
      Enhancer.ask_eq_ok_iff.mpr ⟨?_, rfl⟩, Enhancer.atomically_eq_ok_iff.mpr ?_⟩
  · simp only [found, resolved]
    rfl
  · refine Stateful.bind_eq_ok_iff.mpr ⟨[], enhancer, rfl, Enhancer.change_eq_ok_iff.mpr ?_⟩
    rw [List.append_nil]

/-- Adding the accessors of a field that has some of them already. -/
theorem exists_addAccessors_eq_error (has : HasAccessors enhancer managed)
    (declared : declares enhancer.file managed = true)
    (some : Enhancer.wantedAccessors managed.accessors ≠ []) :
    ∃ name descriptor, Enhancer.addAccessors managed enhancer =
      (.error (.duplicateMember name descriptor), enhancer) := by
  obtain ⟨field, resolved, accessors⟩ := has
  obtain ⟨holder, found⟩ := Option.isSome_iff_exists.mp declared
  obtain ⟨⟨direction, name⟩, rest, wanted⟩ := List.exists_cons_of_ne_nil some
  have isThere : (enhancer.file.method? name
      (field.accessorType direction).descriptor).isSome = true :=
    List.find?_isSome.mpr (accessors (direction, name) (wanted ▸ List.mem_cons_self))
  have refused : Enhancer.requireNewMethod name (field.accessorType direction).descriptor
      enhancer.file = .error (.duplicateMember name (field.accessorType direction).descriptor) :=
    if_pos isThere
  refine ⟨name, (field.accessorType direction).descriptor, ?_⟩
  unfold Enhancer.addAccessors
  simp only [wanted]
  refine Stateful.bind_of_error (Enhancer.ask_eq_error_iff.mpr ⟨?_, rfl⟩)
  simp only [found, resolved]
  show (Enhancer.requireNewMethod _ _ _ >>= _) >>= _ = _
  rw [refused]
  rfl

/-- A managed field without accessors, or one that the class does not declare. -/
theorem addAccessorsIfDeclared_of_not_adds
    (has : declares enhancer.file managed = true → HasAccessors enhancer managed)
    (nothing : ¬(managed.accessors.names ≠ [] ∧ declares enhancer.file managed = true)) :
    Enhancer.addAccessorsIfDeclared managed enhancer = (.ok (), enhancer) := by
  refine Stateful.bind_eq_ok_iff.mpr
    ⟨declares enhancer.file managed, enhancer, Enhancer.ask_eq_ok_iff.mpr ⟨rfl, rfl⟩, ?_⟩
  by_cases declared : declares enhancer.file managed = true
  · rw [if_pos declared]
    exact addAccessors_of_none (has declared) declared
      (wantedAccessors_eq_nil_iff.mpr (not_not.mp fun some => nothing ⟨some, declared⟩))
  · rw [if_neg declared]
    rfl

/-- A managed field that the class declares and that has an accessor already. -/
theorem exists_addAccessorsIfDeclared_eq_error (has : HasAccessors enhancer managed)
    (some : managed.accessors.names ≠ []) (declared : declares enhancer.file managed = true) :
    ∃ name descriptor, Enhancer.addAccessorsIfDeclared managed enhancer =
      (.error (.duplicateMember name descriptor), enhancer) := by
  obtain ⟨name, descriptor, refused⟩ :=
    exists_addAccessors_eq_error has declared (mt wantedAccessors_eq_nil_iff.mp some)
  refine ⟨name, descriptor, Stateful.bind_eq_error_iff.mpr (.inr
    ⟨declares enhancer.file managed, enhancer, Enhancer.ask_eq_ok_iff.mpr ⟨rfl, rfl⟩, ?_⟩)⟩
  rw [if_pos declared]
  exact refused

theorem redirectFieldUses_of_freeOf {name descriptor : String}
    (free : FreeOf managed name descriptor enhancer) :
    Enhancer.redirectFieldUses name descriptor managed enhancer = (.ok 0, enhancer) := by
  obtain ⟨field, none⟩ := free.redirections_eq
  exact Stateful.bind_eq_ok_iff.mpr
    ⟨(field, []), enhancer, Enhancer.ask_eq_ok_iff.mpr ⟨none, rfl⟩, rfl⟩

end steps

/-! ### The plan once more -/

section plans

variable {plan : Plan} {start settled : Enhancer}

section again

variable (settles : Settled plan settled)
  (inherits : start.inheriting plan.inheritedFields = settled)

include settles inherits

theorem Settled.interfaces_again :
    plan.interfaces.forM (fun name => discard (Enhancer.addInterface name))
      (start.inheriting plan.inheritedFields) = (.ok PUnit.unit, settled) := by
  rw [inherits]
  refine Stateful.forM_of_idle fun name member => Stateful.discard_eq_ok_iff.mpr ⟨false, ?_⟩
  exact addInterface_of_hasInterface (settles.interfaces name member) settles.reports

/-- A plan that adds no members changes nothing when it is carried out again. -/
theorem Settled.applySteps_eq (nothing : ¬plan.AddsMembers settled.file) :
    Enhancer.applySteps plan start = (.ok 0, settled) := by
  obtain ⟨noFields, noAccessors⟩ := not_or.mp nothing
  obtain ⟨methods, listed, free⟩ := settles.uses
  refine applySteps_eq_ok_iff.mpr ⟨settled, settled, settled, {
    interfaces := settles.interfaces_again inherits
    fields := ?_
    accessors := Stateful.forM_of_idle fun managed member => ?_
    uses := ⟨methods, listed, Stateful.foldlM_of_idle fun method isMethod =>
      Stateful.foldlM_of_idle fun managed member => ?_⟩
    reports := settles.reports }⟩
  · rw [not_not.mp noFields]
    rfl
  · exact addAccessorsIfDeclared_of_not_adds (settles.accessors managed member)
      fun adds => noAccessors ⟨managed, member, adds⟩
  · exact Stateful.bind_eq_ok_iff.mpr
      ⟨0, settled, redirectFieldUses_of_freeOf (free method isMethod managed member), rfl⟩

/-- A plan that adds members is refused when it is carried out again. -/
theorem Settled.exists_applySteps_eq_error (adds : plan.AddsMembers settled.file) :
    ∃ name descriptor failed,
      Enhancer.applySteps plan start = (.error (.duplicateMember name descriptor), failed) := by
  have interfaces := settles.interfaces_again inherits
  have inherit : (modify fun enhancer => { enhancer with
      inherited := enhancer.inherited ++ plan.inheritedFields } : Enhancing PUnit) start =
        (.ok PUnit.unit, start.inheriting plan.inheritedFields) := rfl
  unfold Enhancer.applySteps
  rw [Stateful.bind_of_ok inherit, Stateful.bind_of_ok interfaces]
  cases fields : plan.addedFields with
  | cons field rest =>
    have refused := addField_of_hasField (settles.fields field (fields ▸ List.mem_cons_self))
    exact ⟨field.name, field.descriptor, settled,
      Stateful.bind_of_error (Stateful.bind_of_error refused)⟩
  | nil =>
    have someAccessor := adds.resolve_left (not_not.mpr fields)
    have refused : ∃ error, (∃ name descriptor, error = .duplicateMember name descriptor) ∧
        plan.managedFields.forM Enhancer.addAccessorsIfDeclared settled =
          (.error error, settled) := by
      refine Stateful.exists_forM_eq_error (fun managed member => ?_)
        (fun managed member adds => ?_) someAccessor
      · exact addAccessorsIfDeclared_of_not_adds (settles.accessors managed member)
      · obtain ⟨name, descriptor, refused⟩ := exists_addAccessorsIfDeclared_eq_error
          (settles.accessors managed member adds.2) adds.1 adds.2
        exact ⟨_, ⟨name, descriptor, rfl⟩, refused⟩
    obtain ⟨_, ⟨name, descriptor, rfl⟩, refused⟩ := refused
    have noFields : ([] : List AddedField).forM
        (fun field => Enhancer.addField field.name field.descriptor field.flags) settled =
          (.ok PUnit.unit, settled) := rfl
    exact ⟨name, descriptor, settled,
      (Stateful.bind_of_ok noFields).trans (Stateful.bind_of_error refused)⟩

end again

end plans

/-- Enhancing what came out of enhancing a class, provided that a file can count what is in it: the
plan is refused for a duplicate member if it adds members to the class, and otherwise gives the same
class and the same bytes again. -/
theorem enhance_of_enhance {reporting : Reporting} {plan : Plan} {bytes out : Bytes}
    (enhanced : enhance reporting plan bytes = .ok out) :
    ∃ file held, ClassFile.read bytes = .ok file ∧ enhanceClass reporting plan file = .ok held ∧
      out = held.write ∧ (held.Countable →
        (plan.AddsMembers file → ∃ name descriptor,
          enhance reporting plan out = .error (.duplicateMember name descriptor)) ∧
        (¬plan.AddsMembers file →
          enhanceClass reporting plan held = .ok held ∧ enhance reporting plan out = .ok out)) := by
  obtain ⟨file, held, read, held_eq, rfl⟩ := enhance_eq_ok_iff.mp enhanced
  obtain ⟨count, after, ran, rfl⟩ := enhanceClass_eq_ok_iff.mp held_eq
  refine ⟨file, after.file, read, held_eq, rfl, fun countable => ?_⟩
  have proper := (ClassFile.read_eq_ok_iff.mp read).1
  have readAgain : ClassFile.read after.file.write = .ok after.file :=
    ClassFile.read_eq_ok_iff.mpr ⟨wellFormed_of_applySteps proper ran countable, rfl⟩
  have carried := carriedOut_of_applySteps proper.legible ran
  obtain ⟨implementing, declaring, calling, phases⟩ := applySteps_eq_ok_iff.mp ran
  have settles := settled_of_phases phases proper.legible
  have inherits := carried.inheriting_eq
  have addsSame : plan.AddsMembers after.file ↔ plan.AddsMembers file :=
    (phases.accomplished proper.legible).addsMembers_iff proper.legible
  rw [← addsSame]
  constructor
  · intro adds
    obtain ⟨name, descriptor, failed, refused⟩ :=
      settles.exists_applySteps_eq_error inherits adds
    exact ⟨name, descriptor, enhance_of_error readAgain (enhanceClass_of_error refused)⟩
  · intro nothing
    have same : enhanceClass reporting plan after.file = .ok after.file :=
      enhanceClass_eq_ok_iff.mpr ⟨0, after, settles.applySteps_eq inherits nothing, rfl⟩
    exact ⟨same, enhance_eq_ok_iff.mpr ⟨after.file, after.file, readAgain, same, rfl⟩⟩

/-- A plan that adds no members to the class with a static field, although it manages the field. -/
def planOfInterface : Plan where
  interfaces := ["I"]
  addedFields := []
  managedFields := [⟨"x", none, ⟨none, none⟩⟩]
  inheritedFields := []

/-- The one plan is refused the second time, the other changes nothing any more. -/
theorem enhance_of_enhance_planOfUses :
    (∃ out, enhance .silent planOfUses fileOfUses = .ok out ∧ ∃ name descriptor,
      enhance .silent planOfUses out = .error (.duplicateMember name descriptor)) ∧
    ∃ out, enhance .silent planOfInterface fileOfUses = .ok out ∧
      enhance .silent planOfInterface out = .ok out := by
  constructor
  · obtain ⟨out, succeeds, countable⟩ :=
      exists_enhance_of_countable .silent planOfUses fileOfUses (by decide +kernel)
    obtain ⟨file, held, read, enhanced, -, again⟩ := enhance_of_enhance succeeds
    exact ⟨out, succeeds, (again (countable file held read enhanced)).1 (.inl (by decide))⟩
  · obtain ⟨out, succeeds, countable⟩ :=
      exists_enhance_of_countable .silent planOfInterface fileOfUses (by decide +kernel)
    obtain ⟨file, held, read, enhanced, -, again⟩ := enhance_of_enhance succeeds
    refine ⟨out, succeeds, ((again (countable file held read enhanced)).2 ?_).2⟩
    rintro (fields | ⟨managed, member, named, -⟩)
    · exact fields rfl
    · obtain rfl := List.mem_singleton.mp member
      exact named rfl

end JavaClass.Enhancement
