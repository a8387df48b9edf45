/-
Carrying out a plan. A plan that succeeds changes what it names and nothing else: constants,
interfaces, fields and accessors are added behind those there were, every method stays where it is,
and the only thing about a method that may change is the code of its body, in which uses of managed
fields gave way to calls. There are as many of these as are counted.
-/

import JavaClass.Proofs.Enhancement.Accessors
import JavaClass.Proofs.Enhancement.Additions
import JavaClass.Proofs.Enhancement.Leftover

namespace JavaClass.Enhancement

/-- A class that a plan was carried out on. Constants, interfaces, fields and accessors were added
behind those there were, in the order of the plan, and methods were revised where they are; as many
instructions of theirs are different ones as are counted. -/
structure CarriedOut (plan : Plan) (before : Enhancer) (count : Nat) (after : Enhancer) : Prop where
  version : after.file.version = before.file.version
  flags : after.file.flags = before.file.flags
  thisClass : after.file.thisClass = before.file.thisClass
  superClass : after.file.superClass = before.file.superClass
  attributes : after.file.attributes = before.file.attributes
  pool : before.file.pool.slots.toList <+: after.file.pool.slots.toList
  interfaces : ∃ added, after.file.interfaces = before.file.interfaces ++ added ∧
    List.Forall₂ (fun name index => after.file.pool.className index = .ok name)
      (before.file.missingInterfaces plan.interfaces) added
  fields : ∃ added, after.file.fields = before.file.fields ++ added ∧
    List.Forall₂ (Enhancer.IsAdded after.file.pool) plan.addedFields added
  methods : ∃ kept added, after.file.methods = kept ++ added ∧
    List.Forall₂ (MethodRevised plan after) before.file.methods kept ∧
    List.Forall₂ (fun wanted => IsAccessorIn after wanted.1 wanted.2)
      (declaredAccessors after.file plan.managedFields) added ∧
    count = Method.changesIn before.file.methods kept
  inherited : after.inherited = before.inherited ++ plan.inheritedFields
  reporting : after.reporting = before.reporting

/-- The class being enhanced with more fields that it is known to inherit. -/
def Enhancer.inheriting (fields : List InheritedField) (enhancer : Enhancer) : Enhancer :=
  { enhancer with inherited := enhancer.inherited ++ fields }

/-- Those of the given methods that have to give up their uses of managed fields. -/
def Plan.concerned (plan : Plan) (methods : List MethodKey) : List MethodKey :=
  methods.filter fun method => !(method.isInitializer || plan.isAccessor method.name)

/-- The classes that a plan that is carried out goes through: with the interfaces, with the fields
as well, with the accessors as well, and in the end with the uses redirected. -/
structure Phases (plan : Plan) (before implementing declaring calling : Enhancer) (count : Nat)
    (after : Enhancer) : Prop where
  interfaces : plan.interfaces.forM (fun name => discard (Enhancer.addInterface name))
    (before.inheriting plan.inheritedFields) = (.ok PUnit.unit, implementing)
  fields : plan.addedFields.forM
    (fun field => Enhancer.addField field.name field.descriptor field.flags) implementing =
      (.ok PUnit.unit, declaring)
  accessors : plan.managedFields.forM Enhancer.addAccessorsIfDeclared declaring =
    (.ok PUnit.unit, calling)
  uses : ∃ methods, Enhancer.methodsWithBody calling.file = .ok methods ∧
    Enhancer.redirectAll plan.managedFields (plan.concerned methods) calling = (.ok count, after)
  reports : after.reporting ≠ .silent → ∃ name, after.file.name = .ok name

section plans

variable {plan : Plan} {before after : Enhancer} {count : Nat}

/-- Methods that a plan concerns are neither initialisers nor named like an accessor. -/
theorem mem_concerned_iff {methods : List MethodKey} {method : MethodKey} :
    method ∈ plan.concerned methods ↔ method ∈ methods ∧ plan.Concerns method.name := by
  unfold Plan.concerned Plan.Concerns MethodKey.isInitializer
  rw [List.mem_filter, Bool.not_eq_true', Bool.or_eq_false_iff, Bool.or_eq_false_iff,
    beq_eq_false_iff_ne, beq_eq_false_iff_ne, and_assoc]

theorem applySteps_eq_ok_iff :
    Enhancer.applySteps plan before = (.ok count, after) ↔
      ∃ implementing declaring calling,
        Phases plan before implementing declaring calling count after := by
  constructor
  · intro ran
    obtain ⟨_, inheriting, inherit, ran⟩ := Stateful.bind_eq_ok_iff.mp ran
    obtain ⟨-, rfl⟩ := Prod.mk.inj inherit
    obtain ⟨_, implementing, interfaces, ran⟩ := Stateful.bind_eq_ok_iff.mp ran
    obtain ⟨_, declaring, fields, ran⟩ := Stateful.bind_eq_ok_iff.mp ran
    obtain ⟨_, calling, accessors, ran⟩ := Stateful.bind_eq_ok_iff.mp ran
    obtain ⟨methods, same, asked, ran⟩ := Stateful.bind_eq_ok_iff.mp ran
    obtain ⟨found, rfl⟩ := Enhancer.ask_eq_ok_iff.mp asked
    obtain ⟨total, redirecting, redirected, ran⟩ := Stateful.bind_eq_ok_iff.mp ran
    obtain ⟨_, last, reported, done⟩ := Stateful.bind_eq_ok_iff.mp ran
    obtain ⟨reports, rfl⟩ := Enhancer.ask_eq_ok_iff.mp reported
    obtain ⟨rfl, rfl⟩ := Stateful.pure_eq_ok_iff.mp done
    refine ⟨implementing, declaring, calling, interfaces, fields, accessors,
      ⟨methods, found, redirected⟩, fun aloud => ?_⟩
    rw [if_pos aloud] at reports
    exact Outcome.discard_eq_ok_iff.mp reports
  · rintro ⟨implementing, declaring, calling, phases⟩
    obtain ⟨methods, found, redirected⟩ := phases.uses
    have reports : (if after.reporting ≠ .silent then discard after.file.name else pure ()) =
        (.ok () : Except Error Unit) := by
      by_cases aloud : after.reporting ≠ .silent
      · rw [if_pos aloud]
        exact Outcome.discard_eq_ok_iff.mpr (phases.reports aloud)
      · rw [if_neg aloud]
        rfl
    refine Stateful.bind_eq_ok_iff.mpr ⟨(), before.inheriting plan.inheritedFields, rfl, ?_⟩
    refine Stateful.bind_eq_ok_iff.mpr ⟨(), implementing, phases.interfaces, ?_⟩
    refine Stateful.bind_eq_ok_iff.mpr ⟨(), declaring, phases.fields, ?_⟩
    refine Stateful.bind_eq_ok_iff.mpr ⟨(), calling, phases.accessors, ?_⟩
    refine Stateful.bind_eq_ok_iff.mpr ⟨_, _, Enhancer.ask_eq_ok_iff.mpr ⟨found, rfl⟩, ?_⟩
    refine Stateful.bind_eq_ok_iff.mpr ⟨_, _, redirected, ?_⟩
    exact Stateful.bind_eq_ok_iff.mpr ⟨_, _, Enhancer.ask_eq_ok_iff.mpr ⟨reports, rfl⟩, rfl⟩

/-- An accessor is named like one. -/
theorem isAccessor_of_mem_wantedAccessors {managed : ManagedField}
    (inPlan : managed ∈ plan.managedFields) {wanted : Direction × String}
    (isWanted : wanted ∈ Enhancer.wantedAccessors managed.accessors) :
    plan.isAccessor wanted.2 = true := by
  obtain ⟨direction, name⟩ := wanted
  have named : name ∈ managed.accessors.names := by
    unfold Enhancer.wantedAccessors at isWanted
    unfold FieldAccessors.names
    simp only [List.mem_append, Option.mem_toList, Option.map_eq_some_iff, Prod.mk.injEq]
      at isWanted ⊢
    obtain ⟨getter, isGetter, -, rfl⟩ | ⟨setter, isSetter, -, rfl⟩ := isWanted
    · exact .inl isGetter
    · exact .inr isSetter
  exact List.any_eq_true.mpr ⟨managed, inPlan, List.contains_iff_mem.mpr named⟩

theorem isAccessor_of_mem_declaredAccessors {file : ClassFile}
    {wanted : ManagedField × Direction × String}
    (member : wanted ∈ declaredAccessors file plan.managedFields) :
    plan.isAccessor wanted.2.2 = true := by
  obtain ⟨managed, declared, listed⟩ := List.mem_flatMap.mp member
  obtain ⟨both, isWanted, rfl⟩ := List.mem_map.mp listed
  exact isAccessor_of_mem_wantedAccessors (List.mem_filter.mp declared).1 isWanted

/-- Methods that are named like an accessor stay as they are. -/
theorem MethodRevised.eq_of_isAccessor {old new : Method}
    (revised : MethodRevised plan after old new)
    {name : String} (named : after.file.pool.text old.name = .ok name)
    (isAccessor : plan.isAccessor name = true) : new = old := by
  obtain same | ⟨⟨text, read, -, -, other⟩, -⟩ := revised
  · exact same
  · obtain rfl := Except.ok.inj (read.symm.trans named)
    rw [isAccessor] at other
    cases other

theorem MethodRevised.eq_of_mem_added {file : ClassFile} {added : List Method}
    (accessors : List.Forall₂ (fun wanted => IsAccessorIn after wanted.1 wanted.2)
      (declaredAccessors file plan.managedFields) added) {old new : Method} (member : old ∈ added)
    (revised : MethodRevised plan after old new) : new = old := by
  obtain ⟨wanted, isWanted, field, declared, -, -, accessor⟩ :=
    exists_mem_of_forall₂_right accessors member
  exact revised.eq_of_isAccessor accessor.name (isAccessor_of_mem_declaredAccessors isWanted)

/-- When accessors were added and uses of fields were then given up, the accessors stand behind the
methods that there were, and only these have become different. -/
theorem exists_kept {declaring calling : Enhancer} {added : List Method}
    (legible : declaring.file.Legible)
    (called : AccessorsAdded plan.managedFields declaring calling added)
    (given : GivenUp plan calling count after) :
    ∃ kept, after.file.methods = kept ++ added ∧
      List.Forall₂ (MethodRevised plan after) declaring.file.methods kept ∧
      List.Forall₂ (fun wanted => IsAccessorIn after wanted.1 wanted.2)
        (declaredAccessors after.file plan.managedFields) added ∧
      count = Method.changesIn declaring.file.methods kept := by
  have methods : calling.file.methods = declaring.file.methods ++ added := by
    rw [called.rest]
  have keeps := called.keepsFields.trans given.keepsFields
  have accessors := called.accessors.imp fun wanted method accessor =>
    accessor.keeps given.keepsFields called.legible
  rw [← declaredAccessors_of_keepsFields keeps legible] at accessors
  have row := given.methods
  rw [methods] at row
  obtain ⟨kept, stayed, same, rowKept, rowStayed⟩ := exists_of_forall₂_append row
  obtain rfl := eq_of_forall₂ rowStayed
    fun method member new revised => revised.eq_of_mem_added accessors member
  refine ⟨kept, same, rowKept, accessors, ?_⟩
  rw [given.count, methods, same, Method.changesIn_append rowKept.length_eq,
    Method.changesIn_self, Nat.add_zero]

/-- A plan that is carried out one phase after the other. -/
theorem carriedOut_of_phases {implementing declaring calling : Enhancer}
    {addedInterfaces : List UInt16} {addedFields : List Field} {addedMethods : List Method}
    (implemented : Enhancer.InterfacesAdded plan.interfaces
      (before.inheriting plan.inheritedFields) implementing addedInterfaces)
    (declared : Enhancer.FieldsAdded plan.addedFields implementing declaring addedFields)
    (called : AccessorsAdded plan.managedFields declaring calling addedMethods)
    (given : GivenUp plan calling count after) : CarriedOut plan before count after := by
  have rest : after = { before with
      file := { before.file with
        pool := after.file.pool
        interfaces := before.file.interfaces ++ addedInterfaces
        fields := before.file.fields ++ addedFields
        methods := after.file.methods }
      inherited := before.inherited ++ plan.inheritedFields } := by
    rw [given.rest, called.rest, declared.rest, implemented.rest]
    rfl
  have methods : declaring.file.methods = before.file.methods := by
    rw [declared.rest, implemented.rest]
    rfl
  have grownLast := called.pool.trans given.pool
  have grown := declared.pool.trans grownLast
  have grownFromStart := implemented.pool.trans grown
  obtain ⟨kept, same, row, accessors, counted⟩ := exists_kept declared.legible called given
  rw [methods] at row counted
  exact {
    version := by rw [rest]
    flags := by rw [rest]
    thisClass := by rw [rest]
    superClass := by rw [rest]
    attributes := by rw [rest]
    pool := grownFromStart.slots_prefix
    interfaces := ⟨addedInterfaces, by rw [rest],
      implemented.interfaces.imp fun _ _ found => grown.className found⟩
    fields := ⟨addedFields, by rw [rest],
      declared.fields.imp fun _ _ added => added.extends grownLast⟩
    methods := ⟨kept, addedMethods, same, row, accessors, counted⟩
    inherited := by rw [rest]
    reporting := by rw [rest] }

/-- What the phases of a plan that is carried out come to, one after the other: each adds what it
has to and nothing else, and leaves a class in which what was asked for is there. -/
structure Accomplished (plan : Plan) (before implementing declaring calling : Enhancer)
    (count : Nat) (after : Enhancer) : Prop where
  interfaces : ∃ added, Enhancer.InterfacesAdded plan.interfaces
    (before.inheriting plan.inheritedFields) implementing added
  hasInterfaces : ∀ name ∈ plan.interfaces, Enhancer.HasInterface implementing name
  fields : ∃ added, Enhancer.FieldsAdded plan.addedFields implementing declaring added
  hasFields : ∀ field ∈ plan.addedFields, Enhancer.HasField declaring field
  accessors : ∃ added, AccessorsAdded plan.managedFields declaring calling added
  hasAccessors : ∀ managed ∈ plan.managedFields, declares declaring.file managed = true →
    HasAccessors calling managed
  given : GivenUp plan calling count after
  free : ∃ methods, Enhancer.methodsWithBody calling.file = .ok methods ∧
    ∀ method ∈ plan.concerned methods, ∀ managed ∈ plan.managedFields,
      FreeOf managed method.name method.type.descriptor after

theorem Phases.accomplished {implementing declaring calling : Enhancer}
    (phases : Phases plan before implementing declaring calling count after)
    (legible : before.file.Legible) :
    Accomplished plan before implementing declaring calling count after := by
  have legibleFirst : (before.inheriting plan.inheritedFields).file.Legible := legible
  obtain ⟨hasInterfaces, addedInterfaces, implemented⟩ :=
    Enhancer.exists_interfacesAdded legibleFirst phases.interfaces
  obtain ⟨hasFields, addedFields, declared⟩ :=
    Enhancer.exists_fieldsAdded implemented.legible phases.fields
  obtain ⟨hasAccessors, addedMethods, called⟩ :=
    exists_accessorsAdded declared.legible phases.accessors
  obtain ⟨methods, found, redirected⟩ := phases.uses
  obtain ⟨free, given⟩ := givenUp_of_redirectAll called.legible
    (fun method member => (mem_concerned_iff.mp member).2) redirected
  exact ⟨⟨_, implemented⟩, hasInterfaces, ⟨_, declared⟩, hasFields, ⟨_, called⟩, hasAccessors,
    given, methods, found, free⟩

/-- What taking the steps of a plan comes to. -/
theorem carriedOut_of_applySteps (legible : before.file.Legible)
    (ran : Enhancer.applySteps plan before = (.ok count, after)) :
    CarriedOut plan before count after := by
  obtain ⟨implementing, declaring, calling, phases⟩ := applySteps_eq_ok_iff.mp ran
  have accomplished := phases.accomplished legible
  obtain ⟨addedInterfaces, implemented⟩ := accomplished.interfaces
  obtain ⟨addedFields, declared⟩ := accomplished.fields
  obtain ⟨addedMethods, called⟩ := accomplished.accessors
  exact carriedOut_of_phases implemented declared called accomplished.given

end plans

/-- What carrying out a plan on a class that was read comes to, whatever the class inherits and
whatever is reported. -/
theorem carriedOut_of_apply_of_read {bytes : Bytes} {file : ClassFile}
    (read : ClassFile.read bytes = .ok file) {reporting : Reporting}
    {inherited : List InheritedField} {plan : Plan} {count : Nat} {after : Enhancer}
    (ran : Enhancer.apply plan (.ofClass reporting inherited file) = (.ok count, after)) :
    CarriedOut plan (.ofClass reporting inherited file) count after := by
  have legible : (Enhancer.ofClass reporting inherited file).file.Legible :=
    (ClassFile.read_eq_ok_iff.mp read).1.legible
  exact carriedOut_of_applySteps legible (Enhancer.apply_eq_ok_iff.mp ran)

/-- A plan with something of everything for the class with a static field. -/
def planOfUses : Plan where
  interfaces := ["I", "I"]
  addedFields := [⟨"y", "J", ⟨1⟩⟩]
  managedFields := [⟨"x", none, ⟨some "g", none⟩⟩]
  inheritedFields := []

/-- Two of three uses are redirected. -/
theorem carriedOut_of_apply_of_read_planOfUses :
    ∃ file after, ClassFile.read fileOfUses = .ok file ∧
      Enhancer.apply planOfUses (.ofClass .silent [] file) = (.ok 2, after) ∧
      CarriedOut planOfUses (.ofClass .silent [] file) 2 after := by
  have counted : (ClassFile.read fileOfUses).map (fun file =>
      (Enhancer.apply planOfUses (.ofClass .silent [] file)).1) = .ok (.ok 2) := by
    decide +kernel
  cases read : ClassFile.read fileOfUses with
  | error error =>
    rw [read] at counted
    cases counted
  | ok file =>
    rw [read] at counted
    cases ran : Enhancer.apply planOfUses (.ofClass .silent [] file) with
    | mk result after =>
      simp only [Except.map, ran, Except.ok.injEq] at counted
      subst counted
      exact ⟨file, after, rfl, ran, carriedOut_of_apply_of_read read ran⟩

end JavaClass.Enhancement
