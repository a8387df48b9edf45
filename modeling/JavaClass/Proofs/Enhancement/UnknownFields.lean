/-
Fields that a plan manages but that nobody knows: the class does not declare them, the plan does not
add them, and they are not among those that are known to be inherited. A managed field is looked up
when its uses are sought in a method, and only then. So a plan with an unknown field is refused,
and the class is as it was, if there is a method with a body that the plan concerns; the refusal
names the first of the unknown fields, unless something else is in the way of the plan too.

Without such a method no managed field is looked up: the plan is carried out as soon as everything
is added, whether or not its fields are there.
-/

import JavaClass.Proofs.Enhancement.Completeness

namespace JavaClass

namespace Enhancement

/-! ### Which fields are known -/

/-- Whether a field of a name and a descriptor is one that is to be managed. -/
def ManagedField.means (managed : ManagedField) (name descriptor : String) : Bool :=
  name == managed.name && managed.descriptor.all fun wanted => descriptor == wanted

/-- Whether an inherited field is the one that is to be managed. -/
def ManagedField.meansInherited (managed : ManagedField) (inherited : InheritedField) : Bool :=
  managed.means inherited.field.name inherited.field.type.descriptor

/-- Whether a class declares a managed field or is known to inherit it. -/
def Enhancer.knows (enhancer : Enhancer) (managed : ManagedField) : Bool :=
  declares enhancer.file managed || enhancer.inherited.any managed.meansInherited

/-- Whether a plan adds a managed field or says that it is inherited. -/
def Plan.provides (plan : Plan) (managed : ManagedField) : Bool :=
  (plan.addedFields.any fun added => managed.means added.name added.descriptor) ||
    plan.inheritedFields.any managed.meansInherited

section known

variable {enhancer before after : Enhancer} {managed : ManagedField} {fields : List InheritedField}

theorem ManagedField.means_iff {name descriptor : String} :
    managed.means name descriptor = true ↔
      name = managed.name ∧ ∀ wanted ∈ managed.descriptor, descriptor = wanted := by
  unfold means
  rw [Bool.and_eq_true_iff, beq_iff_eq, Option.all_eq_true]
  simp only [beq_iff_eq, Option.mem_def]

/-- What a field that the class does not declare is resolved to. -/
theorem resolveField_of_none
    (absent : enhancer.file.field? managed.name managed.descriptor = none) :
    Enhancer.resolveField managed.name managed.descriptor enhancer =
      match enhancer.inherited.find? managed.meansInherited with
      | some found => .ok {
          owner := found.owner, name := managed.name, type := found.field.type
          isStatic := found.isStatic, ownerIsInterface := false }
      | none => .error (.fieldNotFound managed.name managed.descriptor) := by
  unfold Enhancer.resolveField
  rw [absent]
  rfl

theorem resolveField_of_not_knows (unknown : enhancer.knows managed = false) :
    Enhancer.resolveField managed.name managed.descriptor enhancer =
      .error (.fieldNotFound managed.name managed.descriptor) := by
  obtain ⟨undeclared, notInherited⟩ := Bool.or_eq_false_iff.mp unknown
  have absent : enhancer.inherited.find? managed.meansInherited = none := by
    rw [List.find?_eq_none]
    exact fun inherited member means =>
      Bool.eq_false_iff.mp notInherited (List.any_eq_true.mpr ⟨inherited, member, means⟩)
  have undeclared := Option.not_isSome_iff_eq_none.mp (Bool.eq_false_iff.mp undeclared)
  rw [resolveField_of_none undeclared, absent]

theorem knows_of_resolveField {field : ResolvedField}
    (resolved : Enhancer.resolveField managed.name managed.descriptor enhancer = .ok field) :
    enhancer.knows managed = true := by
  by_contra unknown
  rw [resolveField_of_not_knows (Bool.not_eq_true _ ▸ unknown)] at resolved
  cases resolved

/-- A field that is known is resolved to the same when more are known to be inherited. -/
theorem resolveField_inheriting (known : enhancer.knows managed = true) :
    Enhancer.resolveField managed.name managed.descriptor (enhancer.inheriting fields) =
      Enhancer.resolveField managed.name managed.descriptor enhancer := by
  cases found : enhancer.file.field? managed.name managed.descriptor with
  | some declared =>
    have foundThere :
        (enhancer.inheriting fields).file.field? managed.name managed.descriptor = some declared :=
      found
    unfold Enhancer.resolveField
    rw [found, foundThere]
    rfl
  | none =>
    have foundThere :
        (enhancer.inheriting fields).file.field? managed.name managed.descriptor = none := found
    rw [resolveField_of_none found, resolveField_of_none foundThere]
    unfold Enhancer.inheriting
    unfold Enhancer.knows declares at known
    rw [found] at known
    obtain ⟨first, isFirst⟩ := Option.isSome_iff_exists.mp
      (List.find?_isSome.mpr (List.any_eq_true.mp known))
    rw [List.find?_append, isFirst]
    rfl

theorem knows_inheriting_iff :
    (enhancer.inheriting fields).knows managed = true ↔
      enhancer.knows managed = true ∨ fields.any managed.meansInherited = true := by
  unfold Enhancer.knows Enhancer.inheriting
  rw [List.any_append, ← Bool.or_assoc, Bool.or_eq_true_iff]

theorem Enhancer.KeepsFields.knows_eq (keeps : before.KeepsFields after)
    (legible : ∀ field ∈ before.file.fields, field.Legible before.file.pool) :
    after.knows managed = before.knows managed := by
  unfold Enhancer.knows declares
  rw [keeps.field? legible, keeps.inherited]

theorem declares_iff {file : ClassFile} :
    declares file managed = true ↔
      ∃ field ∈ file.fields, field.isCalled file.pool managed.name managed.descriptor = true :=
  List.find?_isSome

/-- A field that is called what is meant is found when the managed field is looked for. -/
theorem isCalled_of_means {pool : Pool} {field : Field} {name descriptor : String}
    (called : field.isCalled pool name (some descriptor) = true)
    (means : managed.means name descriptor = true) :
    field.isCalled pool managed.name managed.descriptor = true := by
  obtain ⟨rfl, suits⟩ := ManagedField.means_iff.mp means
  obtain ⟨nameHolds, descriptorHolds⟩ := Bool.and_eq_true_iff.mp called
  refine Bool.and_eq_true_iff.mpr ⟨nameHolds, ?_⟩
  cases given : managed.descriptor with
  | none => rfl
  | some wanted =>
    rw [← suits wanted given]
    exact descriptorHolds

theorem means_of_isCalled {pool : Pool} {field : Field} {name descriptor : String}
    (named : pool.text field.name = .ok name)
    (described : pool.text field.descriptor = .ok descriptor)
    (called : field.isCalled pool managed.name managed.descriptor = true) :
    managed.means name descriptor = true := by
  obtain ⟨nameHolds, descriptorHolds⟩ := Bool.and_eq_true_iff.mp called
  refine ManagedField.means_iff.mpr
    ⟨Except.ok.inj (named.symm.trans (Pool.text_of_holdsText nameHolds)), fun wanted given => ?_⟩
  rw [Option.mem_def.mp given] at descriptorHolds
  exact Except.ok.inj (described.symm.trans (Pool.text_of_holdsText descriptorHolds))

/-- Once fields were added to a class, it knows what it knew and the fields that were added. -/
theorem knows_iff_of_fieldsAdded (legible : before.file.Legible) {wanted : List AddedField}
    {added : List Field} (row : Enhancer.FieldsAdded wanted before after added)
    (has : ∀ field ∈ wanted, Enhancer.HasField after field) :
    after.knows managed = true ↔
      before.knows managed = true ∨
        (wanted.any fun field => managed.means field.name field.descriptor) = true := by
  have fields : after.file.fields = before.file.fields ++ added := by
    rw [row.rest]
  have inherited : after.inherited = before.inherited := by
    rw [row.rest]
  have held (field : Field) (member : field ∈ before.file.fields) :
      field.isCalled after.file.pool managed.name managed.descriptor =
        field.isCalled before.file.pool managed.name managed.descriptor :=
    Member.isCalled_of_extends row.pool (legible.fields field member) _ _
  unfold Enhancer.knows
  rw [inherited, Bool.or_eq_true_iff, Bool.or_eq_true_iff, declares_iff, declares_iff, fields]
  constructor
  · rintro (⟨field, member, called⟩ | known)
    · obtain old | new := List.mem_append.mp member
      · exact .inl (.inl ⟨field, old, held field old ▸ called⟩)
      · obtain ⟨asked, isAsked, isAdded⟩ := exists_mem_of_forall₂_right row.fields new
        have means := means_of_isCalled isAdded.name isAdded.descriptor called
        exact .inr (List.any_eq_true.mpr ⟨asked, isAsked, means⟩)
    · exact .inl (.inr known)
  · rintro ((⟨field, member, called⟩ | known) | provided)
    · exact .inl ⟨field, List.mem_append_left _ member, (held field member).trans called⟩
    · exact .inr known
    · obtain ⟨asked, isAsked, means⟩ := List.any_eq_true.mp provided
      obtain ⟨-, field, member, called⟩ := has asked isAsked
      exact .inl ⟨field, fields ▸ member, isCalled_of_means called means⟩

end known

/-! ### Before uses are sought -/

/-- Whether a class has a method with a body that a plan concerns. -/
def Plan.HasConcern (plan : Plan) (file : ClassFile) : Prop :=
  ∃ method ∈ file.methods, (Method.body? method).isSome = true ∧ GivesUp plan file.pool method

/-- Whether a plan makes a class into another one by all that it adds, before any uses are
sought. -/
def Plan.Adds (plan : Plan) (before calling : Enhancer) : Prop :=
  ∃ implementing declaring,
    plan.interfaces.forM (fun name => discard (Enhancer.addInterface name))
      (before.inheriting plan.inheritedFields) = (.ok PUnit.unit, implementing) ∧
    plan.addedFields.forM
      (fun field => Enhancer.addField field.name field.descriptor field.flags) implementing =
        (.ok PUnit.unit, declaring) ∧
    plan.managedFields.forM Enhancer.addAccessorsIfDeclared declaring = (.ok PUnit.unit, calling)

/-- A class to which everything was added that a plan asks for. It has the methods it had, and
others that are named like accessors; it knows the fields it knew, and those that the plan
provides. -/
structure Prepared (plan : Plan) (before calling : Enhancer) : Prop where
  pool : before.file.pool.Extends calling.file.pool
  methods : ∀ method ∈ before.file.methods, method ∈ calling.file.methods
  added : ∀ method ∈ calling.file.methods, method ∈ before.file.methods ∨
    ∃ name, calling.file.pool.text method.name = .ok name ∧ plan.isAccessor name = true
  knows : ∀ managed, calling.knows managed = true ↔
    before.knows managed = true ∨ plan.provides managed = true
  legible : calling.file.Legible

section preparing

variable {plan : Plan} {before calling : Enhancer}

theorem Phases.adds {implementing declaring after : Enhancer} {count : Nat}
    (phases : Phases plan before implementing declaring calling count after) :
    plan.Adds before calling :=
  ⟨implementing, declaring, phases.interfaces, phases.fields, phases.accessors⟩

theorem prepared_of_adds (legible : before.file.Legible) (adds : plan.Adds before calling) :
    Prepared plan before calling := by
  obtain ⟨implementing, declaring, interfaces, fields, accessors⟩ := adds
  have legibleFirst : (before.inheriting plan.inheritedFields).file.Legible := legible
  obtain ⟨-, addedInterfaces, implemented⟩ :=
    Enhancer.exists_interfacesAdded legibleFirst interfaces
  obtain ⟨hasFields, addedFields, declared⟩ :=
    Enhancer.exists_fieldsAdded implemented.legible fields
  obtain ⟨-, addedMethods, called⟩ := exists_accessorsAdded declared.legible accessors
  have keepsFirst : (before.inheriting plan.inheritedFields).KeepsFields implementing := by
    rw [implemented.rest]
    exact ⟨implemented.pool, rfl, rfl, rfl, rfl⟩
  have methods : declaring.file.methods = before.file.methods := by
    rw [declared.rest, implemented.rest]
    rfl
  refine ⟨implemented.pool.trans (declared.pool.trans called.pool), fun method member => ?_,
    fun method member => ?_, fun managed => ?_, called.legible⟩
  · exact called.mem_of_mem (methods ▸ member)
  · rw [called.rest] at member
    refine (List.mem_append.mp member).imp (fun old => methods ▸ old) fun new => ?_
    obtain ⟨wanted, isWanted, field, found, -, -, accessor⟩ :=
      exists_mem_of_forall₂_right called.accessors new
    exact ⟨_, accessor.name, isAccessor_of_mem_declaredAccessors isWanted⟩
  · rw [called.keepsFields.knows_eq declared.legible.fields,
      knows_iff_of_fieldsAdded implemented.legible declared hasFields,
      keepsFirst.knows_eq legibleFirst.fields, knows_inheriting_iff]
    unfold Plan.provides
    rw [Bool.or_eq_true_iff, or_assoc]
    exact or_congr_right or_comm

/-- A method that is concerned before is listed as concerned when uses are about to be sought. -/
theorem Prepared.exists_concerned (prepared : Prepared plan before calling)
    (concern : plan.HasConcern before.file) {methods : List MethodKey}
    (listed : Enhancer.methodsWithBody calling.file = .ok methods) :
    ∃ method, method ∈ plan.concerned methods := by
  obtain ⟨method, member, hasBody, name, named, concerned⟩ := concern
  have inCalling : method ∈ calling.file.methods.filter fun method =>
      (Method.body? method).isSome :=
    List.mem_filter.mpr ⟨prepared.methods method member, hasBody⟩
  obtain ⟨key, isListed, isKey⟩ :=
    exists_mem_of_forall₂_right (methodsWithBody_eq_ok_iff.mp listed).flip inCalling
  obtain rfl : key.name = name := Except.ok.inj
    ((texts_of_isKeyOf isKey).1.symm.trans (prepared.pool.text named))
  exact ⟨key, mem_concerned_iff.mpr ⟨isListed, concerned⟩⟩

/-- Conversely, only methods that are concerned before are listed as concerned. -/
theorem Prepared.hasConcern (prepared : Prepared plan before calling)
    (legible : before.file.Legible) {methods : List MethodKey}
    (listed : Enhancer.methodsWithBody calling.file = .ok methods) {key : MethodKey}
    (isConcerned : key ∈ plan.concerned methods) : plan.HasConcern before.file := by
  obtain ⟨isListed, concerned⟩ := mem_concerned_iff.mp isConcerned
  obtain ⟨method, inCalling, isKey⟩ :=
    exists_mem_of_forall₂_right (methodsWithBody_eq_ok_iff.mp listed) isListed
  obtain ⟨member, hasBody⟩ := List.mem_filter.mp inCalling
  obtain ⟨named, -⟩ := texts_of_isKeyOf isKey
  obtain old | ⟨name, namedSo, isAccessor⟩ := prepared.added method member
  · refine ⟨method, old, hasBody, key.name, ?_, concerned⟩
    rw [← prepared.pool.text_eq (legible.methods method old).1]
    exact named
  · obtain rfl := Except.ok.inj (namedSo.symm.trans named)
    rw [concerned.2.2] at isAccessor
    cases isAccessor

/-- If a plan is carried out that concerns a method, the fields that it manages were found. -/
theorem exists_resolveField_of_applySteps (legible : before.file.Legible)
    (concern : plan.HasConcern before.file) {count : Nat} {after : Enhancer}
    (ran : Enhancer.applySteps plan before = (.ok count, after)) {managed : ManagedField}
    (inPlan : managed ∈ plan.managedFields) :
    (before.knows managed = true ∨ plan.provides managed = true) ∧
      ∃ field, Enhancer.resolveField managed.name managed.descriptor after = .ok field := by
  obtain ⟨implementing, declaring, calling, phases⟩ := applySteps_eq_ok_iff.mp ran
  have prepared := prepared_of_adds legible phases.adds
  have accomplished := phases.accomplished legible
  obtain ⟨methods, listed, free⟩ := accomplished.free
  obtain ⟨method, concerned⟩ := prepared.exists_concerned concern listed
  obtain ⟨field, _, _, _, _, examined, -⟩ := free method concerned managed inPlan
  refine ⟨(prepared.knows managed).mp ?_, field, examined.resolved⟩
  rw [← accomplished.given.keepsFields.knows_eq prepared.legible.fields]
  exact knows_of_resolveField examined.resolved

/-- A plan that concerns no method is carried out by what it adds, and no field that it manages is
looked for. -/
theorem apply_eq_ok_iff_of_not_hasConcern (legible : before.file.Legible)
    (none : ¬plan.HasConcern before.file) {count : Nat} {after : Enhancer} :
    Enhancer.apply plan before = (.ok count, after) ↔
      count = 0 ∧ plan.Adds before after ∧
        (∃ methods, Enhancer.methodsWithBody after.file = .ok methods) ∧
        (after.reporting ≠ .silent → ∃ name, after.file.name = .ok name) := by
  have unconcerned {calling : Enhancer} (adds : plan.Adds before calling)
      {methods : List MethodKey} (listed : Enhancer.methodsWithBody calling.file = .ok methods) :
      plan.concerned methods = [] :=
    List.eq_nil_iff_forall_not_mem.mpr fun _ isConcerned =>
      none ((prepared_of_adds legible adds).hasConcern legible listed isConcerned)
  rw [Enhancer.apply_eq_ok_iff, applySteps_eq_ok_iff]
  constructor
  · rintro ⟨_, _, calling, phases⟩
    obtain ⟨methods, listed, redirected⟩ := phases.uses
    rw [unconcerned phases.adds listed] at redirected
    obtain ⟨rfl, rfl⟩ := Stateful.pure_eq_ok_iff.mp redirected
    exact ⟨rfl, phases.adds, ⟨methods, listed⟩, phases.reports⟩
  · rintro ⟨rfl, adds, ⟨methods, listed⟩, reports⟩
    obtain ⟨implementing, declaring, interfaces, fields, accessors⟩ := adds
    refine ⟨implementing, declaring, after, interfaces, fields, accessors,
      ⟨methods, listed, ?_⟩, reports⟩
    rw [unconcerned ⟨implementing, declaring, interfaces, fields, accessors⟩ listed]
    rfl

end preparing

/-! ### When more is known to be inherited -/

/-- The plan with more fields that are said to be inherited. -/
def Plan.inheriting (fields : List InheritedField) (plan : Plan) : Plan :=
  { plan with inheritedFields := plan.inheritedFields ++ fields }

section widening

variable {α : Type} {fields : List InheritedField} {managed : ManagedField}

/-- Whether an operation does not look at the end of what a class is known to inherit. -/
abbrev Blind (fields : List InheritedField) (operation : Enhancing α) : Prop :=
  Stateful.Blind (Enhancer.inheriting fields) operation

theorem blind_ask {question : Enhancer → Except Error α}
    (same : ∀ enhancer, question (enhancer.inheriting fields) = question enhancer) :
    Blind fields (Enhancer.ask question) :=
  fun enhancer => Prod.ext (same enhancer) rfl

theorem blind_change (act : ClassFile → ClassFile) : Blind fields (Enhancer.change act) :=
  fun _ => rfl

theorem blind_addConstants (action : Interning α) : Blind fields (Enhancer.addConstants action) :=
  fun _ => rfl

theorem blind_atomically {mutation : Enhancing α} (blind : Blind fields mutation) :
    Blind fields (Enhancer.atomically mutation) := by
  intro enhancer
  have here := blind enhancer
  cases ran : mutation enhancer with
  | mk result after =>
    rw [ran] at here
    cases result with
    | ok value =>
      rw [Enhancer.atomically_eq_ok_iff.mpr ran, Enhancer.atomically_eq_ok_iff.mpr here]
    | error error =>
      rw [Enhancer.atomically_of_error ran, Enhancer.atomically_of_error here]
      rfl

theorem blind_editMethod (name descriptor : String) (edits : List CodeEdit) :
    Blind fields (Enhancer.editMethod name descriptor edits) := by
  intro enhancer
  unfold Enhancer.editMethod Enhancer.inheriting
  cases (enhancer.file.method? name descriptor).bind Method.body? with
  | none => rfl
  | some body => rfl

theorem blind_addInterface (name : String) : Blind fields (Enhancer.addInterface name) := by
  refine .bind (blind_ask fun _ => rfl) fun present => ?_
  split
  · exact .pure false
  · exact (blind_addConstants _).bind fun _ => (blind_change _).bind fun _ => .pure true

theorem blind_addField (field : AddedField) :
    Blind fields (Enhancer.addField field.name field.descriptor field.flags) := by
  refine .bind (blind_ask fun _ => rfl) fun _ => blind_atomically ?_
  exact (blind_addConstants _).bind fun _ => blind_change _

/-- Accessors are added for a field that the class declares, and that is found first. -/
theorem blind_addAccessors (managed : ManagedField) :
    Blind fields (Enhancer.addAccessors managed) := by
  refine .bind (blind_ask fun enhancer => ?_) fun found => blind_atomically ?_
  · cases declared : declares enhancer.file managed with
    | false =>
      have absent := Option.not_isSome_iff_eq_none.mp (Bool.eq_false_iff.mp declared)
      have absentThere :
          (enhancer.inheriting fields).file.field? managed.name managed.descriptor = none := absent
      rw [absent, absentThere]
    | true =>
      have known : enhancer.knows managed = true := by
        unfold Enhancer.knows
        rw [declared, Bool.true_or]
      rw [resolveField_inheriting known]
      rfl
  · exact (blind_addConstants _).bind fun _ => blind_change _

theorem blind_addAccessorsIfDeclared (managed : ManagedField) :
    Blind fields (Enhancer.addAccessorsIfDeclared managed) := by
  refine .bind (blind_ask fun _ => rfl) fun declared => ?_
  split
  · exact blind_addAccessors managed
  · exact .pure ()

theorem blind_interfaces (plan : Plan) :
    Blind fields (plan.interfaces.forM fun name => discard (Enhancer.addInterface name)) :=
  Stateful.Blind.forM (fun name => (blind_addInterface name).discard) plan.interfaces

theorem blind_addedFields (plan : Plan) :
    Blind fields (plan.addedFields.forM fun field =>
      Enhancer.addField field.name field.descriptor field.flags) :=
  Stateful.Blind.forM blind_addField plan.addedFields

theorem blind_accessors (plan : Plan) :
    Blind fields (plan.managedFields.forM Enhancer.addAccessorsIfDeclared) :=
  Stateful.Blind.forM blind_addAccessorsIfDeclared plan.managedFields

/-- Where a managed field is known, its uses are redirected as they are when more is known. -/
theorem redirectFieldUses_inheriting {enhancer : Enhancer} (known : enhancer.knows managed = true)
    (name descriptor : String) :
    Enhancer.redirectFieldUses name descriptor managed (enhancer.inheriting fields) =
      ((Enhancer.redirectFieldUses name descriptor managed enhancer).1,
        (Enhancer.redirectFieldUses name descriptor managed enhancer).2.inheriting fields) := by
  refine Stateful.Blind.bind_apply (Prod.ext ?_ rfl) fun found => ?_
  · unfold Enhancer.ask Enhancer.redirections
    rw [resolveField_inheriting known]
    rfl
  · obtain ⟨field, redirections⟩ := found
    simp only
    split
    · exact .pure 0
    · refine blind_atomically ((blind_addConstants _).bind fun edits => ?_)
      exact (blind_editMethod _ _ _).bind fun _ => .pure _

theorem redirectFieldUses_of_not_knows {enhancer : Enhancer}
    (unknown : enhancer.knows managed = false) (name descriptor : String) :
    Enhancer.redirectFieldUses name descriptor managed enhancer =
      (.error (.fieldNotFound managed.name managed.descriptor), enhancer) := by
  refine Stateful.bind_of_error (Enhancer.ask_eq_error_iff.mpr ⟨?_, rfl⟩)
  unfold Enhancer.redirections
  rw [resolveField_of_not_knows unknown]
  rfl

end widening

/-! ### The first field that is not known -/

/-- The first of the fields a plan manages that is not known before and that the plan does not
provide. -/
def Plan.firstUnknown? (plan : Plan) (before : Enhancer) : Option ManagedField :=
  plan.managedFields.find? fun managed => !(before.knows managed || plan.provides managed)

/-- Redirecting the uses of one more field in a method, and counting on. -/
def redirectNext (method : MethodKey) (count : Nat) (managed : ManagedField) : Enhancing Nat := do
  return count + (← Enhancer.redirectFieldUses method.name method.type.descriptor managed)

section first

variable {plan : Plan} {before : Enhancer} {missing : ManagedField} {more : List InheritedField}

theorem redirectNext_inheriting {enhancer : Enhancer} {managed : ManagedField}
    (known : enhancer.knows managed = true) (method : MethodKey) (count : Nat) :
    redirectNext method count managed (enhancer.inheriting more) =
      ((redirectNext method count managed enhancer).1,
        (redirectNext method count managed enhancer).2.inheriting more) :=
  Stateful.Blind.bind_apply (redirectFieldUses_inheriting known _ _) fun _ => .pure _

/-- Where all goes well when more is known, what stops it is the first field that is not known: up
to there it went the same way. -/
theorem exists_redirectNext_eq_error {method : MethodKey} (concerned : plan.Concerns method.name)
    {known rest : List ManagedField} (inPlan : ∀ managed ∈ known, managed ∈ plan.managedFields)
    {enhancer wide : Enhancer} (legible : enhancer.file.Legible)
    (knows : ∀ managed ∈ known, enhancer.knows managed = true)
    (unknown : enhancer.knows missing = false) {found total : Nat}
    (ran : (known ++ missing :: rest).foldlM (redirectNext method) found
      (enhancer.inheriting more) = (.ok total, wide)) :
    ∃ last, (known ++ missing :: rest).foldlM (redirectNext method) found enhancer =
      (.error (.fieldNotFound missing.name missing.descriptor), last) := by
  induction known generalizing found enhancer with
  | nil =>
    refine ⟨enhancer, Stateful.bind_of_error (Stateful.bind_of_error ?_)⟩
    exact redirectFieldUses_of_not_knows unknown _ _
  | cons managed later inductionHypothesis =>
    obtain ⟨inPlanHere, inPlanLater⟩ := List.forall_mem_cons.mp inPlan
    obtain ⟨knowsHere, knowsLater⟩ := List.forall_mem_cons.mp knows
    rw [List.cons_append, List.foldlM_cons] at ran ⊢
    obtain ⟨next, middleWide, here, others⟩ := Stateful.bind_eq_ok_iff.mp ran
    obtain ⟨middle, hereToo, rfl⟩ :=
      Stateful.Blind.exists_of_apply (redirectNext_inheriting knowsHere method found) here
    obtain ⟨count, last, redirected, done⟩ := Stateful.bind_eq_ok_iff.mp hereToo
    obtain ⟨-, rfl⟩ := Stateful.pure_eq_ok_iff.mp done
    have given := givenUp_of_redirectFieldUses legible inPlanHere concerned redirected
    have same (field : ManagedField) : last.knows field = enhancer.knows field :=
      given.keepsFields.knows_eq legible.fields
    obtain ⟨stopped, failed⟩ := inductionHypothesis inPlanLater given.legible
      (fun field member => (same field).trans (knowsLater field member))
      ((same missing).trans unknown) others
    exact ⟨stopped, (Stateful.bind_of_ok hereToo).trans failed⟩

/-- What a plan adds to a class it adds without regard to what else is inherited. -/
theorem Plan.Adds.exists_of_inheriting {callingWide : Enhancer}
    (adds : (plan.inheriting more).Adds before callingWide) :
    ∃ calling, plan.Adds before calling ∧ callingWide = calling.inheriting more := by
  obtain ⟨implementingWide, declaringWide, interfacesWide, fieldsWide, accessorsWide⟩ := adds
  have start : before.inheriting (plan.inheriting more).inheritedFields =
      (before.inheriting plan.inheritedFields).inheriting more := by
    unfold Plan.inheriting Enhancer.inheriting
    rw [List.append_assoc]
  rw [start] at interfacesWide
  obtain ⟨implementing, interfaces, rfl⟩ := (blind_interfaces plan).exists_of_eq interfacesWide
  obtain ⟨declaring, fields, rfl⟩ := (blind_addedFields plan).exists_of_eq fieldsWide
  obtain ⟨calling, accessors, rfl⟩ := (blind_accessors plan).exists_of_eq accessorsWide
  exact ⟨calling, ⟨implementing, declaring, interfaces, fields, accessors⟩, rfl⟩

/-- A plan that fails when uses are redirected. -/
theorem applySteps_of_redirectAll_error {calling last : Enhancer}
    (adds : plan.Adds before calling) {methods : List MethodKey}
    (listed : Enhancer.methodsWithBody calling.file = .ok methods) {error : Error}
    (failed : Enhancer.redirectAll plan.managedFields (plan.concerned methods) calling =
      (.error error, last)) :
    Enhancer.applySteps plan before = (.error error, last) := by
  obtain ⟨implementing, declaring, interfaces, fields, accessors⟩ := adds
  refine Stateful.bind_eq_error_iff.mpr
    (.inr ⟨(), before.inheriting plan.inheritedFields, rfl, ?_⟩)
  refine Stateful.bind_eq_error_iff.mpr (.inr ⟨(), implementing, interfaces, ?_⟩)
  refine Stateful.bind_eq_error_iff.mpr (.inr ⟨(), declaring, fields, ?_⟩)
  refine Stateful.bind_eq_error_iff.mpr (.inr ⟨(), calling, accessors, ?_⟩)
  refine Stateful.bind_eq_error_iff.mpr
    (.inr ⟨methods, calling, Enhancer.ask_eq_ok_iff.mpr ⟨listed, rfl⟩, ?_⟩)
  exact Stateful.bind_of_error failed

/-- A plan that would be carried out if more were known, but that manages a field that is not. -/
theorem apply_eq_fieldNotFound (legible : before.file.Legible)
    (concern : plan.HasConcern before.file) (first : plan.firstUnknown? before = some missing)
    {count : Nat} {wide : Enhancer}
    (ran : Enhancer.apply (plan.inheriting more) before = (.ok count, wide)) :
    Enhancer.apply plan before =
      (.error (.fieldNotFound missing.name missing.descriptor), before) := by
  obtain ⟨_, _, _, phases⟩ := applySteps_eq_ok_iff.mp (Enhancer.apply_eq_ok_iff.mp ran)
  obtain ⟨calling, adds, rfl⟩ := phases.adds.exists_of_inheriting
  have prepared := prepared_of_adds legible adds
  obtain ⟨methods, listed, redirected⟩ := phases.uses
  -- The first method that is concerned is where the field is missed.
  obtain ⟨_, isConcerned⟩ := prepared.exists_concerned concern listed
  obtain ⟨method, others, split⟩ := List.exists_cons_of_ne_nil (List.ne_nil_of_mem isConcerned)
  have concerned : plan.Concerns method.name :=
    (mem_concerned_iff.mp (split ▸ List.mem_cons_self)).2
  have redirectedFirst : Enhancer.redirectAll plan.managedFields (method :: others)
      (calling.inheriting more) = (.ok count, wide) := split ▸ redirected
  obtain ⟨_, _, here, -⟩ := Stateful.bind_eq_ok_iff.mp redirectedFirst
  obtain ⟨isUnknown, known, rest, managed, allKnown⟩ := List.find?_eq_some_iff_append.mp first
  have knows (field : ManagedField) :
      calling.knows field = (before.knows field || plan.provides field) := by
    rw [Bool.eq_iff_iff, Bool.or_eq_true_iff]
    exact prepared.knows field
  obtain ⟨last, failed⟩ := exists_redirectNext_eq_error concerned
    (fun field member => managed ▸ List.mem_append_left _ member) prepared.legible
    (fun field member => (knows field).trans (by simpa using allKnown field member))
    ((knows missing).trans (by simpa using isUnknown)) (managed ▸ here)
  have stopped : Enhancer.redirectAll plan.managedFields (plan.concerned methods) calling =
      (.error (.fieldNotFound missing.name missing.descriptor), last) := by
    rw [split]
    exact Stateful.bind_of_error (managed ▸ failed)
  exact Enhancer.apply_of_error (applySteps_of_redirectAll_error adds listed stopped)

end first

/-! ### Plans with unknown fields -/

/-- What a plan makes of the fields that it manages. If it is carried out, all of them were known or
provided, and are found in the class that it leaves. If one is neither, the plan is refused and the
class is as it was; the first that is not is named, if the plan would be carried out as soon as more
were known to be inherited. -/
structure MindsFields (plan : Plan) (before : Enhancer) : Prop where
  found : ∀ {count after}, Enhancer.apply plan before = (.ok count, after) →
    after.inherited = before.inherited ++ plan.inheritedFields ∧
      ∀ managed ∈ plan.managedFields,
        (before.knows managed = true ∨ plan.provides managed = true) ∧
          ∃ field, Enhancer.resolveField managed.name managed.descriptor after = .ok field
  refused : ∀ {missing}, plan.firstUnknown? before = some missing →
    ∃ error, Enhancer.apply plan before = (.error error, before) ∧
      ∀ {more count wide}, Enhancer.apply (plan.inheriting more) before = (.ok count, wide) →
        error = .fieldNotFound missing.name missing.descriptor

theorem mindsFields_of_legible {plan : Plan} {before : Enhancer} (legible : before.file.Legible)
    (concern : plan.HasConcern before.file) : MindsFields plan before where
  found ran := by
    have steps := Enhancer.apply_eq_ok_iff.mp ran
    exact ⟨(carriedOut_of_applySteps legible steps).inherited, fun managed inPlan =>
      exists_resolveField_of_applySteps legible concern steps inPlan⟩
  refused {missing} first := by
    have isUnknown := List.find?_some first
    have inPlan := List.mem_of_find?_eq_some first
    cases ran : Enhancer.applySteps plan before with
    | mk result after =>
      cases result with
      | ok count =>
        have known := (exists_resolveField_of_applySteps legible concern ran inPlan).1
        rw [← Bool.or_eq_true_iff] at known
        rw [known] at isUnknown
        cases isUnknown
      | error error =>
        refine ⟨error, Enhancer.apply_of_error ran, fun wide => ?_⟩
        have named := apply_eq_fieldNotFound legible concern first wide
        rw [Enhancer.apply_of_error ran] at named
        exact Except.error.inj (Prod.mk.inj named).1

/-- A plan that concerns a method with a body, for a class that was read, does not leave a field
that it manages unnoticed if nobody knows it. -/
theorem mindsFields_of_read {bytes : Bytes} {file : ClassFile}
    (read : ClassFile.read bytes = .ok file) {plan : Plan} (concern : plan.HasConcern file)
    (reporting : Reporting) (inherited : List InheritedField) :
    MindsFields plan (.ofClass reporting inherited file) := by
  have legible : (Enhancer.ofClass reporting inherited file).file.Legible :=
    (ClassFile.read_eq_ok_iff.mp read).1.legible
  exact mindsFields_of_legible legible concern

/-- A plan with something of everything for the class with a static field, and with a field that
the class would have to inherit. -/
def planOfUnknown : Plan where
  interfaces := ["I"]
  addedFields := [⟨"y", "J", ⟨1⟩⟩]
  managedFields := [⟨"x", none, ⟨some "g", none⟩⟩, ⟨"missing", none, .conventional "missing"⟩]
  inheritedFields := []

/-- The field that nobody knows, as a class could inherit it. -/
def missingInherited : InheritedField := ⟨"S", ⟨"missing", .base .int⟩, false⟩

/-- The plan would be carried out if the field were known to be inherited, and it is not. -/
theorem mindsFields_of_read_planOfUnknown :
    ∃ file, ClassFile.read fileOfUses = .ok file ∧ planOfUnknown.HasConcern file ∧
      (planOfUnknown.firstUnknown? (.ofClass .silent [] file)).map ManagedField.name =
        some "missing" ∧
      Enhancer.apply planOfUnknown (.ofClass .silent [] file) =
        (.error (.fieldNotFound "missing" none), .ofClass .silent [] file) := by
  have computed : (ClassFile.read fileOfUses).map (fun file =>
      let start := Enhancer.ofClass .silent [] file
      decide ((∃ method ∈ file.methods, (Method.body? method).isSome = true ∧
          file.pool.holdsText method.name "m" = true) ∧
        planOfUnknown.firstUnknown? start =
          some ⟨"missing", none, .conventional "missing"⟩ ∧
        (Enhancer.apply (planOfUnknown.inheriting [missingInherited]) start).1 = .ok 2)) =
      .ok true := by
    decide +kernel
  obtain ⟨file, read, answers⟩ := Outcome.map_eq_ok_iff.mp computed
  obtain ⟨⟨method, member, hasBody, named⟩, first, succeeded⟩ := of_decide_eq_true answers
  have concern : planOfUnknown.HasConcern file :=
    ⟨method, member, hasBody, "m", Pool.text_of_holdsText named, by decide, by decide,
      by decide +kernel⟩
  have wide : Enhancer.apply (planOfUnknown.inheriting [missingInherited])
      (.ofClass .silent [] file) = (.ok 2, _) := Prod.ext succeeded rfl
  obtain ⟨error, failed, named⟩ := (mindsFields_of_read read concern .silent []).refused first
  refine ⟨file, read, concern, by rw [first]; rfl, ?_⟩
  rw [failed, named wide]

/-- A class without members. -/
def fileWithoutMembers : Bytes :=
  [0xCA, 0xFE, 0xBA, 0xBE, 0, 0, 0, 52,
    0, 5, 1, 0, 1, 65, 7, 0, 1,
    1, 0, 16, 106, 97, 118, 97, 47, 108, 97, 110, 103, 47, 79, 98, 106, 101, 99, 116, 7, 0, 3,
    0, 33, 0, 2, 0, 4, 0, 0, 0, 0, 0, 0, 0, 0]

/-- A plan for nothing but a field that nobody knows. -/
def planOfMissing : Plan where
  interfaces := []
  addedFields := []
  managedFields := [⟨"missing", none, .conventional "missing"⟩]
  inheritedFields := []

/-- A plan is carried out on a class without methods although the field that it manages is not
found in the class that it leaves. -/
theorem exists_not_found_of_apply :
    ∃ file after, ClassFile.read fileWithoutMembers = .ok file ∧
      Enhancer.apply planOfMissing (.ofClass .silent [] file) = (.ok 0, after) ∧
      ∃ managed ∈ planOfMissing.managedFields,
        Enhancer.resolveField managed.name managed.descriptor after =
          .error (.fieldNotFound managed.name managed.descriptor) := by
  have computed : (ClassFile.read fileWithoutMembers).map (fun file =>
      let ran := Enhancer.apply planOfMissing (.ofClass .silent [] file)
      decide (ran.1 = .ok 0 ∧
        Enhancer.resolveField "missing" none ran.2 = .error (.fieldNotFound "missing" none))) =
      .ok true := by
    decide +kernel
  obtain ⟨file, read, answers⟩ := Outcome.map_eq_ok_iff.mp computed
  obtain ⟨succeeded, notFound⟩ := of_decide_eq_true answers
  exact ⟨file, _, read, Prod.ext succeeded rfl, _, List.mem_singleton_self _, notFound⟩

end Enhancement

end JavaClass
