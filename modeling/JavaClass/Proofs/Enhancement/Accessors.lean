/-
Accessors. The body of an accessor loads what it is given, uses the field once and returns; it is
written down here as a whole, with the stack and the local variables it needs. The accessors of a
field are added behind the methods there are, those that read first, and nothing else of the class
changes but the pool, which grows.
-/

import JavaClass.Proofs.Enhancement.Members

namespace JavaClass

theorem Flags.has_union {holder : FlagHolder} {flags other wanted : Flags holder}
    (has : flags.has wanted = true ∨ other.has wanted = true) :
    (flags.union other).has wanted = true := by
  simp only [Flags.has, Flags.union, beq_iff_eq, ← UInt16.toBitVec_inj, UInt16.toBitVec_and,
    UInt16.toBitVec_or] at has ⊢
  ext place inside
  have bit (bits : BitVec 16) (same : bits &&& wanted.bits.toBitVec = wanted.bits.toBitVec) :
      (bits[place] && wanted.bits.toBitVec[place]) = wanted.bits.toBitVec[place] := by
    rw [← BitVec.getElem_and, same]
  rw [BitVec.getElem_and, BitVec.getElem_or, Bool.and_or_distrib_right]
  obtain first | second := has
  · rw [bit _ first]
    exact Bool.or_eq_left_iff_imp.mpr fun both => (Bool.and_eq_true_iff.mp both).2
  · rw [bit _ second]
    exact Bool.or_eq_right_iff_imp.mpr fun both => (Bool.and_eq_true_iff.mp both).2

theorem ClassFile.Legible.withMethods {file : ClassFile} (legible : file.Legible) {pool : Pool}
    (grown : file.pool.Extends pool) {methods : List Method}
    (added : ∀ method ∈ methods, method.Legible pool ∧
      ∀ body, Method.body? method = some body → body.FramesFit) :
    { file with pool, methods := file.methods ++ methods }.Legible where
  pool := grown.assembled legible.pool
  fields := fun field member => (legible.fields field member).extends grown
  methods := List.forall_mem_append.mpr
    ⟨fun method member => (legible.methods method member).extends grown,
      fun method member => (added method member).1⟩
  bodies := List.forall_mem_append.mpr
    ⟨legible.bodies, fun method member => (added method member).2⟩

namespace Enhancement

variable (field : ResolvedField)

/-! ### The body of an accessor -/

/-- The use of its field that the accessor for a direction makes. -/
def ResolvedField.accessorUse (direction : Direction) : FieldUse := ⟨direction, field.isStatic⟩

/-- The code that loads what an accessor is given: the instance, if the field belongs to one, and
the value to be written, which is behind it. -/
def ResolvedField.loads : Direction → Bytes
  | .read => if field.isStatic then [] else [Opcode.aload0]
  | .write =>
    if field.isStatic then [Builder.loadOpcode field.type 0]
    else [Opcode.aload0, Builder.loadOpcode field.type 1]

/-- The body of an accessor that uses the field through the constant at an index. What it is given
is what the use takes from the stack. -/
def ResolvedField.accessorBody (direction : Direction) (index : UInt16) : Body :=
  let use := field.accessorUse direction
  .ofCode (UInt16.ofNat (max (use.pops field.type) (use.pushes field.type)))
    (UInt16.ofNat (use.pops field.type))
    (field.loads direction ++ use.opcode :: BigEndian.word16 index ++
      Builder.returnCode (field.accessorType direction).returns)

/-- The steps by which an accessor loads what it is given. -/
def loadSteps : Direction → List CodeStep
  | .read => if field.isStatic then [] else [.load (.object field.owner) 0]
  | .write => [.loadParameters true field.setterType]

theorem accessorSteps_eq (direction : Direction) :
    Enhancer.accessorSteps field direction = loadSteps field direction ++
      [.field (field.accessorUse direction) field.owner field.name field.type,
        .returnValue (field.accessorType direction).returns] := by
  cases direction with
  | read => rfl
  | write => rfl

theorem parameterSlots_accessorType (direction : Direction) :
    (field.accessorType direction).parameterSlots =
      (field.accessorUse direction).pops field.type := by
  obtain ⟨owner, name, type, isStatic, ownerIsInterface⟩ := field
  cases direction with
  | read =>
    cases isStatic with
    | true => rfl
    | false => rfl
  | write =>
    cases isStatic with
    | true => rfl
    | false => rfl

/-- What an accessor is given is loaded, and nothing else is on the stack then. -/
theorem runAll_loadSteps (direction : Direction) (pool : Pool) {given : Nat}
    (same : given = (field.accessorUse direction).pops field.type) :
    CodeStep.runAll (loadSteps field direction) (Builder.loading pool [] 0 given) =
      (.ok (), Builder.loading pool (field.loads direction) given given) := by
  obtain ⟨owner, name, type, isStatic, ownerIsInterface⟩ := field
  have few := type.slots_le
  subst same
  cases direction with
  | read =>
    cases isStatic with
    | true => rfl
    | false => rfl
  | write =>
    have room : 1 + type.slots ≤ Builder.countLimit := by
      unfold Builder.countLimit
      omega
    refine Stateful.forM_cons_eq_ok_iff.mpr ⟨_, ?_, rfl⟩
    cases isStatic with
    | true =>
      have value := Builder.load_loading pool [] type 0 (by decide) (Nat.le_refl _)
        (Nat.le_trans (Nat.add_le_add_right (Nat.zero_le 1) _) room)
      show (Builder.load type 0 >>= fun _ => pure ()) _ = _
      exact (Stateful.bind_of_ok value).trans rfl
    | false =>
      have receiver := Builder.load_loading pool [] (.object owner) 0 (by decide)
        (Nat.le_add_right _ _) room
      have value := Builder.load_loading pool [Opcode.aload0] type 1 (by decide)
        (Nat.le_refl _) room
      show (Builder.load (.object owner) 0 >>= fun _ => Builder.load type 1 >>= fun _ => pure ())
        _ = _
      exact (Stateful.bind_of_ok receiver).trans ((Stateful.bind_of_ok value).trans rfl)

/-- What making the body of an accessor comes to. -/
theorem exists_of_runAll_accessorSteps {field : ResolvedField} {direction : Direction} {pool : Pool}
    {built : Builder} {nothing : PUnit}
    (ran : CodeStep.runAll (Enhancer.accessorSteps field direction)
      (.startMethod pool true (field.accessorType direction)) = (.ok nothing, built)) :
    ∃ index, Pool.internField field.owner field.name field.type.descriptor pool =
        (.ok index, built.pool) ∧ built.build = field.accessorBody direction index := by
  have slots := parameterSlots_accessorType field direction
  have few := (field.accessorUse direction).pops_le field.type
  have countable : (field.accessorType direction).parameterSlots ≤ Builder.countLimit := by
    rw [slots, Builder.countLimit]
    omega
  rw [accessorSteps_eq, CodeStep.runAll, Builder.startMethod_eq_loading pool countable, slots]
    at ran
  obtain ⟨loaded, loads, ran⟩ := Stateful.forM_append_eq_ok_iff.mp ran
  obtain ⟨-, rfl⟩ := Prod.mk.inj ((runAll_loadSteps field direction pool rfl).symm.trans loads)
  obtain ⟨used, use, ran⟩ := Stateful.forM_cons_eq_ok_iff.mp ran
  obtain ⟨returned, done, last⟩ := Stateful.forM_cons_eq_ok_iff.mp ran
  obtain ⟨-, rfl⟩ := Stateful.pure_eq_ok_iff.mp last
  obtain ⟨index, after, interned, rfl⟩ := Builder.exists_of_useField use
  rw [Builder.returnValue_apply] at done
  obtain ⟨-, rfl⟩ := Prod.mk.inj done
  exact ⟨index, interned, Builder.build_withCode_loading few (FieldUse.pushes_le _ _) after _ _ _ _⟩

/-! ### The method -/

/-- A method that is an accessor of a field: of the given flags, named and typed as an accessor is,
with nothing but a body that uses the field. -/
structure IsAccessor (pool : Pool) (field : ResolvedField) (flags : MethodFlags)
    (wanted : Direction × String) (method : Method) : Prop where
  flags : method.flags = flags
  name : pool.text method.name = .ok wanted.2
  descriptor : pool.text method.descriptor = .ok (field.accessorType wanted.1).descriptor
  attributes : ∃ codeName index, pool.text codeName = .ok "Code" ∧
    pool.memberReference index = .ok ⟨field.owner, field.name, field.type.descriptor⟩ ∧
    (∃ owner nameAndType, pool.get index = .ok (.field owner nameAndType)) ∧
    method.attributes = [⟨codeName, .code (field.accessorBody wanted.1 index)⟩]

theorem IsAccessor.extends {before after : Pool} (grown : before.Extends after)
    {field : ResolvedField} {flags : MethodFlags} {wanted : Direction × String} {method : Method}
    (made : IsAccessor before field flags wanted method) :
    IsAccessor after field flags wanted method := by
  obtain ⟨codeName, index, code, reference, ⟨owner, nameAndType, got⟩, attributes⟩ :=
    made.attributes
  exact { made with
    name := grown.text made.name
    descriptor := grown.text made.descriptor
    attributes := ⟨codeName, index, grown.text code, grown.memberReference reference,
      ⟨owner, nameAndType, grown.get got⟩, attributes⟩ }

/-- What making a method of steps comes to. -/
theorem exists_of_buildMethod {pool after : Pool} (assembled : pool.Assembled) {name : String}
    {type : MethodType} {flags : MethodFlags} {steps : List CodeStep} {method : Method}
    (made : Enhancer.buildMethod name type flags steps pool = (.ok method, after)) :
    ∃ builder codeName, CodeStep.runAll steps
        (.startMethod pool (flags.has MethodFlags.accStatic) type) = (.ok (), builder) ∧
      builder.pool.Extends after ∧ method.isCalled after name (some type.descriptor) = true ∧
      method.flags = flags ∧ after.text codeName = .ok "Code" ∧
      method.attributes = [⟨codeName, .code builder.build⟩] := by
  unfold Enhancer.buildMethod at made
  simp only at made
  split at made
  · cases made
  · rename_i builder ran
    have built := ((CodeStep.always_runAll steps).relates ran).grown
    have assembled := built.assembled assembled
    obtain ⟨nameIndex, named, nameInterned, made⟩ := Stateful.bind_eq_ok_iff.mp made
    obtain ⟨descriptorIndex, typed, descriptorInterned, made⟩ := Stateful.bind_eq_ok_iff.mp made
    obtain ⟨code, last, codeMade, done⟩ := Stateful.bind_eq_ok_iff.mp made
    obtain ⟨rfl, rfl⟩ := Stateful.pure_eq_ok_iff.mp done
    obtain ⟨codeName, coded, codeInterned, done⟩ := Stateful.bind_eq_ok_iff.mp codeMade
    obtain ⟨rfl, rfl⟩ := Stateful.pure_eq_ok_iff.mp done
    let made : Method :=
      ⟨flags, nameIndex, descriptorIndex, [⟨codeName, .code builder.build⟩]⟩
    obtain ⟨first, called⟩ := Member.isCalled_of_internText made assembled nameInterned
      descriptorInterned
    have second := (Pool.always_internText "Code").relates codeInterned
    exact ⟨builder, codeName, ran, first.trans second, Member.isCalled_extends second called, rfl,
      Pool.text_of_internText (first.assembled assembled) codeInterned, rfl⟩

theorem isAccessor_of_buildMethod {pool after : Pool} (assembled : pool.Assembled)
    {field : ResolvedField} {flags : MethodFlags} (static : flags.has MethodFlags.accStatic = true)
    {wanted : Direction × String} {method : Method}
    (made : Enhancer.buildMethod wanted.2 (field.accessorType wanted.1) flags
      (Enhancer.accessorSteps field wanted.1) pool = (.ok method, after)) :
    method.isCalled after wanted.2 (some (field.accessorType wanted.1).descriptor) = true ∧
      IsAccessor after field flags wanted method := by
  obtain ⟨builder, codeName, ran, grown, called, sameFlags, code, attributes⟩ :=
    exists_of_buildMethod assembled made
  rw [static] at ran
  obtain ⟨index, interned, body⟩ := exists_of_runAll_accessorSteps ran
  obtain ⟨reference, owner, nameAndType, got⟩ :=
    Pool.memberReference_of_internMember assembled (.inl rfl) interned
  rw [body] at attributes
  obtain ⟨name, descriptor⟩ := Member.texts_of_isCalled called
  exact ⟨called, sameFlags, name, descriptor, codeName, index, code,
    grown.memberReference reference, ⟨owner, nameAndType, grown.get got⟩, attributes⟩

/-- The body of an accessor has no frames. -/
theorem IsAccessor.framesFit {pool : Pool} {field : ResolvedField} {flags : MethodFlags}
    {wanted : Direction × String} {method : Method}
    (made : IsAccessor pool field flags wanted method) {body : Body}
    (found : Method.body? method = some body) : body.FramesFit := by
  obtain ⟨codeName, index, -, -, -, attributes⟩ := made.attributes
  rw [Method.body?, attributes] at found
  obtain rfl := Option.some.inj found
  exact List.forall_mem_nil _

/-- Accessors that are made one after another. -/
theorem forall₂_isAccessor {pool after : Pool} (assembled : pool.Assembled)
    {field : ResolvedField} {flags : MethodFlags} (static : flags.has MethodFlags.accStatic = true)
    {wanted : List (Direction × String)} {methods : List Method}
    (made : (wanted.mapM fun (direction, name) => Enhancer.buildMethod name
      (field.accessorType direction) flags (Enhancer.accessorSteps field direction) :
        Interning (List Method)) pool = (.ok methods, after)) :
    pool.Extends after ∧ List.Forall₂ (fun wanted method =>
      method.isCalled after wanted.2 (some (field.accessorType wanted.1).descriptor) = true ∧
        IsAccessor after field flags wanted method) wanted methods := by
  have always (wanted : Direction × String) :=
    (Enhancer.always_buildAccessor field wanted.1 wanted.2 flags).mono Pool.Linked.grown
  refine ⟨(Stateful.Always.mapM always wanted).relates made, ?_⟩
  exact Pool.forall₂_of_mapM
    (fun pool wanted method =>
      method.isCalled pool wanted.2 (some (field.accessorType wanted.1).descriptor) = true ∧
        IsAccessor pool field flags wanted method)
    always (fun assembled made => isAccessor_of_buildMethod assembled static made)
    (fun grown both => ⟨Member.isCalled_extends grown both.1, both.2.extends grown⟩) assembled made

theorem has_accStatic_accessorFlags (isInterface : Bool) (flags : FieldFlags) :
    (Enhancer.accessorFlags isInterface flags).has MethodFlags.accStatic = true := by
  have common : (flags.visibility.union
      (MethodFlags.accStatic.union MethodFlags.accSynthetic)).has MethodFlags.accStatic = true :=
    Flags.has_union (.inr (by decide))
  unfold Enhancer.accessorFlags
  cases isInterface with
  | true => exact common
  | false => exact Flags.has_union (.inl common)

/-! ### Adding accessors -/

/-- An accessor of a managed field, as the class has it. -/
def IsAccessorIn (enhancer : Enhancer) (managed : ManagedField) (wanted : Direction × String)
    (method : Method) : Prop :=
  ∃ field declared, Enhancer.resolveField managed.name managed.descriptor enhancer = .ok field ∧
    enhancer.file.field? managed.name managed.descriptor = some declared ∧
    IsAccessor enhancer.file.pool field
      (Enhancer.accessorFlags enhancer.file.isInterface declared.flags) wanted method

theorem IsAccessorIn.keeps {before after : Enhancer} (keeps : before.KeepsFields after)
    (legible : before.file.Legible) {managed : ManagedField} {wanted : Direction × String}
    {method : Method} (made : IsAccessorIn before managed wanted method) :
    IsAccessorIn after managed wanted method := by
  obtain ⟨field, declared, resolved, found, accessor⟩ := made
  refine ⟨field, declared, keeps.resolveField legible.fields resolved, ?_, ?_⟩
  · rw [keeps.field? legible.fields, found]
  · rw [keeps.isInterface]
    exact accessor.extends keeps.pool

/-- Whether a managed field can be resolved and has all of its accessors among the methods of the
class. -/
def HasAccessors (enhancer : Enhancer) (managed : ManagedField) : Prop :=
  ∃ field, Enhancer.resolveField managed.name managed.descriptor enhancer = .ok field ∧
    ∀ wanted ∈ Enhancer.wantedAccessors managed.accessors, ∃ method ∈ enhancer.file.methods,
      method.isCalled enhancer.file.pool wanted.2
        (some (field.accessorType wanted.1).descriptor) = true

theorem HasAccessors.keeps {before after : Enhancer} (keeps : before.KeepsFields after)
    (legible : before.file.Legible)
    (methods : ∀ method ∈ before.file.methods, ∃ kept ∈ after.file.methods,
      kept.name = method.name ∧ kept.descriptor = method.descriptor)
    {managed : ManagedField} (has : HasAccessors before managed) : HasAccessors after managed := by
  obtain ⟨field, resolved, accessors⟩ := has
  refine ⟨field, keeps.resolveField legible.fields resolved, fun wanted member => ?_⟩
  obtain ⟨method, methodMember, called⟩ := accessors wanted member
  obtain ⟨kept, keptMember, name, descriptor⟩ := methods method methodMember
  refine ⟨kept, keptMember, ?_⟩
  rw [Member.isCalled_of_texts name descriptor]
  exact Member.isCalled_extends keeps.pool called

/-- Whether a class declares a managed field. -/
def declares (file : ClassFile) (managed : ManagedField) : Bool :=
  (file.field? managed.name managed.descriptor).isSome

/-- The accessors that are wanted for those of the managed fields that a class declares. -/
def declaredAccessors (file : ClassFile) (managed : List ManagedField) :
    List (ManagedField × Direction × String) :=
  (managed.filter (declares file)).flatMap fun field =>
    (Enhancer.wantedAccessors field.accessors).map (Prod.mk field)

theorem declaredAccessors_append (file : ClassFile) (first later : List ManagedField) :
    declaredAccessors file (first ++ later) =
      declaredAccessors file first ++ declaredAccessors file later := by
  unfold declaredAccessors
  rw [List.filter_append, List.flatMap_append]

theorem declaredAccessors_of_keepsFields {before after : Enhancer}
    (keeps : before.KeepsFields after) (legible : before.file.Legible)
    (managed : List ManagedField) :
    declaredAccessors after.file managed = declaredAccessors before.file managed := by
  have same : declares after.file = declares before.file := by
    funext field
    rw [declares, keeps.field? legible.fields, declares]
  rw [declaredAccessors, same, declaredAccessors]

/-- A class that methods were added to, behind those it had: the accessors that are wanted for those
of the managed fields that it declares. -/
structure AccessorsAdded (managed : List ManagedField) (before after : Enhancer)
    (added : List Method) : Prop where
  rest : after = { before with
    file := { before.file with
      pool := after.file.pool
      methods := before.file.methods ++ added } }
  pool : before.file.pool.Extends after.file.pool
  accessors : List.Forall₂ (fun wanted => IsAccessorIn after wanted.1 wanted.2)
    (declaredAccessors before.file managed) added
  legible : after.file.Legible

section adding

variable {before after : Enhancer} {added : List Method}

theorem AccessorsAdded.keepsFields {managed : List ManagedField}
    (accessors : AccessorsAdded managed before after added) : before.KeepsFields after := by
  rw [accessors.rest]
  exact ⟨accessors.pool, rfl, rfl, rfl, rfl⟩

theorem AccessorsAdded.mem_of_mem {managed : List ManagedField}
    (accessors : AccessorsAdded managed before after added) {method : Method}
    (member : method ∈ before.file.methods) : method ∈ after.file.methods := by
  rw [accessors.rest]
  exact List.mem_append_left _ member

theorem AccessorsAdded.none (legible : before.file.Legible) {managed : List ManagedField}
    (undeclared : declaredAccessors before.file managed = []) :
    AccessorsAdded managed before before [] where
  rest := by rw [List.append_nil]
  pool := .refl _
  accessors := by
    rw [undeclared]
    exact .nil
  legible := legible

theorem AccessorsAdded.append (legible : before.file.Legible) {first later : List ManagedField}
    {middle : Enhancer} {addedLater : List Method}
    (here : AccessorsAdded first before middle added)
    (others : AccessorsAdded later middle after addedLater) :
    AccessorsAdded (first ++ later) before after (added ++ addedLater) where
  rest := by
    rw [others.rest, here.rest, List.append_assoc]
  pool := here.pool.trans others.pool
  accessors := by
    rw [declaredAccessors_append,
      ← declaredAccessors_of_keepsFields here.keepsFields legible later]
    refine List.rel_append (here.accessors.imp fun wanted method accessor => ?_) others.accessors
    exact accessor.keeps others.keepsFields here.legible
  legible := others.legible

/-- What was found and made when accessors of a managed field were added: the field that the class
declares and what it was resolved to, and for everything wanted, which the class did not have, a
method that is an accessor. -/
structure AccessorsMade (managed : ManagedField) (field : ResolvedField) (declared : Field)
    (before after : Enhancer) (added : List Method) : Prop where
  found : before.file.field? managed.name managed.descriptor = some declared
  resolved : Enhancer.resolveField managed.name managed.descriptor before = .ok field
  missing : ∀ wanted ∈ Enhancer.wantedAccessors managed.accessors,
    before.file.method? wanted.2 (field.accessorType wanted.1).descriptor = none
  rest : after = { before with
    file := { before.file with
      pool := after.file.pool
      methods := before.file.methods ++ added } }
  pool : before.file.pool.Extends after.file.pool
  made : List.Forall₂ (fun wanted method =>
      method.isCalled after.file.pool wanted.2
          (some (field.accessorType wanted.1).descriptor) = true ∧
        IsAccessor after.file.pool field
          (Enhancer.accessorFlags before.file.isInterface declared.flags) wanted method)
    (Enhancer.wantedAccessors managed.accessors) added

theorem exists_accessorsMade (legible : before.file.Legible) {managed : ManagedField}
    {nothing : Unit} (ran : Enhancer.addAccessors managed before = (.ok nothing, after)) :
    ∃ field declared added, AccessorsMade managed field declared before after added := by
  obtain ⟨⟨field, flags⟩, middle, asked, ran⟩ := Stateful.bind_eq_ok_iff.mp ran
  obtain ⟨question, rfl⟩ := Enhancer.ask_eq_ok_iff.mp asked
  obtain ⟨added, pool, made, rfl⟩ := (Enhancer.addMade_eq_ok_iff fun methods file =>
    { file with methods := file.methods ++ methods }).mp ran
  cases found : before.file.field? managed.name managed.descriptor with
  | none =>
    rw [found] at question
    cases question
  | some declared =>
    simp only [found, Outcome.bind_eq_ok_iff, Outcome.pure_eq_ok_iff, Prod.mk.injEq] at question
    obtain ⟨sameField, resolved, _, required, rfl, rfl⟩ := question
    obtain ⟨grown, row⟩ := forall₂_isAccessor legible.pool (has_accStatic_accessorFlags _ _) made
    exact ⟨sameField, declared, added, found, resolved, fun wanted member =>
      Enhancer.requireNewMethod_eq_ok_iff.mp (Outcome.forM_eq_ok_iff.mp required wanted member),
      rfl, grown, row⟩

theorem AccessorsMade.keepsFields {managed : ManagedField} {field : ResolvedField}
    {declared : Field} (made : AccessorsMade managed field declared before after added) :
    before.KeepsFields after := by
  rw [made.rest]
  exact ⟨made.pool, rfl, rfl, rfl, rfl⟩

theorem exists_of_addAccessors (legible : before.file.Legible) {managed : ManagedField}
    {nothing : Unit} (ran : Enhancer.addAccessors managed before = (.ok nothing, after)) :
    HasAccessors after managed ∧ ∃ added, AccessorsAdded [managed] before after added := by
  obtain ⟨field, declared, added, made⟩ := exists_accessorsMade legible ran
  have keeps := made.keepsFields
  have resolved := keeps.resolveField legible.fields made.resolved
  have methods : after.file.methods = before.file.methods ++ added := by
    rw [made.rest]
  refine ⟨⟨field, resolved, fun wanted member => ?_⟩, added, made.rest, made.pool, ?_, ?_⟩
  · obtain ⟨method, methodMember, called, -⟩ := exists_mem_of_forall₂_right made.made.flip member
    rw [methods]
    exact ⟨method, List.mem_append_right _ methodMember, called⟩
  · have declares : declares before.file managed = true := by
      rw [declares, made.found]
      rfl
    rw [declaredAccessors, List.filter_cons_of_pos declares, List.filter_nil,
      List.flatMap_singleton]
    refine List.forall₂_map_left_iff.mpr (made.made.imp fun wanted method both => ?_)
    refine ⟨field, declared, resolved, ?_, ?_⟩
    · exact (keeps.field? legible.fields _ _).trans made.found
    · rw [keeps.isInterface]
      exact both.2
  · rw [made.rest]
    refine legible.withMethods made.pool fun method member => ?_
    obtain ⟨wanted, -, called, accessor⟩ := exists_mem_of_forall₂_right made.made member
    exact ⟨Member.legible_of_isCalled called, fun _ found => accessor.framesFit found⟩

theorem exists_of_addAccessorsIfDeclared (legible : before.file.Legible) {managed : ManagedField}
    {nothing : Unit}
    (ran : Enhancer.addAccessorsIfDeclared managed before = (.ok nothing, after)) :
    (declares before.file managed = true → HasAccessors after managed) ∧
      ∃ added, AccessorsAdded [managed] before after added := by
  obtain ⟨declared, middle, asked, ran⟩ := Stateful.bind_eq_ok_iff.mp ran
  obtain ⟨question, rfl⟩ := Enhancer.ask_eq_ok_iff.mp asked
  obtain rfl := Outcome.pure_eq_ok_iff.mp question
  split at ran
  · obtain ⟨has, added⟩ := exists_of_addAccessors legible ran
    exact ⟨fun _ => has, added⟩
  · rename_i undeclared
    obtain ⟨-, rfl⟩ := Stateful.pure_eq_ok_iff.mp ran
    have none : [managed].filter (declares before.file) = [] :=
      List.filter_cons_of_neg undeclared
    refine ⟨fun declared => absurd declared undeclared, [], .none legible ?_⟩
    rw [declaredAccessors, none, List.flatMap_nil]

/-- What adding the accessors of one managed field after the other comes to. -/
theorem exists_accessorsAdded (legible : before.file.Legible) {managed : List ManagedField}
    {nothing : PUnit}
    (ran : managed.forM Enhancer.addAccessorsIfDeclared before = (.ok nothing, after)) :
    (∀ field ∈ managed, declares before.file field = true → HasAccessors after field) ∧
      ∃ added, AccessorsAdded managed before after added := by
  induction managed generalizing before with
  | nil =>
    obtain ⟨-, rfl⟩ := Stateful.pure_eq_ok_iff.mp ran
    exact ⟨List.forall_mem_nil _, [], .none legible rfl⟩
  | cons field rest inductionHypothesis =>
    obtain ⟨middle, first, later⟩ := Stateful.forM_cons_eq_ok_iff.mp ran
    obtain ⟨has, added, here⟩ := exists_of_addAccessorsIfDeclared legible first
    obtain ⟨hasLater, addedLater, others⟩ := inductionHypothesis here.legible later
    refine ⟨List.forall_mem_cons.mpr ⟨fun declared => ?_, fun other member declared => ?_⟩,
      added ++ addedLater, here.append legible others⟩
    · exact (has declared).keeps others.keepsFields here.legible
        fun method member => ⟨method, others.mem_of_mem member, rfl, rfl⟩
    · refine hasLater other member ?_
      rw [declares, here.keepsFields.field? legible.fields]
      exact declared

end adding

end Enhancement

end JavaClass
