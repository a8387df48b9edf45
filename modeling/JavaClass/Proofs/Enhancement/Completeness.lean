/-
Redirection is complete. When a plan was carried out on a class no two methods of which have the
same name and the same descriptor, every method with a body has given up its uses of the managed
fields, apart from the initialisers and from the methods that are named like an accessor.

A name alone decides that: a method that has the name of an accessor but another descriptor keeps
its uses of the field, although it is no accessor.
-/

import JavaClass.Proofs.Descriptor
import JavaClass.Proofs.Enhancement.Plan
import Mathlib.Data.List.Pairwise

namespace JavaClass.Enhancement

/-- Whether two methods have the same name and the same descriptor. -/
def Namesakes (pool : Pool) (first second : Method) : Prop :=
  ∃ name descriptor, (pool.text first.name = .ok name ∧ pool.text second.name = .ok name) ∧
    pool.text first.descriptor = .ok descriptor ∧ pool.text second.descriptor = .ok descriptor

/-- Whether no instruction of a body uses a managed field, through the class or through the one that
declares the field, in a direction for which there is an accessor. -/
def HasGivenUp (enhancer : Enhancer) (managed : ManagedField) (body : Body) : Prop :=
  ∃ field user instructions,
    Enhancer.resolveField managed.name managed.descriptor enhancer = .ok field ∧
      enhancer.file.name = .ok user ∧ body.instructions = .ok instructions ∧
      ∀ instruction ∈ instructions,
        ¬Redirectable enhancer.file.pool field user managed.accessors instruction

/-- Where uses are found that are to be redirected, a method has not given up all of its uses. -/
theorem exists_not_hasGivenUp_of_redirections {enhancer : Enhancer} {name descriptor : String}
    {managed : ManagedField} {field : ResolvedField} {wanted : List Enhancer.Redirection}
    (sought : Enhancer.redirections name descriptor managed enhancer = .ok (field, wanted))
    (left : wanted ≠ []) :
    ∃ method body, method ∈ enhancer.file.methods ∧
      method.isCalled enhancer.file.pool name (some descriptor) = true ∧
      Method.body? method = some body ∧ ¬HasGivenUp enhancer managed body := by
  obtain ⟨user, method, body, instructions, examined, redirects⟩ :=
    redirects_of_redirections sought
  refine ⟨method, body, List.mem_of_find?_eq_some examined.found, List.find?_some examined.found,
    examined.hasBody, ?_⟩
  rintro ⟨sameField, sameUser, sameInstructions, resolved, named, decoded, none⟩
  obtain rfl := Except.ok.inj (examined.resolved.symm.trans resolved)
  obtain rfl := Except.ok.inj (examined.named.symm.trans named)
  obtain rfl := Except.ok.inj (examined.decoded.symm.trans decoded)
  refine left (List.length_eq_zero_iff.mp ?_)
  rw [redirects.length_eq, List.countP_eq_zero]
  exact fun instruction member redirectable =>
    none instruction member (of_decide_eq_true redirectable)

/-! ### Methods by name and descriptor -/

section namesakes

variable {pool : Pool}

instance : Std.Symm fun first second => ¬Namesakes pool first second where
  symm _ _ apart := fun ⟨name, descriptor, names, descriptors⟩ =>
    apart ⟨name, descriptor, names.symm, descriptors.symm⟩

/-- What a method is listed as says what its name and its descriptor are. -/
theorem texts_of_isKeyOf {method : Method} {key : MethodKey} (isKey : IsKeyOf pool method key) :
    pool.text method.name = .ok key.name ∧
      pool.text method.descriptor = .ok key.type.descriptor := by
  obtain ⟨name, descriptor, named, described, parsed⟩ := isKey
  obtain ⟨rfl, rfl⟩ := MethodKey.eq_of_parse parsed
  exact ⟨named, described⟩

/-- Methods that had different names or descriptors have so after a plan was carried out. -/
theorem pairwise_of_methodRevised {plan : Plan} {before after : Enhancer}
    (legible : before.file.Legible) (grown : before.file.pool.Extends after.file.pool)
    {kept : List Method}
    (row : List.Forall₂ (MethodRevised plan after) before.file.methods kept)
    (distinct : before.file.methods.Pairwise fun first second =>
      ¬Namesakes before.file.pool first second) :
    kept.Pairwise fun first second => ¬Namesakes after.file.pool first second := by
  refine pairwise_of_forall₂ (fun {first later newFirst newLater} here there apart => ?_)
    ((List.forall₂_and_left _ _).mpr ⟨legible.methods, row⟩) distinct
  obtain ⟨⟨nameHeld, descriptorHeld⟩, revised⟩ := here
  obtain ⟨⟨nameHeldLater, descriptorHeldLater⟩, revisedLater⟩ := there
  obtain ⟨sameName, sameDescriptor⟩ := revised.texts_eq
  obtain ⟨sameNameLater, sameDescriptorLater⟩ := revisedLater.texts_eq
  unfold Namesakes at apart ⊢
  rw [sameName, sameNameLater, sameDescriptor, sameDescriptorLater, grown.text_eq nameHeld,
    grown.text_eq nameHeldLater, grown.text_eq descriptorHeld, grown.text_eq descriptorHeldLater]
  exact apart

end namesakes

/-! ### Methods after a plan -/

section plans

variable {plan : Plan} {before after : Enhancer} {count : Nat}

/-- Methods that a plan concerns have been there before. -/
theorem CarriedOut.mem_kept_of_concerns (carried : CarriedOut plan before count after) :
    ∃ kept, List.Forall₂ (MethodRevised plan after) before.file.methods kept ∧
      ∀ method ∈ after.file.methods, ∀ name, after.file.pool.text method.name = .ok name →
        plan.Concerns name → method ∈ kept := by
  obtain ⟨kept, added, methods, row, accessors, -⟩ := carried.methods
  refine ⟨kept, row, fun method member name named concerned => ?_⟩
  rw [methods] at member
  refine (List.mem_append.mp member).resolve_right fun isAdded => ?_
  obtain ⟨wanted, isWanted, field, declared, -, -, accessor⟩ :=
    exists_mem_of_forall₂_right accessors isAdded
  obtain rfl := Except.ok.inj (named.symm.trans accessor.name)
  have other := concerned.2.2
  rw [isAccessor_of_mem_declaredAccessors isWanted] at other
  cases other

/-- What a plan that was carried out leaves in the methods with a body. -/
theorem hasGivenUp_of_applySteps (legible : before.file.Legible)
    (distinct : before.file.methods.Pairwise fun first second =>
      ¬Namesakes before.file.pool first second)
    (ran : Enhancer.applySteps plan before = (.ok count, after)) {method : Method}
    (member : method ∈ after.file.methods) {body : Body}
    (hasBody : Method.body? method = some body) :
    ∃ name, after.file.pool.text method.name = .ok name ∧
      (plan.Concerns name → ∀ managed ∈ plan.managedFields, HasGivenUp after managed body) := by
  have carried := carriedOut_of_applySteps legible ran
  have grown := ((Enhancer.always_applySteps plan).relates ran).grown legible.pool
  obtain ⟨kept, row, mem_kept⟩ := carried.mem_kept_of_concerns
  obtain ⟨implementing, declaring, calling, phases⟩ := applySteps_eq_ok_iff.mp ran
  have accomplished := phases.accomplished legible
  have given := accomplished.given
  obtain ⟨keys, found, free⟩ := accomplished.free
  -- The method was named when the methods with a body were listed, and is named the same now.
  obtain ⟨old, oldMember, revised⟩ := exists_mem_of_forall₂_right given.methods member
  have listed : old ∈ calling.file.methods.filter fun method => (Method.body? method).isSome :=
    List.mem_filter.mpr ⟨oldMember, by rw [← revised.isSome_body?_eq, hasBody]; rfl⟩
  obtain ⟨key, keyMember, isKey⟩ :=
    exists_mem_of_forall₂_right (methodsWithBody_eq_ok_iff.mp found).flip listed
  obtain ⟨named, described⟩ := texts_of_isKeyOf (IsKeyOf.keeps given.pool revised isKey)
  refine ⟨key.name, named, fun concerned managed inPlan => ?_⟩
  obtain ⟨field, user, first, firstBody, instructions, examined, spared⟩ :=
    free key (mem_concerned_iff.mpr ⟨keyMember, concerned⟩) managed inPlan
  -- What was redirected is the first method of that name and descriptor, and there is no other.
  obtain ⟨namedFirst, describedFirst⟩ :=
    Member.texts_of_isCalled (List.find?_some examined.found)
  have firstMember := List.mem_of_find?_eq_some examined.found
  have same : first = method := by
    by_contra different
    exact (pairwise_of_methodRevised legible grown row distinct).forall
      (mem_kept first firstMember _ namedFirst concerned)
      (mem_kept method member _ named concerned) different
      ⟨_, _, ⟨namedFirst, named⟩, describedFirst, described⟩
  subst same
  obtain rfl := Option.some.inj (hasBody.symm.trans examined.hasBody)
  exact ⟨field, user, instructions, examined.resolved, examined.named, examined.decoded,
    fun instruction isThere => (spared instruction isThere).not_redirectable⟩

end plans

theorem pairwise_of_length_eq_one {α : Type} (apart : α → α → Prop) {items : List α}
    (single : items.length = 1) : items.Pairwise apart := by
  obtain ⟨item, rfl⟩ := List.length_eq_one_iff.mp single
  exact List.pairwise_singleton apart item

/-- After a plan was carried out on a class that was read, whatever the class inherits and whatever
is reported, the methods that may still use a managed field in a direction with an accessor are the
initialisers and those that are named like an accessor. -/
theorem hasGivenUp_of_apply_of_read {bytes : Bytes} {file : ClassFile}
    (read : ClassFile.read bytes = .ok file)
    (distinct : file.methods.Pairwise fun first second => ¬Namesakes file.pool first second)
    {reporting : Reporting} {inherited : List InheritedField} {plan : Plan} {count : Nat}
    {after : Enhancer}
    (ran : Enhancer.apply plan (.ofClass reporting inherited file) = (.ok count, after))
    {method : Method} (member : method ∈ after.file.methods) {body : Body}
    (hasBody : Method.body? method = some body) :
    ∃ name, after.file.pool.text method.name = .ok name ∧
      (name = "<init>" ∨ name = "<clinit>" ∨ plan.isAccessor name = true ∨
        ∀ managed ∈ plan.managedFields, HasGivenUp after managed body) := by
  have legible : (Enhancer.ofClass reporting inherited file).file.Legible :=
    (ClassFile.read_eq_ok_iff.mp read).1.legible
  obtain ⟨name, named, given⟩ :=
    hasGivenUp_of_applySteps legible distinct (Enhancer.apply_eq_ok_iff.mp ran) member hasBody
  refine ⟨name, named, ?_⟩
  by_cases concerned : plan.Concerns name
  · exact .inr (.inr (.inr (given concerned)))
  · unfold Plan.Concerns at concerned
    rw [← Bool.not_eq_true] at concerned
    tauto

/-- The method that is not named like the accessor has given up its uses. -/
theorem hasGivenUp_of_apply_of_read_planOfUses :
    ∃ file after, ClassFile.read fileOfUses = .ok file ∧
      (file.methods.Pairwise fun first second => ¬Namesakes file.pool first second) ∧
      Enhancer.apply planOfUses (.ofClass .silent [] file) = (.ok 2, after) ∧
      ∀ method ∈ after.file.methods, ∀ body, Method.body? method = some body →
        ∃ name, after.file.pool.text method.name = .ok name ∧
          (name = "<init>" ∨ name = "<clinit>" ∨ planOfUses.isAccessor name = true ∨
            ∀ managed ∈ planOfUses.managedFields, HasGivenUp after managed body) := by
  have counted : (ClassFile.read fileOfUses).map (fun file =>
      (file.methods.length, (Enhancer.apply planOfUses (.ofClass .silent [] file)).1)) =
      .ok (1, .ok 2) := by
    decide +kernel
  obtain ⟨file, read, counts⟩ := Outcome.map_eq_ok_iff.mp counted
  obtain ⟨single, succeeded⟩ := Prod.mk.inj counts
  have distinct := pairwise_of_length_eq_one
    (fun first second => ¬Namesakes file.pool first second) single
  have ran : Enhancer.apply planOfUses (.ofClass .silent [] file) = (.ok 2, _) :=
    Prod.ext succeeded rfl
  exact ⟨file, _, read, distinct, ran, fun method member body hasBody =>
    hasGivenUp_of_apply_of_read read distinct ran member hasBody⟩

/-- Whether a name and a descriptor are those of an accessor of a managed field. -/
def NamesAccessor (plan : Plan) (enhancer : Enhancer) (name descriptor : String) : Prop :=
  ∃ managed ∈ plan.managedFields, ∃ field,
    Enhancer.resolveField managed.name managed.descriptor enhancer = .ok field ∧
      ∃ wanted ∈ Enhancer.wantedAccessors managed.accessors,
        wanted.2 = name ∧ (field.accessorType wanted.1).descriptor = descriptor

/-- A plan in which an accessor has the name of a method of the class with the static field. -/
def planOfOverload : Plan where
  interfaces := []
  addedFields := []
  managedFields := [⟨"x", none, ⟨some "m", none⟩⟩]
  inheritedFields := []

/-- A method that is neither an initialiser nor an accessor keeps its uses of a managed field, since
it has the name of an accessor. -/
theorem exists_not_hasGivenUp_of_apply :
    ∃ file after method body, ClassFile.read fileOfUses = .ok file ∧
      (file.methods.Pairwise fun first second => ¬Namesakes file.pool first second) ∧
      Enhancer.apply planOfOverload (.ofClass .silent [] file) = (.ok 0, after) ∧
      method ∈ after.file.methods ∧ Method.body? method = some body ∧
      after.file.pool.text method.name = .ok "m" ∧
      after.file.pool.text method.descriptor = .ok "()V" ∧
      ¬NamesAccessor planOfOverload after "m" "()V" ∧
      ∃ managed ∈ planOfOverload.managedFields, ¬HasGivenUp after managed body := by
  have counted : (ClassFile.read fileOfUses).map (fun file =>
      let ran := Enhancer.apply planOfOverload (.ofClass .silent [] file)
      (file.methods.length, ran.1,
        (Enhancer.resolveField "x" none ran.2).map fun field => field.getterType.descriptor,
        (Enhancer.redirections "m" "()V" ⟨"x", none, ⟨some "m", none⟩⟩ ran.2).map fun found =>
          found.2.length)) = .ok (1, .ok 0, .ok "()I", .ok 2) := by
    decide +kernel
  obtain ⟨file, read, counts⟩ := Outcome.map_eq_ok_iff.mp counted
  obtain ⟨single, counts⟩ := Prod.mk.inj counts
  obtain ⟨succeeded, counts⟩ := Prod.mk.inj counts
  obtain ⟨getter, left⟩ := Prod.mk.inj counts
  obtain ⟨⟨field, wanted⟩, sought, found⟩ := Outcome.map_eq_ok_iff.mp left
  have findsUses : wanted ≠ [] := by
    rintro rfl
    cases found
  obtain ⟨method, body, member, called, hasBody, uses⟩ :=
    exists_not_hasGivenUp_of_redirections sought findsUses
  obtain ⟨named, described⟩ := Member.texts_of_isCalled called
  refine ⟨file, _, method, body, read, pairwise_of_length_eq_one _ single,
    Prod.ext succeeded rfl, member, hasBody, named, described, ?_, _,
    List.mem_singleton_self _, uses⟩
  rintro ⟨managed, inPlan, other, resolved, accessor, isWanted, -, descriptor⟩
  obtain rfl := List.mem_singleton.mp inPlan
  obtain rfl := List.mem_singleton.mp isWanted
  obtain ⟨same, resolvedHere, type⟩ := Outcome.map_eq_ok_iff.mp getter
  obtain rfl := Except.ok.inj (resolvedHere.symm.trans resolved)
  have different := type.symm.trans descriptor
  revert different
  decide

end JavaClass.Enhancement
