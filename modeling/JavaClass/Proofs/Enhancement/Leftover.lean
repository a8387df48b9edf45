/-
What is left of the uses of managed fields. Once they were redirected in a method, looking for them
there again finds nothing to redirect, and that remains so whatever is redirected afterwards: an
instruction stays as it is or becomes a call, and a call uses no field. So when every method in turn
has given up its uses of every managed field, none of them has any left.
-/

import JavaClass.Proofs.Enhancement.RevisedMethods

namespace JavaClass.Enhancement

/-! ### Instructions -/

/-- Whether an instruction can stay as it is: it can be told which use of a field it makes, and if
it makes one there is no accessor for it. -/
def Spared (pool : Pool) (field : ResolvedField) (user : String) (accessors : FieldAccessors)
    (instruction : Instruction) : Prop :=
  ∃ found, FieldSite.of? pool field user instruction = .ok found ∧
    ∀ site ∈ found, accessors.inDirection site.direction = none

section instructions

variable {pool after : Pool} {field : ResolvedField} {user : String} {accessors : FieldAccessors}
  {instruction : Instruction}

theorem FieldSite.of?_extends (grown : pool.Extends after) {found : Option FieldSite}
    (sought : FieldSite.of? pool field user instruction = .ok found) :
    FieldSite.of? after field user instruction = .ok found := by
  unfold FieldSite.of? at sought ⊢
  split at sought
  · split at sought
    · rename_i other
      rw [if_pos other]
      exact sought
    · rename_i same
      rw [if_neg same]
      obtain ⟨reference, read, answer⟩ := Outcome.bind_eq_ok_iff.mp sought
      exact Outcome.bind_eq_ok_iff.mpr ⟨reference, grown.memberReference read, answer⟩
  · exact sought

theorem Spared.extends (grown : pool.Extends after)
    (spared : Spared pool field user accessors instruction) :
    Spared after field user accessors instruction := by
  obtain ⟨found, sought, without⟩ := spared
  exact ⟨found, FieldSite.of?_extends grown sought, without⟩

theorem Spared.not_redirectable (spared : Spared pool field user accessors instruction) :
    ¬Redirectable pool field user accessors instruction := by
  rintro ⟨direction, wanted, uses⟩
  obtain ⟨found, sought, without⟩ := spared
  have site : FieldSite.of? pool field user instruction =
      .ok (some ⟨instruction.offset, direction⟩) := FieldSite.of?_eq_some_iff.mpr ⟨rfl, uses⟩
  obtain rfl := Except.ok.inj (site.symm.trans sought)
  have none := without _ rfl
  rw [none] at wanted
  cases wanted

theorem spared_of_not_redirectable {found : Option FieldSite}
    (sought : FieldSite.of? pool field user instruction = .ok found)
    (other : ¬Redirectable pool field user accessors instruction) :
    Spared pool field user accessors instruction := by
  refine ⟨found, sought, fun site isFound => ?_⟩
  rw [Option.mem_def.mp isFound] at sought
  obtain ⟨-, uses⟩ := FieldSite.of?_eq_some_iff.mp sought
  exact Option.not_isSome_iff_eq_none.mp fun wanted => other ⟨site.direction, wanted, uses⟩

/-- A call uses no field. -/
theorem spared_of_call (call : instruction.opcode = Opcode.invokestatic) :
    Spared pool field user accessors instruction := by
  have other : FieldUse.ofOpcode? Opcode.invokestatic = none := by
    decide +kernel
  refine ⟨none, ?_, fun site isFound => ?_⟩
  · unfold FieldSite.of?
    rw [call, other]
  · cases isFound

end instructions

/-! ### Methods -/

/-- Whether a method has no use of a managed field left that would have to give way. -/
def FreeOf (managed : ManagedField) (name descriptor : String) (enhancer : Enhancer) : Prop :=
  ∃ field user method body instructions,
    Examined enhancer name descriptor managed field user method body instructions ∧
      ∀ instruction ∈ instructions,
        Spared enhancer.file.pool field user managed.accessors instruction

theorem FieldSite.findAll_eq_ok_iff {pool : Pool} {field : ResolvedField} {user : String}
    {instructions : List Instruction} {sites : List FieldSite} :
    FieldSite.findAll pool field user instructions = .ok sites ↔
      ∃ results, List.Forall₂ (fun instruction found =>
        FieldSite.of? pool field user instruction = .ok found) instructions results ∧
          results.filterMap id = sites := by
  simp only [FieldSite.findAll, Outcome.bind_eq_ok_iff, Outcome.pure_eq_ok_iff,
    Outcome.mapM_eq_ok_iff]

/-- Where the uses of a field are found, it can be told of each instruction which use it makes. -/
theorem exists_of?_of_findAll {pool : Pool} {field : ResolvedField} {user : String}
    {instructions : List Instruction} {sites : List FieldSite}
    (sought : FieldSite.findAll pool field user instructions = .ok sites) :
    ∀ instruction ∈ instructions, ∃ found,
      FieldSite.of? pool field user instruction = .ok found := by
  obtain ⟨results, row, -⟩ := FieldSite.findAll_eq_ok_iff.mp sought
  intro instruction member
  obtain ⟨found, -, judged⟩ := exists_mem_of_forall₂_right row.flip member
  exact ⟨found, judged⟩

/-- Instructions that can stay as they are give no reason for a redirection. -/
theorem exists_findAll_of_spared {pool : Pool} {field : ResolvedField} {user : String}
    {accessors : FieldAccessors} {instructions : List Instruction}
    (spared : ∀ instruction ∈ instructions, Spared pool field user accessors instruction) :
    ∃ sites, FieldSite.findAll pool field user instructions = .ok sites ∧
      sites.filterMap (Redirection.ofSite? field accessors) = [] := by
  simp only [FieldSite.findAll_eq_ok_iff]
  induction instructions with
  | nil => exact ⟨[], ⟨[], .nil, rfl⟩, rfl⟩
  | cons instruction rest inductionHypothesis =>
    obtain ⟨⟨found, sought, without⟩, later⟩ := List.forall_mem_cons.mp spared
    obtain ⟨sites, ⟨results, row, rfl⟩, none⟩ := inductionHypothesis later
    refine ⟨_, ⟨found :: results, .cons sought row, rfl⟩, ?_⟩
    cases found with
    | none => exact none
    | some site =>
      have isNone : Redirection.ofSite? field accessors site = Option.none := by
        rw [Redirection.ofSite?, without site rfl]
        rfl
      exact (List.filterMap_cons_none isNone).trans none

/-- Where no use is left, nothing is found that has to be redirected. -/
theorem FreeOf.redirections_eq {managed : ManagedField} {name descriptor : String}
    {enhancer : Enhancer} (free : FreeOf managed name descriptor enhancer) :
    ∃ field, Enhancer.redirections name descriptor managed enhancer = .ok (field, []) := by
  obtain ⟨field, user, method, body, instructions, examined, spared⟩ := free
  obtain ⟨sites, sought, none⟩ := exists_findAll_of_spared spared
  exact ⟨field, redirections_eq_ok_iff.mpr
    ⟨user, method, body, instructions, sites, examined, sought, none⟩⟩

section methods

variable {plan : Plan} {before after : Enhancer} {count : Nat} {managed : ManagedField}
  {name descriptor : String}

/-- A method whose uses of a field were redirected has none left. -/
theorem freeOf_of_redirectFieldUses (legible : before.file.Legible)
    (ran : Enhancer.redirectFieldUses name descriptor managed before = (.ok count, after)) :
    FreeOf managed name descriptor after := by
  have grown := ((Enhancer.always_redirectFieldUses name descriptor managed).relates ran).grown
    legible.pool
  obtain ⟨field, user, front, old, new, back, redirected⟩ := exists_redirected legible ran
  have keeps := redirected.keepsFields grown
  obtain ⟨oldBody, newBody, hasBody, rfl, body⟩ := redirected.body
  obtain ⟨olds, news, code, -⟩ := body.code
  -- The redirections were sought in these very instructions, so all of them could be judged.
  have judged : ∀ old ∈ olds, ∃ found,
      FieldSite.of? before.file.pool field user old = .ok found := by
    obtain ⟨sameField, sameUser, sameMethod, sameBody, sameOlds, sites, _, examined, sought, -⟩ :=
      exists_redirecting legible ran
    obtain rfl := Except.ok.inj (redirected.resolved.symm.trans examined.resolved)
    obtain rfl := Except.ok.inj (redirected.named.symm.trans examined.named)
    obtain rfl := Option.some.inj (redirected.located.method?_eq.symm.trans examined.found)
    obtain rfl := Option.some.inj (hasBody.symm.trans examined.hasBody)
    obtain rfl := Except.ok.inj (code.old.symm.trans examined.decoded)
    exact exists_of?_of_findAll sought
  have located : after.file.Located name descriptor front (Method.setBody newBody old) back := by
    have still := redirected.located.extends legible grown
    rw [redirected.rest]
    exact ⟨rfl, still.called, still.others⟩
  refine ⟨field, user, _, newBody, news, {
    resolved := keeps.resolveField legible.fields redirected.resolved
    named := keeps.name redirected.named
    found := located.method?_eq
    hasBody := Method.body?_setBody hasBody newBody
    decoded := code.new }, fun new member => ?_⟩
  obtain ⟨instruction, oldMember, became⟩ := exists_mem_of_forall₂_right code.row member
  cases became with
  | kept other =>
    obtain ⟨found, sought⟩ := judged new oldMember
    exact (spared_of_not_redirectable sought other).extends grown
  | called _ _ calls _ => exact spared_of_call calls.1

/-- A method that has no use left has none left when others were redirected. -/
theorem FreeOf.keeps (free : FreeOf managed name descriptor before)
    (legible : before.file.Legible) (given : GivenUp plan before count after) :
    FreeOf managed name descriptor after := by
  obtain ⟨field, user, method, body, instructions, examined, spared⟩ := free
  have keeps := given.keepsFields
  obtain ⟨new, found, revised⟩ := given.exists_method? legible examined.found
  have resolved := keeps.resolveField legible.fields examined.resolved
  have named := keeps.name examined.named
  obtain rfl | ⟨-, oldBody, newBody, hasBody, rfl, body⟩ := revised
  · exact ⟨field, user, new, body, instructions,
      ⟨resolved, named, found, examined.hasBody, examined.decoded⟩,
      fun instruction member => (spared instruction member).extends given.pool⟩
  · obtain rfl := Option.some.inj (examined.hasBody.symm.trans hasBody)
    obtain ⟨olds, news, code⟩ := body.code
    obtain rfl := Except.ok.inj (examined.decoded.symm.trans code.old)
    refine ⟨field, user, _, newBody, news,
      ⟨resolved, named, found, Method.body?_setBody hasBody newBody, code.new⟩,
      fun instruction member => ?_⟩
    obtain ⟨old, oldMember, rfl | ⟨_, _, _, _, _, _, replaced⟩⟩ :=
      exists_mem_of_forall₂_right code.row member
    · exact (spared instruction oldMember).extends given.pool
    · exact spared_of_call replaced.calls.1

end methods

/-! ### All methods and all fields -/

section classes

variable {plan : Plan} {before after : Enhancer} {count : Nat}

/-- Steps one after the other in which methods give up uses of managed fields, and in which these
are counted. What each step achieves lasts to the end. -/
theorem givenUp_of_foldlM (plan : Plan) {α : Type} (achieved : α → Enhancer → Prop)
    {step : Nat → α → Enhancing Nat} {items : List α}
    (gives : ∀ item ∈ items, ∀ {found next : Nat} {before after : Enhancer},
      before.file.Legible → step found item before = (.ok next, after) →
        achieved item after ∧ ∃ count, next = found + count ∧ GivenUp plan before count after)
    (lasts : ∀ item {before after : Enhancer} {count : Nat}, before.file.Legible →
      GivenUp plan before count after → achieved item before → achieved item after)
    {found total : Nat} (legible : before.file.Legible)
    (ran : items.foldlM step found before = (.ok total, after)) :
    (∀ item ∈ items, achieved item after) ∧
      ∃ count, total = found + count ∧ GivenUp plan before count after := by
  induction items generalizing found before with
  | nil =>
    obtain ⟨rfl, rfl⟩ := Stateful.pure_eq_ok_iff.mp ran
    exact ⟨List.forall_mem_nil _, 0, rfl, .none legible⟩
  | cons item rest inductionHypothesis =>
    obtain ⟨givesHere, givesRest⟩ := List.forall_mem_cons.mp gives
    rw [List.foldlM_cons] at ran
    obtain ⟨next, middle, here, others⟩ := Stateful.bind_eq_ok_iff.mp ran
    obtain ⟨achievedHere, count, rfl, given⟩ := givesHere legible here
    obtain ⟨achievedLater, countLater, rfl, givenLater⟩ :=
      inductionHypothesis givesRest given.legible others
    exact ⟨List.forall_mem_cons.mpr ⟨lasts item given.legible givenLater achievedHere,
      achievedLater⟩, count + countLater, Nat.add_assoc _ _ _, given.trans givenLater⟩

/-- Redirecting the uses of every managed field in one method. -/
theorem givenUp_of_redirectFields (legible : before.file.Legible) {method : MethodKey}
    (concerned : plan.Concerns method.name) {found total : Nat}
    (ran : (plan.managedFields.foldlM (fun count field => do
        return count + (← Enhancer.redirectFieldUses method.name method.type.descriptor field))
      found : Enhancing Nat) before = (.ok total, after)) :
    (∀ managed ∈ plan.managedFields, FreeOf managed method.name method.type.descriptor after) ∧
      ∃ count, total = found + count ∧ GivenUp plan before count after := by
  refine givenUp_of_foldlM plan
    (fun managed => FreeOf managed method.name method.type.descriptor) ?_
    (fun managed _ _ _ legible given free => free.keeps legible given) legible ran
  intro managed inPlan found next before after legible ran
  obtain ⟨count, middle, redirected, done⟩ := Stateful.bind_eq_ok_iff.mp ran
  obtain ⟨rfl, rfl⟩ := Stateful.pure_eq_ok_iff.mp done
  exact ⟨freeOf_of_redirectFieldUses legible redirected, count, rfl,
    givenUp_of_redirectFieldUses legible inPlan concerned redirected⟩

/-- Redirecting the uses of every managed field in every one of some methods: they have no uses
left that would have to give way. -/
theorem givenUp_of_redirectAll (legible : before.file.Legible) {methods : List MethodKey}
    (concerned : ∀ method ∈ methods, plan.Concerns method.name)
    (ran : Enhancer.redirectAll plan.managedFields methods before = (.ok count, after)) :
    (∀ method ∈ methods, ∀ managed ∈ plan.managedFields,
        FreeOf managed method.name method.type.descriptor after) ∧
      GivenUp plan before count after := by
  obtain ⟨free, total, rfl, given⟩ := givenUp_of_foldlM plan
    (fun (method : MethodKey) enhancer => ∀ managed ∈ plan.managedFields,
      FreeOf managed method.name method.type.descriptor enhancer)
    (fun method member _ _ _ _ legible ran =>
      givenUp_of_redirectFields legible (concerned method member) ran)
    (fun method _ _ _ legible given free managed inPlan =>
      (free managed inPlan).keeps legible given) legible ran
  rw [Nat.zero_add]
  exact ⟨free, given⟩

end classes

end JavaClass.Enhancement
