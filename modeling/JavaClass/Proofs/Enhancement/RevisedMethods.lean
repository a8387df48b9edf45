/-
Redirecting the uses of all managed fields in all methods that have to give them up. Methods stay
where they are, and so does all there is about them but the code of their bodies. In the code, a
use of a managed field may have become a call of its accessor, once and for all: a call is not
redirected again, whichever fields are still to come. So the instructions that each step counts are
those that are not the same in the end.
-/

import JavaClass.Proofs.Enhancement.Redirection

namespace JavaClass

/-! ### Methods -/

namespace Method

/-- The instructions of a method, if it has a body that can be decoded. -/
def instructions (method : Method) : List Instruction :=
  (method.body?.bind fun body => body.instructions.toOption).getD []

/-- How many instructions of a method are different ones in another method. -/
def changes (old new : Method) : Nat := Code.changes old.instructions new.instructions

/-- How many instructions of methods are different ones in methods that took their places. -/
def changesIn (olds news : List Method) : Nat :=
  ((olds.zip news).map fun pair => changes pair.1 pair.2).sum

theorem changesIn_cons (old new : Method) (olds news : List Method) :
    changesIn (old :: olds) (new :: news) = changes old new + changesIn olds news := by
  rw [changesIn, List.zip_cons_cons, List.map_cons, List.sum_cons, changesIn]

theorem changes_self (method : Method) : changes method method = 0 := Code.changes_self _

theorem changesIn_self (methods : List Method) : changesIn methods methods = 0 := by
  induction methods with
  | nil => rfl
  | cons method rest inductionHypothesis =>
    rw [changesIn_cons, changes_self, inductionHypothesis]

theorem changesIn_append {olds news : List Method} (same : olds.length = news.length)
    (oldsBehind newsBehind : List Method) :
    changesIn (olds ++ oldsBehind) (news ++ newsBehind) =
      changesIn olds news + changesIn oldsBehind newsBehind := by
  rw [changesIn, List.zip_append same, List.map_append, List.sum_append, changesIn, changesIn]

/-- Whether a method is another one with nothing but the code of its body revised. -/
def Recoded (old new : Method) : Prop :=
  new = old ∨ ∃ oldBody newBody replaces, old.body? = some oldBody ∧
    new = setBody newBody old ∧ oldBody.Revised replaces newBody

theorem instructions_eq {method : Method} {body : Body} (found : method.body? = some body)
    {instructions : List Instruction} (decoded : body.instructions = .ok instructions) :
    method.instructions = instructions := by
  rw [Method.instructions, found, Option.bind_some, decoded]
  rfl

end Method

namespace Enhancement

/-! ### What becomes of methods -/

/-- The use of a managed field, which takes three bytes, and the call of an accessor of the field in
its place. -/
structure GivesWay (enhancer : Enhancer) (managed : ManagedField) (field : ResolvedField)
    (user : String) (direction : Direction) (accessor : String) (old new : Instruction) : Prop where
  resolved : Enhancer.resolveField managed.name managed.descriptor enhancer = .ok field
  named : enhancer.file.name = .ok user
  wanted : managed.accessors.inDirection direction = some accessor
  uses : Uses enhancer.file.pool field user direction old
  length : old.length = 3
  calls : Calls enhancer.file.pool field accessor (field.accessorType direction) new
  place : new.offset = old.offset

/-- Whether the use of one of the managed fields gave way to the call of an accessor. -/
def Replaces (managed : List ManagedField) (enhancer : Enhancer) (old new : Instruction) : Prop :=
  ∃ member ∈ managed, ∃ field user direction accessor,
    GivesWay enhancer member field user direction accessor old new

/-- Whether methods of a name have to give up their uses of managed fields. Initialisers and
accessors keep theirs. -/
def Plan.Concerns (plan : Plan) (name : String) : Prop :=
  name ≠ "<init>" ∧ name ≠ "<clinit>" ∧ plan.isAccessor name = false

/-- Whether a method has to give up its uses of managed fields. -/
def GivesUp (plan : Plan) (pool : Pool) (method : Method) : Prop :=
  ∃ name, pool.text method.name = .ok name ∧ plan.Concerns name

/-- What may have become of a method: it is as it was, or its body has revised code. -/
def MethodRevised (plan : Plan) (enhancer : Enhancer) (old new : Method) : Prop :=
  new = old ∨ GivesUp plan enhancer.file.pool old ∧ ∃ oldBody newBody,
    Method.body? old = some oldBody ∧ new = Method.setBody newBody old ∧
    oldBody.Revised (Replaces plan.managedFields enhancer) newBody

section revised

variable {managed : List ManagedField} {plan : Plan} {enhancer after : Enhancer}

/-- A call is not replaced again. -/
theorem final_replaces : Code.Final (Replaces managed enhancer) := by
  rintro old new ⟨_, _, _, _, _, _, first⟩ last ⟨_, _, _, _, _, _, later⟩
  exact FieldUse.opcode_ne_invokestatic _ (later.uses.1.symm.trans first.calls.1)

/-- A call has no padding. -/
theorem not_inPadding_of_replaces {old new : Instruction}
    (replaced : Replaces managed enhancer old new) (position : Nat) :
    ¬Code.InPadding new position := by
  obtain ⟨_, _, _, _, _, _, redirects⟩ := replaced
  rintro ⟨switch, -⟩
  rw [redirects.calls.1] at switch
  revert switch
  decide

theorem Replaces.keeps (keeps : enhancer.KeepsFields after) (legible : enhancer.file.Legible)
    {old new : Instruction} (replaced : Replaces managed enhancer old new) :
    Replaces managed after old new := by
  obtain ⟨member, managed, field, user, direction, accessor, redirects⟩ := replaced
  exact ⟨member, managed, field, user, direction, accessor, { redirects with
    resolved := keeps.resolveField legible.fields redirects.resolved
    named := keeps.name redirects.named
    uses := redirects.uses.extends keeps.pool
    calls := redirects.calls.extends keeps.pool }⟩

theorem MethodRevised.recoded {old new : Method} (revised : MethodRevised plan enhancer old new) :
    old.Recoded new :=
  revised.imp_right fun ⟨_, oldBody, newBody, found, same, body⟩ =>
    ⟨oldBody, newBody, _, found, same, body⟩

/-- A method keeps its name and its descriptor. -/
theorem MethodRevised.texts_eq {old new : Method} (revised : MethodRevised plan enhancer old new) :
    new.name = old.name ∧ new.descriptor = old.descriptor := by
  obtain rfl | ⟨-, _, _, -, rfl, -⟩ := revised
  · exact ⟨rfl, rfl⟩
  · exact ⟨rfl, rfl⟩

/-- A method with a body keeps having one. -/
theorem MethodRevised.isSome_body?_eq {old new : Method}
    (revised : MethodRevised plan enhancer old new) :
    (Method.body? new).isSome = (Method.body? old).isSome := by
  obtain rfl | ⟨-, oldBody, newBody, found, rfl, -⟩ := revised
  · rfl
  · rw [found, Method.body?_setBody found newBody]
    rfl

theorem MethodRevised.keeps (keeps : enhancer.KeepsFields after) (legible : enhancer.file.Legible)
    {old new : Method} (revised : MethodRevised plan enhancer old new) :
    MethodRevised plan after old new := by
  obtain same | ⟨⟨name, named, concerned⟩, oldBody, newBody, found, same, body⟩ := revised
  · exact .inl same
  · refine .inr ⟨⟨name, keeps.pool.text named, concerned⟩, oldBody, newBody, found, same, ?_⟩
    obtain ⟨olds, news, code⟩ := body.code
    exact { body with
      code := ⟨olds, news, code.imp fun old new step =>
        step.imp_right fun replaced => replaced.keeps keeps legible⟩ }

theorem MethodRevised.trans {old mid new : Method} (first : MethodRevised plan enhancer old mid)
    (later : MethodRevised plan enhancer mid new) : MethodRevised plan enhancer old new := by
  obtain rfl | ⟨gives, oldBody, midBody, found, rfl, revised⟩ := first
  · exact later
  · obtain rfl | ⟨-, held, newBody, foundLater, rfl, revisedLater⟩ := later
    · exact .inr ⟨gives, oldBody, midBody, found, rfl, revised⟩
    · obtain rfl := Option.some.inj ((Method.body?_setBody found midBody).symm.trans foundLater)
      exact .inr ⟨gives, oldBody, newBody, found, Method.setBody_setBody _ _ _,
        revised.trans final_replaces (fun _ _ => not_inPadding_of_replaces) revisedLater⟩

/-- What is different in the end is what became different first or later. -/
theorem MethodRevised.changes_trans {old mid new : Method}
    (first : MethodRevised plan enhancer old mid) (later : MethodRevised plan enhancer mid new) :
    Method.changes old new = Method.changes old mid + Method.changes mid new := by
  obtain rfl | ⟨-, oldBody, midBody, found, rfl, revised⟩ := first
  · rw [Method.changes_self, Nat.zero_add]
  · obtain rfl | ⟨-, held, newBody, foundLater, rfl, revisedLater⟩ := later
    · rw [Method.changes_self, Nat.add_zero]
    · have foundMid := Method.body?_setBody found midBody
      obtain rfl := Option.some.inj (foundMid.symm.trans foundLater)
      obtain ⟨olds, mids, code⟩ := revised.code
      obtain ⟨same, news, codeLater⟩ := revisedLater.code
      obtain rfl := Except.ok.inj (code.new.symm.trans codeLater.old)
      have foundNew := Method.body?_setBody foundLater newBody
      unfold Method.changes
      rw [Method.instructions_eq found code.old, Method.instructions_eq foundMid code.new,
        Method.instructions_eq foundNew codeLater.new]
      exact final_replaces.changes_trans code.row codeLater.row

theorem MethodRevised.row_trans {olds mids news : List Method}
    (first : List.Forall₂ (MethodRevised plan enhancer) olds mids)
    (later : List.Forall₂ (MethodRevised plan enhancer) mids news) :
    List.Forall₂ (MethodRevised plan enhancer) olds news ∧
      Method.changesIn olds news = Method.changesIn olds mids + Method.changesIn mids news := by
  induction first generalizing news with
  | nil =>
    cases later
    exact ⟨.nil, rfl⟩
  | cons step _ inductionHypothesis =>
    cases later with
    | cons stepLater rest =>
      obtain ⟨row, count⟩ := inductionHypothesis rest
      refine ⟨.cons (step.trans stepLater) row, ?_⟩
      rw [Method.changesIn_cons, Method.changesIn_cons, Method.changesIn_cons, count,
        step.changes_trans stepLater, Nat.add_add_add_comm]

end revised

/-! ### What becomes of classes -/

/-- A class some of whose methods gave up uses of managed fields, as many as are counted. -/
structure GivenUp (plan : Plan) (before : Enhancer) (count : Nat) (after : Enhancer) : Prop where
  rest : after = { before with
    file := { before.file with pool := after.file.pool, methods := after.file.methods } }
  pool : before.file.pool.Extends after.file.pool
  methods : List.Forall₂ (MethodRevised plan after) before.file.methods after.file.methods
  count : count = Method.changesIn before.file.methods after.file.methods
  legible : after.file.Legible

section classes

variable {plan : Plan} {before middle after : Enhancer} {count : Nat}

theorem GivenUp.keepsFields (given : GivenUp plan before count after) :
    before.KeepsFields after := by
  rw [given.rest]
  exact ⟨given.pool, rfl, rfl, rfl, rfl⟩

/-- What is found under a name and a descriptor is what became of the method that was. -/
theorem GivenUp.exists_method? (given : GivenUp plan before count after)
    (legible : before.file.Legible) {name descriptor : String} {old : Method}
    (found : before.file.method? name descriptor = some old) :
    ∃ new, after.file.method? name descriptor = some new ∧ MethodRevised plan after old new := by
  have row := (List.forall₂_and_left _ _).mpr ⟨legible.methods, given.methods⟩
  have called (old new : Method) (related : old.Legible before.file.pool ∧
      MethodRevised plan after old new) :
      new.isCalled after.file.pool name (some descriptor) =
        old.isCalled before.file.pool name (some descriptor) := by
    obtain ⟨sameName, sameDescriptor⟩ := related.2.texts_eq
    rw [Member.isCalled_of_texts sameName sameDescriptor,
      Member.isCalled_of_extends given.pool related.1]
  obtain ⟨new, foundNew, -, revised⟩ := exists_find?_of_forall₂ row _ called found
  exact ⟨new, foundNew, revised⟩

theorem IsKeyOf.keeps {pool : Pool} (grown : pool.Extends after.file.pool) {old new : Method}
    {key : MethodKey} (revised : MethodRevised plan after old new) (isKey : IsKeyOf pool old key) :
    IsKeyOf after.file.pool new key := by
  obtain ⟨name, descriptor, named, described, parsed⟩ := isKey
  obtain ⟨sameName, sameDescriptor⟩ := revised.texts_eq
  refine ⟨name, descriptor, ?_, ?_, parsed⟩
  · rw [sameName]
    exact grown.text named
  · rw [sameDescriptor]
    exact grown.text described

/-- The methods with a body are listed as before. -/
theorem GivenUp.methodsWithBody_eq (given : GivenUp plan before count after)
    {keys : List MethodKey} (listed : Enhancer.methodsWithBody before.file = .ok keys) :
    Enhancer.methodsWithBody after.file = .ok keys := by
  have row := List.rel_filter (p := fun method => (Method.body? method).isSome)
    (q := fun method => (Method.body? method).isSome)
    (fun _ _ revised => Bool.coe_iff_coe.mpr revised.isSome_body?_eq.symm) given.methods
  refine methodsWithBody_eq_ok_iff.mpr
    (forall₂_of_partners ?_ row (methodsWithBody_eq_ok_iff.mp listed))
  exact fun _ _ _ revised isKey => IsKeyOf.keeps given.pool revised isKey

theorem GivenUp.none (legible : before.file.Legible) : GivenUp plan before 0 before where
  rest := rfl
  pool := .refl _
  methods := List.forall₂_same.mpr fun _ _ => .inl rfl
  count := (Method.changesIn_self _).symm
  legible := legible

theorem GivenUp.trans {countLater : Nat} (first : GivenUp plan before count middle)
    (later : GivenUp plan middle countLater after) :
    GivenUp plan before (count + countLater) after := by
  have row := first.methods.imp fun _ _ revised =>
    revised.keeps later.keepsFields first.legible
  obtain ⟨methods, counted⟩ := MethodRevised.row_trans row later.methods
  exact {
    rest := by rw [later.rest, first.rest]
    pool := first.pool.trans later.pool
    methods
    count := by rw [counted, first.count, later.count]
    legible := later.legible }

/-- A body in which the uses of a managed field were redirected has revised code. -/
theorem revised_of_bodyRedirected {managed : ManagedField} (member : managed ∈ plan.managedFields)
    {field : ResolvedField} {user : String} {old new : Body}
    (resolved : Enhancer.resolveField managed.name managed.descriptor after = .ok field)
    (named : after.file.name = .ok user) (grown : before.file.pool.Extends after.file.pool)
    (redirected : BodyRedirected before.file.pool after.file.pool field user managed.accessors old
      new count) :
    old.Revised (Replaces plan.managedFields after) new where
  maxStack := redirected.maxStack
  maxLocals := redirected.maxLocals
  handlers := redirected.handlers
  attributes := redirected.attributes
  code := by
    obtain ⟨olds, news, code, -⟩ := redirected.code
    have suits := (Code.decode_eq_ok_iff.mp code.old).1.suits
    have row := (List.forall₂_and_left olds news).mpr ⟨suits, code.row⟩
    refine ⟨olds, news, { code with row := row.imp fun instruction other step => ?_ }⟩
    obtain ⟨suitsHere, became⟩ := step
    cases became with
    | kept => exact .inl rfl
    | @called _ direction accessor uses wanted calls place =>
      exact .inr ⟨managed, member, field, user, direction, accessor, {
        resolved, named, wanted, calls, place
        uses := uses.extends grown
        length := length_of_uses suitsHere uses }⟩

/-- As many instructions become different ones as are counted. -/
theorem changes_of_bodyRedirected {earlier later : Pool} {field : ResolvedField} {user : String}
    {accessors : FieldAccessors} {method : Method} {old new : Body}
    (found : Method.body? method = some old)
    (redirected : BodyRedirected earlier later field user accessors old new count) :
    Method.changes method (Method.setBody new method) = count := by
  obtain ⟨olds, news, code, counted⟩ := redirected.code
  rw [Method.changes, Method.instructions_eq found code.old,
    Method.instructions_eq (Method.body?_setBody found new) code.new, counted]
  refine Code.changes_eq_countP code.row fun instruction other became => ?_
  constructor
  · intro different
    cases became with
    | kept => exact absurd rfl different
    | called uses wanted => exact ⟨_, by rw [wanted]; rfl, uses⟩
  · exact became.ne

section redirected

variable {name descriptor : String} {managed : ManagedField} {field : ResolvedField} {user : String}
  {front back : List Method} {old new : Method}
  (redirected : Redirected name descriptor managed field user front old new back before after count)
  (grown : before.file.pool.Extends after.file.pool)

include redirected grown

theorem Redirected.keepsFields : before.KeepsFields after := by
  rw [redirected.rest]
  exact ⟨grown, rfl, rfl, rfl, rfl⟩

theorem Redirected.legible (legible : before.file.Legible) : after.file.Legible := by
  obtain ⟨oldBody, newBody, found, rfl, body⟩ := redirected.body
  rw [redirected.rest]
  exact legible.withBody grown redirected.located.methods found body.attributes

end redirected

/-- Redirecting the uses of one managed field in one method. -/
theorem givenUp_of_redirectFieldUses (legible : before.file.Legible) {managed : ManagedField}
    (member : managed ∈ plan.managedFields) {name descriptor : String}
    (concerned : plan.Concerns name)
    (ran : Enhancer.redirectFieldUses name descriptor managed before = (.ok count, after)) :
    GivenUp plan before count after := by
  have proceeds := (Enhancer.always_redirectFieldUses name descriptor managed).relates ran
  have grown := proceeds.grown legible.pool
  obtain ⟨field, user, front, old, new, back, redirected⟩ := exists_redirected legible ran
  have keeps := redirected.keepsFields grown
  obtain ⟨oldBody, newBody, found, rfl, body⟩ := redirected.body
  have named := (Member.texts_of_isCalled redirected.located.called).1
  have revised : MethodRevised plan after old (Method.setBody newBody old) :=
    .inr ⟨⟨name, grown.text named, concerned⟩, oldBody, newBody, found, rfl,
      revised_of_bodyRedirected member (keeps.resolveField legible.fields redirected.resolved)
        (keeps.name redirected.named) grown body⟩
  have methods : after.file.methods = front ++ Method.setBody newBody old :: back :=
    congrArg (fun enhancer => enhancer.file.methods) redirected.rest
  have same (methods : List Method) : List.Forall₂ (MethodRevised plan after) methods methods :=
    List.forall₂_same.mpr fun _ _ => .inl rfl
  exact {
    rest := by rw [methods]; exact redirected.rest
    pool := grown
    methods := by
      rw [redirected.located.methods, methods]
      exact List.rel_append (same front) (.cons revised (same back))
    count := by
      rw [redirected.located.methods, methods, Method.changesIn_append rfl, Method.changesIn_self,
        Nat.zero_add, Method.changesIn_cons, Method.changesIn_self, Nat.add_zero,
        changes_of_bodyRedirected found body]
    legible := redirected.legible grown legible }

end classes

end Enhancement

end JavaClass
