/-
Redirecting the uses of a field in a method. Every use that has an accessor becomes a call of it, as
many as are counted, and nothing else changes: not one other instruction of the method, no table of
its body, no other method and no other part of the class, apart from the constants that the calls
need, which are added at the end of the pool.
-/

import JavaClass.Proofs.Code.Revision
import JavaClass.Proofs.Descriptor
import JavaClass.Proofs.Enhancement.FieldSite
import JavaClass.Proofs.Enhancement.Members

namespace JavaClass.Enhancement

/-! ### What is looked up first -/

section resolved

variable {enhancer : Enhancer} {name : String} {descriptor : Option String}
  {field : ResolvedField}

/-- What a field that the class declares is resolved to. -/
theorem exists_of_resolveField_declared {declared : Field}
    (found : enhancer.file.field? name descriptor = some declared)
    (resolved : Enhancer.resolveField name descriptor enhancer = .ok field) :
    ∃ owner type, enhancer.file.name = .ok owner ∧
      enhancer.file.pool.text declared.descriptor = .ok type.descriptor ∧
      FieldType.parse type.descriptor = .ok type ∧
      field = { owner, name, type, isStatic := Field.isStatic declared
                ownerIsInterface := enhancer.file.isInterface } := by
  unfold Enhancer.resolveField at resolved
  simp only [found, Outcome.bind_eq_ok_iff, Outcome.pure_eq_ok_iff] at resolved
  obtain ⟨owner, named, text, read, type, typed, rfl⟩ := resolved
  unfold Enhancer.fieldType at typed
  split at typed
  · rename_i parsed
    obtain rfl := Except.ok.inj typed
    have spelt := (FieldType.parse_eq_ok_iff.mp parsed).2
    rw [← spelt] at read parsed
    exact ⟨owner, _, named, read, parsed, rfl⟩
  · cases typed

/-- What a field that the class does not declare is resolved to. -/
theorem exists_of_resolveField_inherited
    (missing : enhancer.file.field? name descriptor = none)
    (resolved : Enhancer.resolveField name descriptor enhancer = .ok field) :
    ∃ inherited ∈ enhancer.inherited,
      (∀ wanted ∈ descriptor, inherited.field.type.descriptor = wanted) ∧
        field = { owner := inherited.owner, name, type := inherited.field.type
                  isStatic := inherited.isStatic, ownerIsInterface := false } := by
  unfold Enhancer.resolveField at resolved
  simp only [missing] at resolved
  split at resolved
  · rename_i inherited found
    have isWanted := List.find?_some found
    obtain ⟨-, suits⟩ := Bool.and_eq_true_iff.mp isWanted
    refine ⟨inherited, List.mem_of_find?_eq_some found, fun wanted given => ?_,
      (Except.ok.inj resolved).symm⟩
    rw [Option.mem_def.mp given] at suits
    exact beq_iff_eq.mp suits
  · cases resolved

theorem name_of_resolveField
    (resolved : Enhancer.resolveField name descriptor enhancer = .ok field) :
    field.name = name := by
  cases found : enhancer.file.field? name descriptor with
  | some declared =>
    obtain ⟨_, _, -, -, -, rfl⟩ := exists_of_resolveField_declared found resolved
    rfl
  | none =>
    obtain ⟨_, -, -, rfl⟩ := exists_of_resolveField_inherited found resolved
    rfl

/-- A field is resolved to one of the class itself or of a class that it is known to inherit from.
-/
theorem owner_of_resolveField
    (resolved : Enhancer.resolveField name descriptor enhancer = .ok field) :
    enhancer.file.name = .ok field.owner ∨
      ∃ inherited ∈ enhancer.inherited, inherited.owner = field.owner := by
  cases found : enhancer.file.field? name descriptor with
  | some declared =>
    obtain ⟨_, _, named, -, -, rfl⟩ := exists_of_resolveField_declared found resolved
    exact .inl named
  | none =>
    obtain ⟨inherited, member, -, rfl⟩ := exists_of_resolveField_inherited found resolved
    exact .inr ⟨inherited, member, rfl⟩

/-- A class that has a field of the name and the type of a managed field declares that. -/
theorem isSome_field?_of_resolveField
    (resolved : Enhancer.resolveField name descriptor enhancer = .ok field)
    (present : (enhancer.file.field? name (some field.type.descriptor)).isSome = true) :
    (enhancer.file.field? name descriptor).isSome = true := by
  cases found : enhancer.file.field? name descriptor with
  | some declared => rfl
  | none =>
    obtain ⟨inherited, -, suits, rfl⟩ := exists_of_resolveField_inherited found resolved
    cases descriptor with
    | some wanted =>
      rw [suits wanted rfl, found] at present
      cases present
    | none =>
      obtain ⟨other, located⟩ := Option.isSome_iff_exists.mp present
      have calledSo := List.find?_some located
      obtain ⟨named, -⟩ := Bool.and_eq_true_iff.mp calledSo
      have called : other.isCalled enhancer.file.pool name none = true :=
        Bool.and_eq_true_iff.mpr ⟨named, rfl⟩
      exact absurd called (List.find?_eq_none.mp found other (List.mem_of_find?_eq_some located))

/-- A field has its accessors in an interface if it is declared by the interface at hand. -/
theorem ownerIsInterface_of_resolveField
    (resolved : Enhancer.resolveField name descriptor enhancer = .ok field) :
    field.ownerIsInterface = true ↔
      (enhancer.file.field? name descriptor).isSome = true ∧ enhancer.file.isInterface = true := by
  cases found : enhancer.file.field? name descriptor with
  | some declared =>
    obtain ⟨_, _, -, -, -, rfl⟩ := exists_of_resolveField_declared found resolved
    exact (and_iff_right rfl).symm
  | none =>
    obtain ⟨_, -, -, rfl⟩ := exists_of_resolveField_inherited found resolved
    simp

end resolved

/-- What is looked up in a class before the uses of a managed field in a method are sought. -/
structure Examined (enhancer : Enhancer) (methodName methodDescriptor : String)
    (managed : ManagedField) (field : ResolvedField) (user : String) (method : Method) (body : Body)
    (instructions : List Instruction) : Prop where
  resolved : Enhancer.resolveField managed.name managed.descriptor enhancer = .ok field
  named : enhancer.file.name = .ok user
  found : enhancer.file.method? methodName methodDescriptor = some method
  hasBody : Method.body? method = some body
  decoded : body.instructions = .ok instructions

/-- What is looked up does not depend on the field, apart from the field itself. -/
theorem Examined.unique {enhancer : Enhancer} {methodName methodDescriptor : String}
    {managed managedOther : ManagedField} {field other : ResolvedField} {user userOther : String}
    {method methodOther : Method} {body bodyOther : Body}
    {instructions instructionsOther : List Instruction}
    (examined : Examined enhancer methodName methodDescriptor managed field user method body
      instructions)
    (examinedOther : Examined enhancer methodName methodDescriptor managedOther other userOther
      methodOther bodyOther instructionsOther) :
    user = userOther ∧ method = methodOther ∧ body = bodyOther ∧
      instructions = instructionsOther := by
  obtain rfl := Except.ok.inj (examined.named.symm.trans examinedOther.named)
  obtain rfl := Option.some.inj (examined.found.symm.trans examinedOther.found)
  obtain rfl := Option.some.inj (examined.hasBody.symm.trans examinedOther.hasBody)
  obtain rfl := Except.ok.inj (examined.decoded.symm.trans examinedOther.decoded)
  exact ⟨rfl, rfl, rfl, rfl⟩

theorem redirections_eq_ok_iff {enhancer : Enhancer} {methodName methodDescriptor : String}
    {managed : ManagedField} {field : ResolvedField} {wanted : List Enhancer.Redirection} :
    Enhancer.redirections methodName methodDescriptor managed enhancer = .ok (field, wanted) ↔
      ∃ user method body instructions sites,
        Examined enhancer methodName methodDescriptor managed field user method body
          instructions ∧
        FieldSite.findAll enhancer.file.pool field user instructions = .ok sites ∧
        sites.filterMap (Redirection.ofSite? field managed.accessors) = wanted := by
  unfold Enhancer.redirections
  simp only [Outcome.bind_eq_ok_iff]
  constructor
  · rintro ⟨resolved, isResolved, user, named, found⟩
    split at found
    · rename_i body located
      simp only [Outcome.bind_eq_ok_iff, Outcome.pure_eq_ok_iff, Prod.mk.injEq] at found
      obtain ⟨instructions, decoded, sites, sought, rfl, rfl⟩ := found
      obtain ⟨method, isMethod, hasBody⟩ := Option.bind_eq_some_iff.mp located
      exact ⟨user, method, body, instructions, sites,
        ⟨isResolved, named, isMethod, hasBody, decoded⟩, sought, rfl⟩
    · cases found
  · rintro ⟨user, method, body, instructions, sites, examined, sought, rfl⟩
    have located : (enhancer.file.method? methodName methodDescriptor).bind Method.body? =
        some body := Option.bind_eq_some_iff.mpr ⟨method, examined.found, examined.hasBody⟩
    refine ⟨field, examined.resolved, user, examined.named, ?_⟩
    simp only [located, examined.decoded, Outcome.bind_eq_ok_iff]
    exact ⟨instructions, rfl, sites, sought, rfl⟩

theorem redirects_of_redirections {enhancer : Enhancer} {methodName methodDescriptor : String}
    {managed : ManagedField} {field : ResolvedField} {wanted : List Enhancer.Redirection}
    (found : Enhancer.redirections methodName methodDescriptor managed enhancer =
      .ok (field, wanted)) :
    ∃ user method body instructions,
      Examined enhancer methodName methodDescriptor managed field user method body instructions ∧
        Redirects enhancer.file.pool field user managed.accessors instructions wanted := by
  obtain ⟨user, method, body, instructions, sites, examined, sought, rfl⟩ :=
    redirections_eq_ok_iff.mp found
  exact ⟨user, method, body, instructions, examined, redirects_of_findAll sought⟩

/-! ### One body -/

/-- A body in which the uses of a field were redirected: its code was revised in place, as many
instructions were redirected as are counted, no branch was promoted and nothing but the code
changed. -/
structure BodyRedirected (before after : Pool) (field : ResolvedField) (user : String)
    (accessors : FieldAccessors) (old new : Body) (count : Nat) : Prop where
  maxStack : new.maxStack = old.maxStack
  maxLocals : new.maxLocals = old.maxLocals
  handlers : new.handlers = old.handlers
  attributes : new.attributes = old.attributes
  code : ∃ olds news,
    Code.Revised (Becomes before after field user accessors) old.code new.code olds news ∧
      count = olds.countP fun instruction => Redirectable before field user accessors instruction
  unpromoted : new = old ∨ ∃ edits relocation,
    Code.relocate old.code edits old.stackMap?.isNone = .ok relocation ∧
      relocation.code = new.code ∧ relocation.promotions = 0

section body

variable {before after : Pool} {field : ResolvedField} {user : String} {accessors : FieldAccessors}
  {body : Body} {instructions : List Instruction} {redirections : List Enhancer.Redirection}

/-- What becomes of a use that has an accessor is not the same again. -/
theorem Becomes.ne {old new : Instruction}
    (became : Becomes before after field user accessors old new)
    (redirectable : Redirectable before field user accessors old) : new ≠ old := by
  cases became with
  | kept other => exact absurd redirectable other
  | called uses _ calls =>
    rintro rfl
    exact FieldUse.opcode_ne_invokestatic _ (uses.1.symm.trans calls.1)

/-- A body without redirections stays as it is. -/
theorem bodyRedirected_of_nil (decoded : body.instructions = .ok instructions)
    (redirects : Redirects before field user accessors instructions []) :
    BodyRedirected before before field user accessors body body 0 where
  maxStack := rfl
  maxLocals := rfl
  handlers := rfl
  attributes := rfl
  code := by
    have none := redirects.length_eq
    refine ⟨instructions, instructions, .refl decoded fun instruction member => ?_, none⟩
    refine .kept fun redirectable => ?_
    have counted := List.countP_eq_zero.mp none.symm instruction member
    exact counted (decide_eq_true redirectable)
  unpromoted := .inl rfl

theorem bodyRedirected_of_edit {edits : List CodeEdit} {edited : Body} {map : OffsetMap}
    (decoded : body.instructions = .ok instructions) (fit : body.FramesFit)
    (redirects : Redirects before field user accessors instructions redirections)
    (calls : List.Forall₂ (CallsInstead after field) redirections edits)
    (ran : Body.edit edits body = (.ok map, edited)) :
    BodyRedirected before after field user accessors body edited edits.length := by
  have inPlace := inPlace_of_callsInstead decoded redirects calls
  obtain ⟨relocation, relocated, repaired, rfl⟩ :=
    Body.eq_of_edit_inPlace ran decoded inPlace fit
  exact {
    maxStack := rfl
    maxLocals := rfl
    handlers := rfl
    attributes := rfl
    code := by
      refine ⟨instructions, _, Code.revised_of_repaired repaired decoded
        (becomes_row decoded redirects calls) fun old member replaced new became => ?_, ?_⟩
      · exact became.ne (redirectable_of_replacementAt? decoded redirects calls member replaced)
      · rw [← calls.length_eq, redirects.length_eq]
    unpromoted := .inr ⟨edits, relocation, relocated, rfl, repaired.promotions_eq⟩ }

end body

/-! ### One class -/

/-- A class in which the uses of a field were redirected in a method: the method between `front`
and `back`, which is the first of its name and descriptor, has a new body, constants were added at
the end of the pool, and everything else is as it was. -/
structure Redirected (methodName methodDescriptor : String) (managed : ManagedField)
    (field : ResolvedField) (user : String) (front : List Method) (old new : Method)
    (back : List Method) (before after : Enhancer) (count : Nat) : Prop where
  resolved : Enhancer.resolveField managed.name managed.descriptor before = .ok field
  interface : field.ownerIsInterface = true ↔
    (before.file.field? managed.name managed.descriptor).isSome = true ∧
      before.file.isInterface = true
  named : before.file.name = .ok user
  located : before.file.Located methodName methodDescriptor front old back
  body : ∃ oldBody newBody, Method.body? old = some oldBody ∧ new = Method.setBody newBody old ∧
    BodyRedirected before.file.pool after.file.pool field user managed.accessors oldBody newBody
      count
  rest : after = { before with
    file := { before.file with pool := after.file.pool, methods := front ++ new :: back } }
  pool : before.file.pool.slots.toList <+: after.file.pool.slots.toList

section classes

variable {enhancer after : Enhancer} {name descriptor : String}

theorem exists_of_editMethod {edits : List CodeEdit} {nothing : Unit}
    (ran : Enhancer.editMethod name descriptor edits enhancer = (.ok nothing, after)) :
    ∃ method body edited map, enhancer.file.method? name descriptor = some method ∧
      Method.body? method = some body ∧ Body.edit edits body = (.ok map, edited) ∧
      after = { enhancer with
        file := enhancer.file.changeMethod name descriptor (Method.setBody edited) } := by
  unfold Enhancer.editMethod at ran
  cases found : (enhancer.file.method? name descriptor).bind Method.body? with
  | none =>
    rw [found] at ran
    cases ran
  | some body =>
    obtain ⟨method, isMethod, hasBody⟩ := Option.bind_eq_some_iff.mp found
    rw [found] at ran
    cases edit : Body.edit edits body with
    | mk result edited =>
      simp only [edit] at ran
      obtain ⟨succeeded, rfl⟩ := Prod.mk.inj ran
      cases result with
      | error error => cases succeeded
      | ok map => exact ⟨method, body, edited, map, isMethod, hasBody, edit, rfl⟩

/-- What carrying out redirections in the body of a method comes to: without any nothing is done,
and otherwise the constants of the calls are interned, and then the body is edited. -/
inductive Redirecting (name descriptor : String) (field : ResolvedField) (body : Body)
    (before : Enhancer) : List Enhancer.Redirection → Nat → Body → Enhancer → Prop
  | nothing : Redirecting name descriptor field body before [] 0 body before
  | edited {redirections : List Enhancer.Redirection} {edits : List CodeEdit} {pool : Pool}
      {map : OffsetMap} {edited : Body}
      (made : redirections.mapM (Enhancer.Redirection.edit field) before.file.pool =
        (.ok edits, pool))
      (ran : Body.edit edits body = (.ok map, edited)) :
      Redirecting name descriptor field body before redirections edits.length edited
        { before with
          file := { before.file with pool }.changeMethod name descriptor (Method.setBody edited) }

theorem exists_redirecting {managed : ManagedField} {count : Nat}
    (legible : enhancer.file.Legible)
    (ran : Enhancer.redirectFieldUses name descriptor managed enhancer = (.ok count, after)) :
    ∃ field user method body instructions sites edited,
      Examined enhancer name descriptor managed field user method body instructions ∧
        FieldSite.findAll enhancer.file.pool field user instructions = .ok sites ∧
        Redirecting name descriptor field body enhancer
          (sites.filterMap (Redirection.ofSite? field managed.accessors)) count edited after := by
  obtain ⟨⟨field, wanted⟩, middle, asked, ran⟩ := Stateful.bind_eq_ok_iff.mp ran
  obtain ⟨found, rfl⟩ := Enhancer.ask_eq_ok_iff.mp asked
  obtain ⟨user, method, body, instructions, sites, examined, sought, same⟩ :=
    redirections_eq_ok_iff.mp found
  subst same
  refine ⟨field, user, method, body, instructions, sites, ?_⟩
  cases wanted : sites.filterMap (Redirection.ofSite? field managed.accessors) with
  | nil =>
    rw [wanted] at ran
    obtain ⟨rfl, rfl⟩ := Stateful.pure_eq_ok_iff.mp ran
    exact ⟨body, examined, sought, .nothing⟩
  | cons first others =>
    rw [wanted] at ran
    have ran := Enhancer.atomically_eq_ok_iff.mp ran
    obtain ⟨edits, withConstants, added, ran⟩ := Stateful.bind_eq_ok_iff.mp ran
    obtain ⟨pool, made, rfl⟩ := Enhancer.addConstants_eq_iff.mp added
    obtain ⟨_, changed, edit, done⟩ := Stateful.bind_eq_ok_iff.mp ran
    obtain ⟨rfl, rfl⟩ := Stateful.pure_eq_ok_iff.mp done
    obtain ⟨sameMethod, sameBody, edited, map, isMethod, hasBody, editRan, rfl⟩ :=
      exists_of_editMethod edit
    have grown := ((Stateful.Always.mapM (Enhancer.always_editRedirection field)
      (first :: others)).relates made).grown
    have still : Member.locate? pool name (some descriptor) enhancer.file.methods = some method :=
      (Member.locate?_of_extends grown legible.methods name (some descriptor)).trans examined.found
    obtain rfl : sameMethod = method := Option.some.inj (isMethod.symm.trans still)
    obtain rfl : sameBody = body := Option.some.inj (hasBody.symm.trans examined.hasBody)
    exact ⟨edited, examined, sought, .edited made editRan⟩

theorem exists_redirected {managed : ManagedField} {count : Nat}
    (legible : enhancer.file.Legible)
    (ran : Enhancer.redirectFieldUses name descriptor managed enhancer = (.ok count, after)) :
    ∃ field user front old new back,
      Redirected name descriptor managed field user front old new back enhancer after count := by
  obtain ⟨field, user, method, body, instructions, sites, edited, examined, sought, redirecting⟩ :=
    exists_redirecting legible ran
  obtain ⟨front, back, located⟩ := ClassFile.exists_located examined.found
  have redirects : Redirects enhancer.file.pool field user managed.accessors instructions
      (sites.filterMap (Redirection.ofSite? field managed.accessors)) := redirects_of_findAll sought
  have interface := ownerIsInterface_of_resolveField examined.resolved
  generalize sites.filterMap (Redirection.ofSite? field managed.accessors) = wanted
    at redirecting redirects
  cases redirecting with
  | nothing =>
    refine ⟨field, user, front, method, method, back, examined.resolved, interface, examined.named,
      located, ⟨body, body, examined.hasBody, (Method.setBody_of_body? examined.hasBody).symm,
        bodyRedirected_of_nil examined.decoded redirects⟩, ?_, List.prefix_rfl⟩
    rw [← located.methods]
  | @edited _ edits pool _ _ made editRan =>
    have grown := ((Stateful.Always.mapM (Enhancer.always_editRedirection field)
      wanted).relates made).grown
    have calls := forall₂_callsInstead legible.pool made
    have fit := legible.bodies _ (List.mem_of_find?_eq_some examined.found) _ examined.hasBody
    have changed := (located.extends legible grown).changeMethod_eq (Method.setBody edited)
    refine ⟨field, user, front, method, _, back, examined.resolved, interface, examined.named,
      located, ⟨body, edited, examined.hasBody, rfl,
        bodyRedirected_of_edit examined.decoded fit redirects calls editRan⟩, ?_,
      grown.slots_prefix⟩
    exact congrArg (fun file => { enhancer with file := file }) changed

end classes

/-- What redirecting the uses of a field in a method of a class that was read comes to, whatever the
class inherits and whatever is reported. -/
theorem exists_redirected_of_read {bytes : Bytes} {file : ClassFile}
    (read : ClassFile.read bytes = .ok file) {reporting : Reporting}
    {inherited : List InheritedField} {methodName methodDescriptor : String}
    {managed : ManagedField} {count : Nat} {after : Enhancer}
    (ran : Enhancer.redirectFieldUses methodName methodDescriptor managed
      (.ofClass reporting inherited file) = (.ok count, after)) :
    ∃ field user front old new back,
      Redirected methodName methodDescriptor managed field user front old new back
        (.ofClass reporting inherited file) after count :=
  exists_redirected (ClassFile.read_eq_ok_iff.mp read).1.legible ran

/-- A class with a static field and a method that reads it, drops it, reads it again and writes it.
-/
def fileOfUses : Bytes :=
  [0xCA, 0xFE, 0xBA, 0xBE, 0, 0, 0, 52,
    0, 10, 1, 0, 1, 65, 7, 0, 1, 1, 0, 1, 120, 1, 0, 1, 73, 12, 0, 3, 0, 4, 9, 0, 2, 0, 5,
    1, 0, 1, 109, 1, 0, 3, 40, 41, 86, 1, 0, 4, 67, 111, 100, 101,
    0, 33, 0, 2, 0, 0, 0, 0,
    0, 1, 0, 8, 0, 3, 0, 4, 0, 0,
    0, 1, 0, 9, 0, 7, 0, 8, 0, 1,
    0, 9, 0, 0, 0, 23, 0, 1, 0, 0, 0, 0, 0, 11,
    178, 0, 6, 87, 178, 0, 6, 179, 0, 6, 177, 0, 0, 0, 0,
    0, 0]

/-- With a method to read the field through and none to write it, two of three uses are redirected.
-/
theorem exists_redirected_of_read_fileOfUses :
    ∃ file after, ClassFile.read fileOfUses = .ok file ∧
      Enhancer.redirectFieldUses "m" "()V" ⟨"x", none, ⟨some "g", none⟩⟩
        (.ofClass .silent [] file) = (.ok 2, after) ∧
      ∃ field user front old new back,
        Redirected "m" "()V" ⟨"x", none, ⟨some "g", none⟩⟩ field user front old new back
          (.ofClass .silent [] file) after 2 := by
  have counted : (ClassFile.read fileOfUses).map (fun file =>
      (Enhancer.redirectFieldUses "m" "()V" ⟨"x", none, ⟨some "g", none⟩⟩
        (.ofClass .silent [] file)).1) = .ok (.ok 2) := by
    decide +kernel
  cases read : ClassFile.read fileOfUses with
  | error error =>
    rw [read] at counted
    cases counted
  | ok file =>
    rw [read] at counted
    cases ran : Enhancer.redirectFieldUses "m" "()V" ⟨"x", none, ⟨some "g", none⟩⟩
        (.ofClass .silent [] file) with
    | mk result after =>
      simp only [Except.map, ran, Except.ok.injEq] at counted
      subst counted
      exact ⟨file, after, rfl, ran, exists_redirected_of_read read ran⟩

end JavaClass.Enhancement
