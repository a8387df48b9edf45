/-
No two members alike. Two fields of one class must not agree in name and descriptor, nor must two
methods, and no interface may be named twice. A class that was read may break this, and then it
stays broken; but what operations add is not there yet, and what they add together differs, so a
class in which members and interfaces can be told apart stays one, whatever is done to it and
however that ends.

What is compared are bytes, since a name that cannot be decoded is a name too. Interfaces are also
looked for by their texts, which are fewer than the bytes they are decoded from, so that no text is
the name of two interfaces is kept as well and does not follow.
-/

import JavaClass.Proofs.Enhancement.AccessorLookup
import JavaClass.Proofs.Enhancement.Operations

namespace JavaClass

/-! ### What members are told apart by -/

namespace Member

variable {holder : FlagHolder} {before after : Pool} {name descriptor : String}

/-- The bytes of the name and of the descriptor of a member. -/
def key (pool : Pool) (member : Member holder) : Except Error Bytes × Except Error Bytes :=
  (pool.utf8 member.name, pool.utf8 member.descriptor)

/-- The bytes that members of a name and a descriptor have. -/
def keyOf (name descriptor : String) : Except Error Bytes × Except Error Bytes :=
  (.ok (Text.ModifiedUtf8.encode name), .ok (Text.ModifiedUtf8.encode descriptor))

theorem isCalled_iff_key {pool : Pool} {member : Member holder} :
    member.isCalled pool name (some descriptor) = true ↔
      member.key pool = keyOf name descriptor := by
  rw [isCalled, Bool.and_eq_true_iff, Pool.holdsText_iff, Pool.holdsText_iff, key, keyOf,
    Prod.mk.injEq]

theorem descriptor_eq_of_keyOf {otherName otherDescriptor : String}
    (same : keyOf name descriptor = keyOf otherName otherDescriptor) :
    descriptor = otherDescriptor :=
  Text.ModifiedUtf8.encode_injective (Except.ok.inj (Prod.mk.inj same).2)

theorem locate?_eq_none_iff {pool : Pool} {members : List (Member holder)} :
    locate? pool name (some descriptor) members = none ↔
      ∀ member ∈ members, member.key pool ≠ keyOf name descriptor := by
  rw [locate?, List.find?_eq_none]
  exact forall₂_congr fun member _ => not_congr isCalled_iff_key

theorem key_of_extends (grown : before.Extends after) {member : Member holder}
    (legible : member.Legible before) : member.key after = member.key before := by
  obtain ⟨⟨nameBytes, nameFound⟩, descriptorBytes, descriptorFound⟩ := legible
  rw [key, key, nameFound, descriptorFound, grown.utf8 nameFound, grown.utf8 descriptorFound]

theorem keys_of_extends (grown : before.Extends after) {members : List (Member holder)}
    (legible : ∀ member ∈ members, member.Legible before) :
    members.map (key after) = members.map (key before) :=
  List.map_congr_left fun member inMembers => key_of_extends grown (legible member inMembers)

/-- Members that are put behind others, all of them called what none of the others is called. -/
theorem nodup_keys_append (grown : before.Extends after) {members added : List (Member holder)}
    (legible : ∀ member ∈ members, member.Legible before)
    (missing : ∀ member ∈ added, ∃ name descriptor,
      member.isCalled after name (some descriptor) = true ∧
        locate? before name (some descriptor) members = none)
    (addedApart : (added.map (key after)).Nodup) (apart : (members.map (key before)).Nodup) :
    ((members ++ added).map (key after)).Nodup := by
  rw [List.map_append, keys_of_extends grown legible, List.nodup_append]
  refine ⟨apart, addedApart, fun old oldMember new newMember same => ?_⟩
  obtain ⟨member, inMembers, rfl⟩ := List.mem_map.mp oldMember
  obtain ⟨other, inAdded, rfl⟩ := List.mem_map.mp newMember
  obtain ⟨name, descriptor, called, absent⟩ := missing other inAdded
  rw [isCalled_iff_key.mp called] at same
  exact locate?_eq_none_iff.mp absent member inMembers same

/-- A member that was put behind others, none of which is called like it, while the pool grew. -/
structure Appended (name descriptor : String) (before after : Pool) (members : List (Member holder))
    (member : Member holder) : Prop where
  grown : before.Extends after
  missing : locate? before name (some descriptor) members = none
  called : member.isCalled after name (some descriptor) = true

section appended

variable {members : List (Member holder)} {member : Member holder}
  (appended : Appended name descriptor before after members member)
  (legible : ∀ member ∈ members, member.Legible before)

include appended legible

/-- It is the one that is found under its name and descriptor. -/
theorem Appended.locate?_eq :
    locate? after name (some descriptor) (members ++ [member]) = some member := by
  have absent := (locate?_of_extends appended.grown legible name (some descriptor)).trans
    appended.missing
  rw [locate?] at absent ⊢
  rw [List.find?_append, absent, Option.none_or, List.find?_cons_of_pos appended.called]

theorem Appended.nodup_keys (apart : (members.map (key before)).Nodup) :
    ((members ++ [member]).map (key after)).Nodup := by
  refine nodup_keys_append appended.grown legible (List.forall_mem_singleton.mpr ?_)
    (List.nodup_singleton _) apart
  exact ⟨name, descriptor, appended.called, appended.missing⟩

end appended

end Member

/-! ### What interfaces are told apart by -/

/-- The bytes of the name of a class. -/
def Pool.classBytes (pool : Pool) (index : UInt16) : Except Error Bytes := do
  pool.utf8 (← pool.classEntry index)

theorem Pool.Extends.classBytes {before after : Pool} (grown : before.Extends after)
    {index : UInt16} {bytes : Bytes} (found : before.classBytes index = .ok bytes) :
    after.classBytes index = .ok bytes := by
  obtain ⟨entry, entered, held⟩ := Outcome.bind_eq_ok_iff.mp found
  exact Outcome.bind_eq_ok_iff.mpr ⟨entry, grown.lookup entered, grown.utf8 held⟩

theorem Pool.exists_classBytes_of_className {pool : Pool} {index : UInt16} {name : String}
    (named : pool.className index = .ok name) : ∃ bytes, pool.classBytes index = .ok bytes := by
  obtain ⟨entry, entered, text⟩ := Outcome.bind_eq_ok_iff.mp named
  obtain ⟨bytes, held, -⟩ := Outcome.bind_eq_ok_iff.mp text
  exact ⟨bytes, Outcome.bind_eq_ok_iff.mpr ⟨entry, entered, held⟩⟩

/-- Names of the same bytes are the same text or, both of them, none. -/
theorem Pool.className_eq_of_classBytes {pool other : Pool} {first second : UInt16} {bytes : Bytes}
    (firstFound : pool.classBytes first = .ok bytes)
    (secondFound : other.classBytes second = .ok bytes) :
    pool.className first = other.className second := by
  obtain ⟨firstEntry, firstEntered, firstHeld⟩ := Outcome.bind_eq_ok_iff.mp firstFound
  obtain ⟨secondEntry, secondEntered, secondHeld⟩ := Outcome.bind_eq_ok_iff.mp secondFound
  simp only [Pool.className, Pool.text, firstEntered, secondEntered, firstHeld, secondHeld, bind,
    Except.bind]

namespace ClassFile

/-- The bytes that the fields of a class are told apart by. -/
def fieldKeys (file : ClassFile) : List (Except Error Bytes × Except Error Bytes) :=
  file.fields.map (Member.key file.pool)

/-- The bytes that the methods of a class are told apart by. -/
def methodKeys (file : ClassFile) : List (Except Error Bytes × Except Error Bytes) :=
  file.methods.map (Member.key file.pool)

/-- The bytes of the names of the interfaces of a class. -/
def interfaceBytes (file : ClassFile) : List (Except Error Bytes) :=
  file.interfaces.map file.pool.classBytes

/-- The names of the interfaces of a class, as far as they can be decoded. -/
def interfaceTexts (file : ClassFile) : List String :=
  file.interfaces.filterMap fun index => (file.pool.className index).toOption

theorem mem_interfaceTexts_iff {file : ClassFile} {name : String} :
    name ∈ file.interfaceTexts ↔ file.implements name = true := by
  rw [interfaceTexts, List.mem_filterMap, implements, List.any_eq_true]
  simp only [beq_iff_eq]

/-- A class whose members and interfaces have names. -/
structure Named (file : ClassFile) : Prop where
  legible : file.Legible
  interfaces : ∀ index ∈ file.interfaces, ∃ bytes, file.pool.classBytes index = .ok bytes

theorem WellFormed.named {file : ClassFile} (proper : file.WellFormed) : file.Named where
  legible := proper.legible
  interfaces := by
    intro index member
    obtain ⟨entry, entered⟩ := proper.interfaces index member
    obtain ⟨bytes, held⟩ := Pool.exists_utf8_of_classEntry proper.references entered
    exact ⟨bytes, Outcome.bind_eq_ok_iff.mpr ⟨entry, entered, held⟩⟩

theorem Named.classBytes_notMem {file : ClassFile} (named : file.Named) {name : String}
    (absent : name ∉ file.interfaceTexts) {pool : Pool} {index : UInt16}
    (found : pool.className index = .ok name) :
    pool.classBytes index ∉ file.interfaceBytes := by
  intro present
  obtain ⟨held, member, same⟩ := List.mem_map.mp present
  obtain ⟨bytes, heldFound⟩ := named.interfaces held member
  have sameName : file.pool.className held = pool.className index :=
    Pool.className_eq_of_classBytes heldFound (same.symm.trans heldFound)
  refine absent (List.mem_filterMap.mpr ⟨held, member, ?_⟩)
  rw [sameName, found]
  rfl

/-- Whether what could be told apart in a class can be told apart in what it became: fields and
methods by name and descriptor, interfaces by the bytes of their names and by their texts. -/
structure KeepsApart (before after : ClassFile) : Prop where
  fields : before.fieldKeys.Nodup → after.fieldKeys.Nodup
  methods : before.methodKeys.Nodup → after.methodKeys.Nodup
  interfaces : before.interfaceBytes.Nodup → after.interfaceBytes.Nodup
  texts : before.interfaceTexts.Nodup → after.interfaceTexts.Nodup

theorem KeepsApart.refl (file : ClassFile) : file.KeepsApart file := ⟨id, id, id, id⟩

theorem KeepsApart.trans {before middle after : ClassFile} (first : before.KeepsApart middle)
    (later : middle.KeepsApart after) : before.KeepsApart after where
  fields := fun apart => later.fields (first.fields apart)
  methods := fun apart => later.methods (first.methods apart)
  interfaces := fun apart => later.interfaces (first.interfaces apart)
  texts := fun apart => later.texts (first.texts apart)

section named

variable {file : ClassFile} (named : file.Named) {pool : Pool} (grown : file.pool.Extends pool)

include named grown

theorem Named.classBytes_eq {index : UInt16} (member : index ∈ file.interfaces) :
    pool.classBytes index = file.pool.classBytes index := by
  obtain ⟨bytes, found⟩ := named.interfaces index member
  rw [found, grown.classBytes found]

theorem Named.className_eq {index : UInt16} (member : index ∈ file.interfaces) :
    pool.className index = file.pool.className index := by
  obtain ⟨bytes, found⟩ := named.interfaces index member
  exact Pool.className_eq_of_classBytes (grown.classBytes found) found

theorem Named.interfaceBytes_eq :
    file.interfaces.map pool.classBytes = file.interfaceBytes :=
  List.map_congr_left fun _ member => named.classBytes_eq grown member

theorem Named.interfaceTexts_eq :
    (file.interfaces.filterMap fun index => (pool.className index).toOption) =
      file.interfaceTexts :=
  List.filterMap_congr fun _ member => by rw [named.className_eq grown member]

/-- Whatever has become of the pool, nothing else was touched. -/
theorem KeepsApart.withPool : file.KeepsApart { file with pool } where
  fields := by
    intro apart
    rwa [fieldKeys, Member.keys_of_extends grown named.legible.fields]
  methods := by
    intro apart
    rwa [methodKeys, Member.keys_of_extends grown named.legible.methods]
  interfaces := by
    intro apart
    rwa [interfaceBytes, named.interfaceBytes_eq grown]
  texts := by
    intro apart
    rwa [interfaceTexts, named.interfaceTexts_eq grown]

/-- An interface of a name that no interface has yet. -/
theorem KeepsApart.withInterface {name : String} (absent : file.implements name = false)
    {index : UInt16} (found : pool.className index = .ok name) :
    file.KeepsApart (file.withInterface pool index) := by
  have missing : name ∉ file.interfaceTexts := by
    rw [mem_interfaceTexts_iff, absent]
    exact Bool.false_ne_true
  refine { KeepsApart.withPool named grown with interfaces := ?_, texts := ?_ }
  · intro apart
    have row : (file.withInterface pool index).interfaceBytes =
        file.interfaceBytes.concat (pool.classBytes index) := by
      rw [← named.interfaceBytes_eq grown, List.concat_eq_append]
      exact List.map_append
    rw [row]
    exact apart.concat (named.classBytes_notMem missing found)
  · intro apart
    have last : ([index].filterMap fun index => (pool.className index).toOption) = [name] := by
      rw [List.filterMap_cons, found]
      rfl
    have row : (file.withInterface pool index).interfaceTexts =
        file.interfaceTexts.concat name := by
      rw [← named.interfaceTexts_eq grown, List.concat_eq_append, ← last]
      exact List.filterMap_append
    rw [row]
    exact apart.concat missing

/-- A field of a name and descriptor that no field has yet. -/
theorem KeepsApart.withField {name descriptor : String} {field : Field}
    (appended : Member.Appended name descriptor file.pool pool file.fields field) :
    file.KeepsApart { file with pool, fields := file.fields ++ [field] } :=
  { KeepsApart.withPool named grown with
    fields := appended.nodup_keys named.legible.fields }

/-- Methods that differ from each other, of names and descriptors that no method has yet. -/
theorem KeepsApart.withMethods {added : List Method}
    (missing : ∀ method ∈ added, ∃ name descriptor,
      method.isCalled pool name (some descriptor) = true ∧ file.method? name descriptor = none)
    (addedApart : (added.map (Member.key pool)).Nodup) :
    file.KeepsApart { file with pool, methods := file.methods ++ added } :=
  { KeepsApart.withPool named grown with
    methods := Member.nodup_keys_append grown named.legible.methods missing addedApart }

/-- A method in place of one of the same name and descriptor. -/
theorem KeepsApart.withMethod {front back : List Method} {old new : Method}
    (methods : file.methods = front ++ old :: back) (name : new.name = old.name)
    (descriptor : new.descriptor = old.descriptor) :
    file.KeepsApart { file with pool, methods := front ++ new :: back } := by
  refine { KeepsApart.withPool named grown with methods := fun apart => ?_ }
  have same : (front ++ new :: back).map (Member.key pool) = file.methodKeys := by
    rw [methodKeys, ← Member.keys_of_extends grown named.legible.methods, methods, List.map_append,
      List.map_append, List.map_cons, List.map_cons, Member.key, Member.key, name, descriptor]
  rw [methodKeys, same]
  exact apart

end named

end ClassFile

/-! ### What operations add -/

namespace Enhancement

open Enhancer

/-- A class to which nothing but a field was added, of a name and descriptor that no field had, and
constants. -/
def FieldAppended (name descriptor : String) (before after : Enhancer) : Prop :=
  ∃ field,
    Member.Appended name descriptor before.file.pool after.file.pool before.file.fields field ∧
      after = { before with file := { before.file with
        pool := after.file.pool, fields := before.file.fields ++ [field] } }

/-- A class to which nothing but a method was added, of a name and descriptor that no method had,
and constants. -/
def MethodAppended (name descriptor : String) (before after : Enhancer) : Prop :=
  ∃ method,
    Member.Appended name descriptor before.file.pool after.file.pool before.file.methods method ∧
      after = { before with file := { before.file with
        pool := after.file.pool, methods := before.file.methods ++ [method] } }

section operations

variable {before after : Enhancer}

theorem fieldAppended_of_addField (legible : before.file.Legible) {name descriptor : String}
    {flags : FieldFlags} {nothing : Unit}
    (ran : addField name descriptor flags before = (.ok nothing, after)) :
    FieldAppended name descriptor before after := by
  obtain ⟨-, missing, field, pool, made, rfl⟩ := addField_eq_ok_iff.mp ran
  obtain ⟨grown, called, -⟩ := memberWithoutAttributes_ok legible.pool made
  exact ⟨field, ⟨grown, missing, called⟩, rfl⟩

theorem descriptor_of_methodType {descriptor : String} {type : MethodType}
    (typed : methodType descriptor = .ok type) : type.descriptor = descriptor := by
  unfold methodType at typed
  split at typed
  · rename_i parsed
    rw [← Except.ok.inj typed]
    exact (MethodType.parse_eq_ok_iff.mp parsed).2
  · cases typed

/-- The descriptor is spelt anew from the type that it was read as, and comes out as it was. -/
theorem methodAppended_of_addMethod (legible : before.file.Legible) {name descriptor : String}
    {flags : MethodFlags} {steps : List CodeStep} {nothing : Unit}
    (ran : addMethod name descriptor flags steps before = (.ok nothing, after)) :
    MethodAppended name descriptor before after := by
  obtain ⟨type, typed, missing, method, pool, made, rfl⟩ := addMethod_eq_ok_iff.mp ran
  obtain ⟨_, _, -, -, called, -⟩ := exists_of_buildMethod legible.pool made
  rw [descriptor_of_methodType typed] at called
  have grown := (always_buildMethod (CodeStep.always_runAll steps) name type flags).relates made
  exact ⟨method, ⟨grown, missing, called⟩, rfl⟩

theorem methodAppended_of_addAbstractMethod (legible : before.file.Legible)
    {name descriptor : String} {flags : MethodFlags} {nothing : Unit}
    (ran : addAbstractMethod name descriptor flags before = (.ok nothing, after)) :
    MethodAppended name descriptor before after := by
  obtain ⟨-, missing, method, pool, made, rfl⟩ := addAbstractMethod_eq_ok_iff.mp ran
  obtain ⟨grown, called, -⟩ := memberWithoutAttributes_ok legible.pool made
  exact ⟨method, ⟨grown, missing, called⟩, rfl⟩

/-! ### Operations keep members apart -/

/-- Whether a class whose members and interfaces have names has become one of which the same holds,
in which everything can be told apart that could be before. -/
def Distinguishes (before after : Enhancer) : Prop :=
  before.file.Named → after.file.Named ∧ before.file.KeepsApart after.file

instance : IsPreorder Enhancer Distinguishes where
  refl _ := fun named => ⟨named, .refl _⟩
  trans _ _ _ first later := by
    intro named
    obtain ⟨namedMiddle, apart⟩ := first named
    obtain ⟨namedAfter, apartLater⟩ := later namedMiddle
    exact ⟨namedAfter, apart.trans apartLater⟩

/-- Interfaces that an operation adds nothing to have their names still. -/
theorem Altered.named {operation : Operation} {before after : ClassFile}
    (altered : Altered operation before after) (same : after.interfaces = before.interfaces)
    (named : before.Named) : after.Named where
  legible := altered.legible named.legible
  interfaces := by
    rw [same]
    intro index member
    obtain ⟨bytes, found⟩ := named.interfaces index member
    exact ⟨bytes, altered.pool.classBytes found⟩

theorem distinguishes_of_error {operation : Operation} {error : Error}
    (failed : operation.run before = (.error error, after)) : Distinguishes before after := by
  intro named
  obtain ⟨pool, grown, rfl⟩ := exists_of_run_error named.legible.pool failed
  exact ⟨(Altered.withPool operation grown).named rfl named, .withPool named grown⟩

theorem distinguishes_of_addInterface {name : String} {isNew : Bool}
    (ran : addInterface name before = (.ok isNew, after)) : Distinguishes before after := by
  intro named
  obtain ⟨_, -, ⟨-, rfl⟩ | ⟨absent, pool, index, grown, found, rfl⟩⟩ :=
    exists_of_addInterface named.legible ran
  · exact ⟨named, .refl _⟩
  · refine ⟨⟨named.legible.withInterface grown index, ?_⟩, .withInterface named grown absent found⟩
    refine List.forall_mem_append.mpr ⟨fun held member => ?_, List.forall_mem_singleton.mpr ?_⟩
    · obtain ⟨bytes, known⟩ := named.interfaces held member
      exact ⟨bytes, grown.classBytes known⟩
    · exact Pool.exists_classBytes_of_className found

theorem distinguishes_of_addField {name descriptor : String} {flags : FieldFlags} {nothing : Unit}
    (ran : addField name descriptor flags before = (.ok nothing, after)) :
    Distinguishes before after := by
  intro named
  obtain ⟨field, appended, rest⟩ := fieldAppended_of_addField named.legible ran
  refine ⟨(altered_of_addField named.legible ran).named (by rw [rest]) named, ?_⟩
  rw [rest]
  exact .withField named appended.grown appended

theorem distinguishes_of_methodAppended {name descriptor : String} {operation : Operation}
    (altered : before.file.Legible → Altered operation before.file after.file)
    (appends : before.file.Legible → MethodAppended name descriptor before after) :
    Distinguishes before after := by
  intro named
  obtain ⟨method, appended, rest⟩ := appends named.legible
  refine ⟨(altered named.legible).named (by rw [rest]) named, ?_⟩
  rw [rest]
  exact .withMethods named appended.grown
    (List.forall_mem_singleton.mpr ⟨name, descriptor, appended.called, appended.missing⟩)
    (List.nodup_singleton _)

/-- The accessors of a field are for different directions. -/
theorem pairwise_wantedAccessors (accessors : FieldAccessors) :
    (wantedAccessors accessors).Pairwise fun first second => first.1 ≠ second.1 := by
  obtain ⟨getter, setter⟩ := accessors
  cases getter <;> cases setter <;> simp [wantedAccessors]

theorem distinguishes_of_addAccessors {managed : ManagedField} {nothing : Unit}
    (ran : addAccessors managed before = (.ok nothing, after)) : Distinguishes before after := by
  intro named
  obtain ⟨field, declared, added, made⟩ := exists_accessorsMade named.legible ran
  have same : after.file.interfaces = before.file.interfaces := by
    rw [made.rest]
  refine ⟨(altered_of_addAccessors named.legible ran).named same named, ?_⟩
  rw [made.rest]
  refine .withMethods named made.pool (fun method member => ?_) ?_
  · obtain ⟨wanted, isWanted, called, -⟩ := exists_mem_of_forall₂_right made.made member
    exact ⟨_, _, called, made.missing wanted isWanted⟩
  · refine List.pairwise_map.mpr
      (pairwise_of_forall₂ (fun first later apart same => ?_) made.made
        (pairwise_wantedAccessors managed.accessors))
    rw [Member.isCalled_iff_key.mp first.1, Member.isCalled_iff_key.mp later.1] at same
    exact apart (accessorType_descriptor_inj (Member.descriptor_eq_of_keyOf same))

theorem distinguishes_of_redirectFieldUses {name descriptor : String} {managed : ManagedField}
    {count : Nat} (ran : redirectFieldUses name descriptor managed before = (.ok count, after)) :
    Distinguishes before after := by
  intro named
  have altered := altered_of_redirectFieldUses named.legible ran
  obtain ⟨field, user, front, old, new, back, redirected⟩ := exists_redirected named.legible ran
  have same : after.file.interfaces = before.file.interfaces := by
    rw [redirected.rest]
  refine ⟨altered.named same named, ?_⟩
  obtain ⟨oldBody, newBody, -, rfl, -⟩ := redirected.body
  rw [redirected.rest]
  exact .withMethod named altered.pool redirected.located.methods rfl rfl

end operations

/-- An operation that keeps what is told apart if it succeeds does so however it ends. -/
theorem Operation.always_distinguishes {operation : Operation}
    (succeeds : ∀ before after nothing, operation.run before = (.ok nothing, after) →
      Distinguishes before after) : Stateful.Always Distinguishes operation.run := by
  intro before
  cases ran : operation.run before with
  | mk result after =>
    cases result with
    | error error => exact distinguishes_of_error ran
    | ok nothing => exact succeeds before after nothing ran

namespace Enhancer

theorem always_distinguishes_addInterface (name : String) :
    Stateful.Always Distinguishes (Operation.addInterface name).run :=
  Operation.always_distinguishes fun _ _ _ ran => by
    obtain ⟨isNew, ran⟩ := Stateful.discard_eq_ok_iff.mp ran
    exact distinguishes_of_addInterface ran

theorem always_distinguishes_addField (name descriptor : String) (flags : FieldFlags) :
    Stateful.Always Distinguishes (Operation.addField name descriptor flags).run :=
  Operation.always_distinguishes fun _ _ _ ran => distinguishes_of_addField ran

theorem always_distinguishes_addMethod (name descriptor : String) (flags : MethodFlags)
    (steps : List CodeStep) :
    Stateful.Always Distinguishes (Operation.addMethod name descriptor flags steps).run :=
  Operation.always_distinguishes fun _ _ _ ran =>
    distinguishes_of_methodAppended (fun legible => altered_of_addMethod legible ran)
      fun legible => methodAppended_of_addMethod legible ran

theorem always_distinguishes_addAbstractMethod (name descriptor : String) (flags : MethodFlags) :
    Stateful.Always Distinguishes (Operation.addAbstractMethod name descriptor flags).run :=
  Operation.always_distinguishes fun _ _ _ ran =>
    distinguishes_of_methodAppended (fun legible => altered_of_addAbstractMethod legible ran)
      fun legible => methodAppended_of_addAbstractMethod legible ran

theorem always_distinguishes_addAccessors (managed : ManagedField) :
    Stateful.Always Distinguishes (Operation.addAccessors managed).run :=
  Operation.always_distinguishes fun _ _ _ ran => distinguishes_of_addAccessors ran

theorem always_distinguishes_redirectFieldUses (name descriptor : String)
    (managed : ManagedField) :
    Stateful.Always Distinguishes (redirectFieldUses name descriptor managed) := by
  intro before
  cases ran : redirectFieldUses name descriptor managed before with
  | mk result after =>
    cases result with
    | error error =>
      have failed : (Operation.redirectFieldUses name descriptor managed).run before =
        (.error error, after) := Stateful.discard_eq_error_iff.mpr ran
      exact distinguishes_of_error failed
    | ok count => exact distinguishes_of_redirectFieldUses ran

theorem always_distinguishes_applySteps (plan : Plan) :
    Stateful.Always Distinguishes (applySteps plan) := by
  refine always_applySteps_of_parts (fun fields _ => ?_) always_distinguishes_addInterface
    always_distinguishes_addField always_distinguishes_addAccessors
    always_distinguishes_redirectFieldUses plan
  exact fun named => ⟨named, .refl _⟩

end Enhancer

theorem distinguishes_of_apply {before after : Enhancer} {plan : Plan} {count : Nat}
    (ran : apply plan before = (.ok count, after)) : Distinguishes before after :=
  (always_distinguishes_applySteps plan).relates (apply_eq_ok_iff.mp ran)

/-- Whatever is done to a class, and however it ends, what can be told apart stays so. -/
theorem distinguishes_of_run (before : Enhancer) (operation : Operation) :
    Distinguishes before (operation.run before).2 := by
  cases operation with
  | addInterface name => exact always_distinguishes_addInterface name before
  | addField name descriptor flags =>
    exact always_distinguishes_addField name descriptor flags before
  | addMethod name descriptor flags steps =>
    exact always_distinguishes_addMethod name descriptor flags steps before
  | addAbstractMethod name descriptor flags =>
    exact always_distinguishes_addAbstractMethod name descriptor flags before
  | addAccessors managed => exact always_distinguishes_addAccessors managed before
  | redirectFieldUses name descriptor managed =>
    exact (always_distinguishes_redirectFieldUses name descriptor managed).discard before
  | apply plan =>
    refine Operation.always_distinguishes (fun before after nothing ran => ?_) before
    obtain ⟨count, ran⟩ := Stateful.discard_eq_ok_iff.mp ran
    exact distinguishes_of_apply ran

/-! ### Everything that can be reached -/

/-- What a class can come to by operations, whether or not they succeed. What it inherits and what
is reported may be set anew at any time. -/
inductive ReachableFrom (file : ClassFile) : Enhancer → Prop
  | start (reporting : Reporting) (inherited : List InheritedField) :
      ReachableFrom file (.ofClass reporting inherited file)
  | resume {enhancer : Enhancer} (reachable : ReachableFrom file enhancer)
      (reporting : Reporting) (inherited : List InheritedField) :
      ReachableFrom file (.ofClass reporting inherited enhancer.file)
  | operate {enhancer : Enhancer} (reachable : ReachableFrom file enhancer)
      (operation : Operation) : ReachableFrom file (operation.run enhancer).2

theorem ReachableFrom.distinguishes {file : ClassFile} {enhancer : Enhancer}
    (reachable : ReachableFrom file enhancer) (named : file.Named) :
    enhancer.file.Named ∧ file.KeepsApart enhancer.file := by
  induction reachable with
  | start => exact ⟨named, .refl _⟩
  | resume _ _ _ inductionHypothesis => exact inductionHypothesis
  | operate _ operation inductionHypothesis =>
    obtain ⟨namedHere, apart⟩ := inductionHypothesis
    obtain ⟨namedAfter, apartLater⟩ := distinguishes_of_run _ operation namedHere
    exact ⟨namedAfter, apart.trans apartLater⟩

/-- Whether a class became another one by a field put behind those it had, none of which is of that
name and descriptor, and which is the one that is found. -/
def AppendsField (name descriptor : String) (before after : ClassFile) : Prop :=
  ∃ field, after.fields = before.fields ++ [field] ∧ after.methods = before.methods ∧
    before.field? name (some descriptor) = none ∧
    after.field? name (some descriptor) = some field

/-- Whether a class became another one by a method put behind those it had, none of which is of that
name and descriptor, and which is the one that is found. -/
def AppendsMethod (name descriptor : String) (before after : ClassFile) : Prop :=
  ∃ method, after.methods = before.methods ++ [method] ∧ after.fields = before.fields ∧
    before.method? name descriptor = none ∧ after.method? name descriptor = some method

section additions

variable {before after : Enhancer} {name descriptor : String}

theorem FieldAppended.appendsField (appends : FieldAppended name descriptor before after)
    (legible : before.file.Legible) : AppendsField name descriptor before.file after.file := by
  obtain ⟨field, appended, rest⟩ := appends
  rw [rest]
  exact ⟨field, rfl, rfl, appended.missing, appended.locate?_eq legible.fields⟩

theorem MethodAppended.appendsMethod (appends : MethodAppended name descriptor before after)
    (legible : before.file.Legible) : AppendsMethod name descriptor before.file after.file := by
  obtain ⟨method, appended, rest⟩ := appends
  rw [rest]
  exact ⟨method, rfl, rfl, appended.missing, appended.locate?_eq legible.methods⟩

end additions

/-- Fields, methods and interfaces that can be told apart in a class that was read can be told apart
in everything it comes to; and whenever a field or a method is added, that one is put behind all
others and is found. -/
theorem keepsApart_of_reachableFrom {bytes : Bytes} {file : ClassFile}
    (read : ClassFile.read bytes = .ok file) {enhancer : Enhancer}
    (reachable : ReachableFrom file enhancer) :
    file.KeepsApart enhancer.file ∧
      (∀ name descriptor flags after, addField name descriptor flags enhancer = (.ok (), after) →
        AppendsField name descriptor enhancer.file after.file) ∧
      (∀ name descriptor flags steps after,
        addMethod name descriptor flags steps enhancer = (.ok (), after) →
          AppendsMethod name descriptor enhancer.file after.file) ∧
      ∀ name descriptor flags after,
        addAbstractMethod name descriptor flags enhancer = (.ok (), after) →
          AppendsMethod name descriptor enhancer.file after.file := by
  obtain ⟨named, apart⟩ := reachable.distinguishes (ClassFile.read_eq_ok_iff.mp read).1.named
  have legible := named.legible
  refine ⟨apart, fun name descriptor flags after ran => ?_,
    fun name descriptor flags steps after ran => ?_, fun name descriptor flags after ran => ?_⟩
  · exact (fieldAppended_of_addField legible ran).appendsField legible
  · exact (methodAppended_of_addMethod legible ran).appendsMethod legible
  · exact (methodAppended_of_addAbstractMethod legible ran).appendsMethod legible

/-- A class to which a field was added once and could not be added again, and to which a method is
added then. -/
theorem keepsApart_of_reachableFrom_twice :
    ∃ file enhancer after, ClassFile.read ClassFile.fileOfMethod = .ok file ∧
      ReachableFrom file enhancer ∧ enhancer.file.fieldKeys.Nodup ∧
      enhancer.file.methodKeys.Nodup ∧ enhancer.file.interfaceBytes.Nodup ∧
      addAbstractMethod "m" "()V" ⟨1⟩ enhancer = (.ok (), after) ∧
      AppendsMethod "m" "()V" enhancer.file after.file := by
  let twice (file : ClassFile) : Enhancer :=
    ((Operation.addField "x" "I" ⟨0⟩).run
      ((Operation.addField "x" "I" ⟨0⟩).run (.ofClass .silent [] file)).2).2
  have checked : ((ClassFile.read ClassFile.fileOfMethod).map fun file =>
      (decide (file.fieldKeys.Nodup ∧ file.methodKeys.Nodup ∧ file.interfaceBytes.Nodup),
        (addAbstractMethod "m" "()V" ⟨1⟩ (twice file)).1)) = .ok (true, .ok ()) := by
    decide +kernel
  obtain ⟨file, read, checked⟩ := Outcome.map_eq_ok_iff.mp checked
  obtain ⟨apart, added⟩ := Prod.mk.inj checked
  obtain ⟨fields, methods, interfaces⟩ := of_decide_eq_true apart
  have reachable : ReachableFrom file (twice file) :=
    ((ReachableFrom.start .silent []).operate _).operate _
  obtain ⟨kept, -, -, appends⟩ := keepsApart_of_reachableFrom read reachable
  exact ⟨file, twice file, _, read, reachable, kept.fields fields, kept.methods methods,
    kept.interfaces interfaces, Prod.ext added rfl, appends _ _ _ _ (Prod.ext added rfl)⟩

end Enhancement

end JavaClass
