/-
What members are called while a class is being enhanced. The names and descriptors of members are
texts of the pool, and since the pool only grows they stay the texts they are: a member is called
the same afterwards, the first one of a name is the first one still, and a field that is resolved
is resolved to the same again.
-/

import JavaClass.Proofs.Attribute.InPlace
import JavaClass.Proofs.Enhancement.Steps
import JavaClass.Proofs.Format.ClassFile
import JavaClass.Proofs.Pool.Soundness

namespace JavaClass

/-! ### Texts -/

theorem Pool.HoldsUtf8.extends {before after : Pool} (grown : before.Extends after)
    {index : UInt16} (holds : before.HoldsUtf8 index) : after.HoldsUtf8 index := by
  obtain ⟨bytes, found⟩ := holds
  exact ⟨bytes, grown.utf8 found⟩

theorem Pool.Extends.holdsText_eq {before after : Pool} (grown : before.Extends after)
    {index : UInt16} (holds : before.HoldsUtf8 index) (wanted : String) :
    after.holdsText index wanted = before.holdsText index wanted := by
  obtain ⟨bytes, found⟩ := holds
  unfold holdsText isText
  rw [found, grown.utf8 found]

theorem Pool.Extends.text_eq {before after : Pool} (grown : before.Extends after)
    {index : UInt16} (holds : before.HoldsUtf8 index) : after.text index = before.text index := by
  obtain ⟨bytes, found⟩ := holds
  unfold Pool.text
  rw [found, grown.utf8 found]

/-- In a pool whose references have been checked a class keeps its name, be it one that can be
decoded or not. -/
theorem Pool.Extends.className_eq {before after : Pool} (grown : before.Extends after)
    (references : before.checkReferences = .ok ()) {index : UInt16}
    (holds : before.HoldsClass index) : after.className index = before.className index := by
  obtain ⟨name, found⟩ := holds
  unfold Pool.className
  rw [found, show after.classEntry index = .ok name from grown.lookup found]
  exact grown.text_eq (exists_utf8_of_classEntry references found)

theorem Pool.holdsText_iff {pool : Pool} {index : UInt16} {wanted : String} :
    pool.holdsText index wanted = true ↔
      pool.utf8 index = .ok (Text.ModifiedUtf8.encode wanted) := by
  rw [← isText_eq_ok_true_iff]
  unfold holdsText
  split
  · rename_i same
    exact iff_of_true rfl same
  · rename_i other
    exact iff_of_false Bool.false_ne_true other

theorem Pool.Extends.holdsText {before after : Pool} (grown : before.Extends after)
    {index : UInt16} {wanted : String} (holds : before.holdsText index wanted = true) :
    after.holdsText index wanted = true :=
  Pool.holdsText_iff.mpr (grown.utf8 (Pool.holdsText_iff.mp holds))

theorem Pool.text_of_holdsText {pool : Pool} {index : UInt16} {wanted : String}
    (holds : pool.holdsText index wanted = true) : pool.text index = .ok wanted :=
  text_of_utf8 (holdsText_iff.mp holds)

/-! ### Members -/

section members

variable {holder : FlagHolder}

/-- Whether the name and the descriptor of a member are texts of a pool. -/
def Member.Legible (pool : Pool) (member : Member holder) : Prop :=
  pool.HoldsUtf8 member.name ∧ pool.HoldsUtf8 member.descriptor

theorem Member.Legible.extends {before after : Pool} (grown : before.Extends after)
    {member : Member holder} (legible : member.Legible before) : member.Legible after :=
  ⟨legible.1.extends grown, legible.2.extends grown⟩

theorem Member.isCalled_of_extends {before after : Pool} (grown : before.Extends after)
    {member : Member holder} (legible : member.Legible before) (name : String)
    (descriptor : Option String) :
    member.isCalled after name descriptor = member.isCalled before name descriptor := by
  unfold isCalled
  rw [grown.holdsText_eq legible.1]
  cases descriptor with
  | none => rfl
  | some descriptor => simp only [grown.holdsText_eq legible.2]

theorem Member.locate?_of_extends {before after : Pool} (grown : before.Extends after)
    {members : List (Member holder)} (legible : ∀ member ∈ members, member.Legible before)
    (name : String) (descriptor : Option String) :
    locate? after name descriptor members = locate? before name descriptor members := by
  induction members with
  | nil => rfl
  | cons member rest inductionHypothesis =>
    obtain ⟨first, later⟩ := List.forall_mem_cons.mp legible
    have inRest := inductionHypothesis later
    unfold locate? at inRest ⊢
    rw [List.find?_cons, List.find?_cons, isCalled_of_extends grown first, inRest]

variable {pool : Pool} {name descriptor : String} {member : Member holder}

/-- What a member is called is what its name and its descriptor say. -/
theorem Member.texts_of_isCalled (called : member.isCalled pool name (some descriptor) = true) :
    pool.text member.name = .ok name ∧ pool.text member.descriptor = .ok descriptor := by
  obtain ⟨nameHolds, descriptorHolds⟩ := Bool.and_eq_true_iff.mp called
  exact ⟨Pool.text_of_holdsText nameHolds, Pool.text_of_holdsText descriptorHolds⟩

theorem Member.legible_of_isCalled (called : member.isCalled pool name (some descriptor) = true) :
    member.Legible pool := by
  obtain ⟨nameHolds, descriptorHolds⟩ := Bool.and_eq_true_iff.mp called
  exact ⟨⟨_, Pool.holdsText_iff.mp nameHolds⟩, _, Pool.holdsText_iff.mp descriptorHolds⟩

theorem Member.isCalled_extends {after : Pool} (grown : pool.Extends after)
    (called : member.isCalled pool name (some descriptor) = true) :
    member.isCalled after name (some descriptor) = true := by
  rw [isCalled_of_extends grown (legible_of_isCalled called), called]

/-- Members with the same texts are called the same. -/
theorem Member.isCalled_of_texts {other : Member holder} (sameName : member.name = other.name)
    (sameDescriptor : member.descriptor = other.descriptor) :
    member.isCalled pool name (some descriptor) = other.isCalled pool name (some descriptor) := by
  unfold isCalled
  rw [sameName, sameDescriptor]

/-- A member is called what was interned for it, the name first and then the descriptor. -/
theorem Member.isCalled_of_internText (member : Member holder) {middle after : Pool}
    (assembled : pool.Assembled)
    (nameInterned : Pool.internText name pool = (.ok member.name, middle))
    (descriptorInterned : Pool.internText descriptor middle = (.ok member.descriptor, after)) :
    pool.Extends after ∧ member.isCalled after name (some descriptor) = true := by
  have first := (Pool.always_internText name).relates nameInterned
  have second := (Pool.always_internText descriptor).relates descriptorInterned
  refine ⟨first.trans second, Bool.and_eq_true_iff.mpr ⟨?_, ?_⟩⟩
  · exact second.holdsText
      (Pool.holdsText_iff.mpr (Pool.utf8_of_internText assembled nameInterned))
  · exact Pool.holdsText_iff.mpr
      (Pool.utf8_of_internText (first.assembled assembled) descriptorInterned)

end members

/-! ### The first method of a name -/

/-- Where the first method of a name and descriptor is in a class. -/
structure ClassFile.Located (file : ClassFile) (name descriptor : String) (front : List Method)
    (method : Method) (back : List Method) : Prop where
  methods : file.methods = front ++ method :: back
  called : method.isCalled file.pool name (some descriptor) = true
  others : ∀ other ∈ front, other.isCalled file.pool name (some descriptor) = false

theorem ClassFile.exists_located {file : ClassFile} {name descriptor : String} {method : Method}
    (found : file.method? name descriptor = some method) :
    ∃ front back, file.Located name descriptor front method back := by
  obtain ⟨called, front, back, methods, others⟩ := List.find?_eq_some_iff_append.mp found
  exact ⟨front, back, methods, called,
    fun other member => Bool.not_eq_true' _ ▸ others other member⟩

theorem ClassFile.Located.method?_eq {file : ClassFile} {name descriptor : String}
    {front back : List Method} {method : Method}
    (located : file.Located name descriptor front method back) :
    file.method? name descriptor = some method := by
  refine List.find?_eq_some_iff_append.mpr ⟨located.called, front, back, located.methods, ?_⟩
  exact fun other member => Bool.not_eq_true' _ ▸ located.others other member

theorem ClassFile.Located.changeMethod_eq {file : ClassFile} {name descriptor : String}
    {front back : List Method} {method : Method}
    (located : file.Located name descriptor front method back) (change : Method → Method) :
    file.changeMethod name descriptor change =
      { file with methods := front ++ change method :: back } := by
  obtain ⟨methods, called, others⟩ := located
  have go (front : List Method)
      (others : ∀ other ∈ front, other.isCalled file.pool name (some descriptor) = false) :
      changeMethod.go file name descriptor change (front ++ method :: back) =
        front ++ change method :: back := by
    induction front with
    | nil => rw [List.nil_append, changeMethod.go, if_pos called, List.nil_append]
    | cons other rest inductionHypothesis =>
      obtain ⟨first, later⟩ := List.forall_mem_cons.mp others
      rw [List.cons_append, changeMethod.go, first, if_neg Bool.false_ne_true,
        inductionHypothesis later, List.cons_append]
  unfold changeMethod
  rw [methods, go front others]

/-! ### Bodies that are put in place -/

theorem Attributes.body?_setBody {attributes : Attributes} {held : Body}
    (found : attributes.body? = some held) (body : Body) :
    Attributes.body? (attributes.setBody body) = some body := by
  induction attributes with
  | nil => cases found
  | cons entry rest inductionHypothesis =>
    obtain ⟨name, content⟩ := entry
    cases content with
    | code => rfl
    | _ => exact inductionHypothesis found

theorem Method.body?_setBody {method : Method} {held : Body} (found : method.body? = some held)
    (body : Body) : (setBody body method).body? = some body :=
  Attributes.body?_setBody found body

theorem Attributes.setBody_setBody (attributes : Attributes) (first later : Body) :
    Attributes.setBody later (attributes.setBody first) = attributes.setBody later := by
  induction attributes with
  | nil => rfl
  | cons entry rest inductionHypothesis =>
    obtain ⟨name, content⟩ := entry
    cases content with
    | code => rfl
    | _ => exact congrArg (List.cons _) inductionHypothesis

theorem Method.setBody_setBody (method : Method) (first later : Body) :
    setBody later (setBody first method) = setBody later method := by
  unfold setBody
  rw [Attributes.setBody_setBody]

/-- Putting the body back that is there already changes nothing. -/
theorem Attributes.setBody_of_body? {attributes : Attributes} {body : Body}
    (found : attributes.body? = some body) : attributes.setBody body = attributes := by
  induction attributes with
  | nil => cases found
  | cons entry rest inductionHypothesis =>
    obtain ⟨name, content⟩ := entry
    cases content with
    | code held =>
      obtain rfl : held = body := Option.some.inj found
      rfl
    | _ => exact congrArg (List.cons _) (inductionHypothesis found)

theorem Method.setBody_of_body? {method : Method} {body : Body}
    (found : method.body? = some body) : method.setBody body = method := by
  unfold Method.setBody
  rw [Attributes.setBody_of_body? found]

/-- Changing a method into itself changes nothing. -/
theorem ClassFile.changeMethod_eq_self {file : ClassFile} {name descriptor : String}
    {change : Method → Method}
    (same : ∀ method, file.method? name descriptor = some method → change method = method) :
    file.changeMethod name descriptor change = file := by
  have go (methods : List Method)
      (sameHere : ∀ method, Member.locate? file.pool name (some descriptor) methods = some method →
        change method = method) :
      changeMethod.go file name descriptor change methods = methods := by
    induction methods with
    | nil => rfl
    | cons method rest inductionHypothesis =>
      rw [changeMethod.go]
      by_cases called : method.isCalled file.pool name (some descriptor) = true
      · rw [if_pos called, sameHere method (List.find?_cons_of_pos called)]
      · rw [if_neg called, inductionHypothesis]
        intro other found
        exact sameHere other ((List.find?_cons_of_neg called).trans found)
  unfold changeMethod
  rw [go file.methods same]

/-! ### Classes -/

/-- A class whose members have names and whose frames have a form that has room for them. -/
structure ClassFile.Legible (file : ClassFile) : Prop where
  pool : file.pool.Assembled
  fields : ∀ field ∈ file.fields, field.Legible file.pool
  methods : ∀ method ∈ file.methods, method.Legible file.pool
  bodies : ∀ method ∈ file.methods, ∀ body, Method.body? method = some body → body.FramesFit

theorem Attributes.wellFormed_of_body? {pool : Pool} {attributes : Attributes} {body : Body}
    (proper : ∀ entry ∈ attributes, Attribute.WellFormed pool entry)
    (found : attributes.body? = some body) : body.WellFormed pool := by
  obtain ⟨⟨name, content⟩, member, found⟩ := List.exists_of_findSome?_eq_some found
  obtain ⟨-, -, contentProper⟩ := proper _ member
  cases content with
  | code held =>
    obtain rfl : held = body := Option.some.inj found
    exact contentProper
  | _ => cases found

theorem ClassFile.WellFormed.legible {file : ClassFile} (proper : file.WellFormed) :
    file.Legible where
  pool := proper.pool.assembled
  fields := fun field member => ⟨(proper.fields field member).name,
    (proper.fields field member).descriptor⟩
  methods := fun method member => ⟨(proper.methods method member).name,
    (proper.methods method member).descriptor⟩
  bodies := fun method member _ found => Body.framesFit_of_wellFormed
    (Attributes.wellFormed_of_body? (proper.methods method member).attributes.2 found)

/-- The class with another pool and with a method in place of one that is called the same. -/
theorem ClassFile.Legible.withMethod {file : ClassFile} (legible : file.Legible) {pool : Pool}
    (grown : file.pool.Extends pool) {front back : List Method} {old new : Method}
    (methods : file.methods = front ++ old :: back) (called : new.Legible file.pool)
    (fit : ∀ body, Method.body? new = some body → body.FramesFit) :
    { file with pool, methods := front ++ new :: back }.Legible := by
  have methodsLegible := legible.methods
  have bodies := legible.bodies
  rw [methods, List.forall_mem_append, List.forall_mem_cons] at methodsLegible bodies
  constructor
  · exact grown.assembled legible.pool
  · exact fun field member => (legible.fields field member).extends grown
  · refine List.forall_mem_append.mpr ⟨fun method member => ?_, List.forall_mem_cons.mpr
      ⟨called.extends grown, fun method member => ?_⟩⟩
    · exact (methodsLegible.1 method member).extends grown
    · exact (methodsLegible.2.2 method member).extends grown
  · exact List.forall_mem_append.mpr ⟨bodies.1, List.forall_mem_cons.mpr ⟨fit, bodies.2.2⟩⟩

/-- The class with another pool and with another body in a method, with the same frames. -/
theorem ClassFile.Legible.withBody {file : ClassFile} (legible : file.Legible) {pool : Pool}
    (grown : file.pool.Extends pool) {front back : List Method} {method : Method}
    (methods : file.methods = front ++ method :: back) {old new : Body}
    (found : Method.body? method = some old) (attributes : new.attributes = old.attributes) :
    { file with pool, methods := front ++ Method.setBody new method :: back }.Legible := by
  have member : method ∈ file.methods := by
    rw [methods]
    exact List.mem_append_right _ List.mem_cons_self
  refine legible.withMethod grown methods (legible.methods method member) fun held foundNew => ?_
  obtain rfl := Option.some.inj ((Method.body?_setBody found new).symm.trans foundNew)
  rw [Body.FramesFit, attributes]
  exact legible.bodies method member old found

theorem ClassFile.Located.extends {file : ClassFile} (legible : file.Legible)
    {name descriptor : String} {front back : List Method} {method : Method}
    (located : file.Located name descriptor front method back) {after : Pool}
    (grown : file.pool.Extends after) :
    { file with pool := after }.Located name descriptor front method back := by
  obtain ⟨methods, called, others⟩ := located
  have member : method ∈ file.methods := by
    rw [methods]
    exact List.mem_append_right _ List.mem_cons_self
  refine ⟨methods, ?_, fun other inFront => ?_⟩
  · rw [Member.isCalled_of_extends grown (legible.methods method member), called]
  · have otherMember : other ∈ file.methods := by
      rw [methods]
      exact List.mem_append_left _ inFront
    rw [Member.isCalled_of_extends grown (legible.methods other otherMember), others other inFront]

/-! ### Methods with a body -/

/-- Whether a key is what a method is listed as, by its name and by its type. -/
def IsKeyOf (pool : Pool) (method : Method) (key : MethodKey) : Prop :=
  ∃ name descriptor, pool.text method.name = .ok name ∧
    pool.text method.descriptor = .ok descriptor ∧ MethodKey.parse name descriptor = .ok key

theorem methodsWithBody_eq_ok_iff {file : ClassFile} {keys : List MethodKey} :
    Enhancement.Enhancer.methodsWithBody file = .ok keys ↔ List.Forall₂ (IsKeyOf file.pool)
      (file.methods.filter fun method => (Method.body? method).isSome) keys := by
  refine Outcome.mapM_eq_ok_iff_of_forall fun {method key} => ?_
  simp only [IsKeyOf, Outcome.bind_eq_ok_iff]
  constructor
  · rintro ⟨name, named, descriptor, described, listed⟩
    split at listed
    · rename_i parsed
      obtain rfl := Outcome.pure_eq_ok_iff.mp listed
      exact ⟨name, descriptor, named, described, parsed⟩
    · cases listed
  · rintro ⟨name, descriptor, named, described, parsed⟩
    refine ⟨name, named, descriptor, described, ?_⟩
    rw [parsed]
    rfl

/-! ### While methods are added and changed -/

/-- Whether a class may have become another one by methods that were added and changed: its name,
its flags and its fields stay, and so does what it inherits. -/
structure Enhancement.Enhancer.KeepsFields (before after : Enhancement.Enhancer) : Prop where
  pool : before.file.pool.Extends after.file.pool
  flags : after.file.flags = before.file.flags
  thisClass : after.file.thisClass = before.file.thisClass
  fields : after.file.fields = before.file.fields
  inherited : after.inherited = before.inherited

namespace Enhancement.Enhancer.KeepsFields

open Enhancement

variable {before after : Enhancer}

theorem trans {middle : Enhancer} (first : KeepsFields before middle)
    (later : KeepsFields middle after) : KeepsFields before after where
  pool := first.pool.trans later.pool
  flags := later.flags.trans first.flags
  thisClass := later.thisClass.trans first.thisClass
  fields := later.fields.trans first.fields
  inherited := later.inherited.trans first.inherited

variable (keeps : KeepsFields before after)

include keeps

theorem name {name : String} (named : before.file.name = .ok name) :
    after.file.name = .ok name := by
  unfold ClassFile.name
  rw [keeps.thisClass]
  exact keeps.pool.className named

theorem isInterface : after.file.isInterface = before.file.isInterface := by
  unfold ClassFile.isInterface
  rw [keeps.flags]

variable (legible : ∀ field ∈ before.file.fields, field.Legible before.file.pool)

include legible

theorem field? (name : String) (descriptor : Option String) :
    after.file.field? name descriptor = before.file.field? name descriptor := by
  unfold ClassFile.field?
  rw [keeps.fields]
  exact Member.locate?_of_extends keeps.pool legible name descriptor

/-- What a field was resolved to it is resolved to still. -/
theorem resolveField {name : String} {descriptor : Option String} {field : ResolvedField}
    (resolved : resolveField name descriptor before = .ok field) :
    Enhancer.resolveField name descriptor after = .ok field := by
  unfold Enhancer.resolveField at resolved ⊢
  rw [keeps.field? legible, keeps.inherited, keeps.isInterface]
  cases declared : before.file.field? name descriptor with
  | some found =>
    simp only [declared, Outcome.bind_eq_ok_iff, Outcome.pure_eq_ok_iff] at resolved ⊢
    obtain ⟨owner, named, text, read, type, parsed, rfl⟩ := resolved
    exact ⟨owner, keeps.name named, text, keeps.pool.text read, type, parsed, rfl⟩
  | none =>
    simp only [declared] at resolved
    exact resolved

end Enhancement.Enhancer.KeepsFields

end JavaClass
