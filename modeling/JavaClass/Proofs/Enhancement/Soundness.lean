/-
Enhanced classes can be read back. Whatever a plan adds to the pool leads to constants that are
there, and the interfaces, members and bodies it adds refer to what was added for them. A method
whose uses of fields were redirected has code of the same length, with the same tables, so it takes
as much room as before. An enhanced class is therefore well-formed, provided that its interfaces,
fields and methods can still be counted in a file, and what it is written as is read as this class.
-/

import JavaClass.Enhancement.Enhance
import JavaClass.Proofs.Enhancement.Plan

namespace JavaClass

/-! ### In a pool that has grown -/

section grown

variable {before after : Pool}

theorem Pool.HoldsClass.extends (grown : before.Extends after) {index : UInt16}
    (holds : before.HoldsClass index) : after.HoldsClass index := by
  obtain ⟨name, found⟩ := holds
  exact ⟨name, grown.lookup found⟩

mutual

theorem Attribute.WellFormed.extends (grown : before.Extends after) :
    ∀ {entry : Attribute}, entry.WellFormed before → entry.WellFormed after
  | ⟨name, content⟩, proper => by
    rw [Attribute.WellFormed] at proper ⊢
    obtain ⟨⟨kind, text, named⟩, length, proper⟩ := proper
    exact ⟨⟨kind, grown.text text, named⟩, length, Content.WellFormed.extends grown proper⟩

theorem Content.WellFormed.extends (grown : before.Extends after) :
    ∀ {content : Content}, content.WellFormed before → content.WellFormed after
  | .code body, proper => by
    rw [Content.WellFormed] at proper ⊢
    exact Body.WellFormed.extends grown proper
  | .exceptions _, proper | .lineNumbers _, proper | .localVariables _, proper
  | .localVariableTypes _, proper | .stackMap _, proper => by
    rw [Content.WellFormed] at proper ⊢
    exact proper
  | .sourceFile _, _ | .constantValue _, _ | .synthetic, _ | .deprecated, _ | .raw _, _ => by
    rw [Content.WellFormed]
    trivial

theorem Body.WellFormed.extends (grown : before.Extends after) :
    ∀ {body : Body}, body.WellFormed before → body.WellFormed after
  | ⟨_, _, _, _, attributes⟩, proper => by
    rw [Body.WellFormed] at proper ⊢
    obtain ⟨code, handlers, count, proper⟩ := proper
    exact ⟨code, handlers, count, Attributes.AllWellFormed.extends grown proper⟩

theorem Attributes.AllWellFormed.extends (grown : before.Extends after) :
    ∀ {entries : List Attribute}, Attributes.AllWellFormed before entries →
      Attributes.AllWellFormed after entries
  | [], _ => by
    rw [Attributes.AllWellFormed]
    trivial
  | entry :: rest, proper => by
    rw [Attributes.AllWellFormed] at proper ⊢
    exact ⟨Attribute.WellFormed.extends grown proper.1,
      Attributes.AllWellFormed.extends grown proper.2⟩

end

theorem Attributes.WellFormed.extends (grown : before.Extends after) {attributes : Attributes}
    (proper : attributes.WellFormed before) : attributes.WellFormed after :=
  ⟨proper.1, fun entry member => (proper.2 entry member).extends grown⟩

theorem Member.WellFormed.extends (grown : before.Extends after) {holder : FlagHolder}
    {member : Member holder} (proper : member.WellFormed before) : member.WellFormed after where
  name := proper.name.extends grown
  descriptor := proper.descriptor.extends grown
  attributes := Attributes.WellFormed.extends grown proper.attributes

end grown

/-! ### Bodies put in place of others -/

theorem Attributes.length_setBody (body : Body) (attributes : Attributes) :
    List.length (attributes.setBody body) = List.length attributes := by
  induction attributes with
  | nil => rfl
  | cons entry rest inductionHypothesis =>
    obtain ⟨name, content⟩ := entry
    cases content with
    | code => rfl
    | _ => exact congrArg Nat.succ inductionHypothesis

/-- A body that takes as much room as the one it is put in place of. -/
theorem Attributes.wellFormed_setBody {pool : Pool} {attributes : Attributes} {old new : Body}
    (found : attributes.body? = some old) (length : new.write.length = old.write.length)
    (bodyProper : new.WellFormed pool)
    (proper : ∀ entry ∈ attributes, Attribute.WellFormed pool entry) :
    ∀ entry ∈ attributes.setBody new, Attribute.WellFormed pool entry := by
  induction attributes with
  | nil => cases found
  | cons entry rest inductionHypothesis =>
    obtain ⟨first, others⟩ := List.forall_mem_cons.mp proper
    obtain ⟨name, content⟩ := entry
    cases content with
    | code held =>
      obtain rfl : held = old := Option.some.inj found
      obtain ⟨named, fits, -⟩ := first
      refine List.forall_mem_cons.mpr ⟨⟨named, ?_, bodyProper⟩, others⟩
      show new.write.length < 2 ^ 32
      rw [length]
      exact fits
    | _ => exact List.forall_mem_cons.mpr ⟨first, inductionHypothesis found others⟩

theorem Method.bodyCount_setBody (body : Body) (method : Method) :
    (setBody body method).bodyCount = method.bodyCount := by
  obtain ⟨flags, name, descriptor, attributes⟩ := method
  unfold bodyCount setBody
  simp only
  induction attributes with
  | nil => rfl
  | cons entry rest inductionHypothesis =>
    obtain ⟨name, content⟩ := entry
    cases content with
    | code => rfl
    | _ =>
      rw [Attributes.setBody, List.countP_cons, List.countP_cons, inductionHypothesis]

/-- Revised code takes as much room as the code it was revised from. -/
theorem Body.Revised.length_write {replaces : Instruction → Instruction → Prop} {old new : Body}
    (revised : old.Revised replaces new) : new.write.length = old.write.length := by
  obtain ⟨olds, news, code⟩ := revised.code
  rw [write_eq, write_eq, revised.maxStack, revised.maxLocals, revised.handlers,
    revised.attributes]
  simp only [List.length_append, BigEndian.length_word32, code.length_eq]

theorem Body.Revised.wellFormed {replaces : Instruction → Instruction → Prop} {pool : Pool}
    {old new : Body} (revised : old.Revised replaces new) (proper : old.WellFormed pool) :
    new.WellFormed pool := by
  obtain ⟨olds, news, code⟩ := revised.code
  rw [wellFormed_iff] at proper ⊢
  rw [revised.handlers, revised.attributes, code.length_eq]
  exact proper

theorem Method.Recoded.wellFormed {pool : Pool} {old new : Method} (recoded : old.Recoded new)
    (proper : Member.WellFormed pool old) (single : old.bodyCount ≤ 1) :
    Member.WellFormed pool new ∧ new.bodyCount ≤ 1 := by
  obtain rfl | ⟨oldBody, newBody, replaces, found, rfl, body⟩ := recoded
  · exact ⟨proper, single⟩
  · have bodyProper := Attributes.wellFormed_of_body? proper.attributes.2 found
    refine ⟨⟨proper.name, proper.descriptor, ?_, ?_⟩, ?_⟩
    · show (Attributes.setBody newBody old.attributes).length < 2 ^ 16
      rw [Attributes.length_setBody]
      exact proper.attributes.1
    · exact Attributes.wellFormed_setBody found body.length_write (body.wellFormed bodyProper)
        proper.attributes.2
    · rw [Method.bodyCount_setBody]
      exact single

/-- Whether a file can count the interfaces, the fields and the methods of a class. -/
structure ClassFile.Countable (file : ClassFile) : Prop where
  interfaces : file.interfaces.length ≤ 65535
  fields : file.fields.length ≤ 65535
  methods : file.methods.length ≤ 65535

instance (file : ClassFile) : Decidable file.Countable :=
  decidable_of_iff
    (file.interfaces.length ≤ 65535 ∧ file.fields.length ≤ 65535 ∧ file.methods.length ≤ 65535)
    ⟨fun ⟨interfaces, fields, methods⟩ => ⟨interfaces, fields, methods⟩,
      fun ⟨interfaces, fields, methods⟩ => ⟨interfaces, fields, methods⟩⟩

namespace Enhancement

/-! ### What a plan adds -/

section added

variable {pool : Pool}

theorem holdsUtf8_of_text {index : UInt16} {text : String} (found : pool.text index = .ok text) :
    pool.HoldsUtf8 index := by
  simp only [Pool.text, Outcome.bind_eq_ok_iff] at found
  obtain ⟨bytes, found, -⟩ := found
  exact ⟨bytes, found⟩

theorem holdsClass_of_className {index : UInt16} {name : String}
    (found : pool.className index = .ok name) : pool.HoldsClass index := by
  simp only [Pool.className, Outcome.bind_eq_ok_iff] at found
  obtain ⟨entry, found, -⟩ := found
  exact ⟨entry, found⟩

theorem Enhancer.IsAdded.wellFormed {wanted : AddedField} {field : Field}
    (added : Enhancer.IsAdded pool wanted field) : Member.WellFormed pool field where
  name := holdsUtf8_of_text added.name
  descriptor := holdsUtf8_of_text added.descriptor
  attributes := by
    rw [added.attributes]
    exact ⟨Nat.two_pow_pos 16, List.forall_mem_nil _⟩

variable (field : ResolvedField) (direction : Direction)

theorem length_loads_le : (field.loads direction).length ≤ 2 := by
  obtain ⟨owner, name, type, isStatic, ownerIsInterface⟩ := field
  cases direction with
  | read =>
    cases isStatic with
    | true => exact Nat.zero_le 2
    | false => exact Nat.le_succ 1
  | write =>
    cases isStatic with
    | true => exact Nat.le_succ 1
    | false => exact Nat.le_refl 2

theorem length_returnCode (type : FieldType) : (Builder.returnCode type).length = 1 := by
  unfold Builder.returnCode
  split
  · rfl
  · rfl

/-- The longest code that an accessor has. -/
def longestAccessor : Nat := 6

theorem length_code_accessorBody_le (index : UInt16) :
    (field.accessorBody direction index).code.length ≤ longestAccessor := by
  have loads := length_loads_le field direction
  show (_ ++ _ ++ _ : Bytes).length ≤ 6
  rw [List.length_append, List.length_append, List.length_cons, BigEndian.length_word16,
    length_returnCode]
  omega

/-- A method as it is made. Its name and its descriptor are texts, and it has no attributes or
nothing but a body without tables, whose code is no longer than a limit. -/
structure IsMade (pool : Pool) (limit : Nat) (method : Method) : Prop where
  legible : method.Legible pool
  attributes : method.attributes = [] ∨ ∃ codeName maxStack maxLocals code,
    pool.text codeName = .ok "Code" ∧ code.length ≤ limit ∧
      method.attributes = [⟨codeName, .code (.ofCode maxStack maxLocals code)⟩]

variable {field}

theorem IsAccessor.isMade {flags : MethodFlags} {wanted : Direction × String} {method : Method}
    (accessor : IsAccessor pool field flags wanted method) :
    IsMade pool longestAccessor method := by
  obtain ⟨codeName, index, code, -, -, attributes⟩ := accessor.attributes
  refine ⟨⟨holdsUtf8_of_text accessor.name, holdsUtf8_of_text accessor.descriptor⟩, .inr ?_⟩
  exact ⟨codeName, _, _, _, code, length_code_accessorBody_le field wanted.1 index, attributes⟩

theorem length_write_ofCode (maxStack maxLocals : UInt16) (code : Bytes) :
    (Body.ofCode maxStack maxLocals code).write.length = code.length + 12 := by
  have handlers : (writeCounted ExceptionRange.write
      (Body.ofCode maxStack maxLocals code).handlers).length = 2 := rfl
  have attributes : (writeCounted Attribute.write
      (Body.ofCode maxStack maxLocals code).attributes).length = 2 := rfl
  rw [Body.write_eq]
  simp only [List.length_append, BigEndian.length_word16, BigEndian.length_word32, handlers,
    attributes]
  show 2 + (2 + (4 + (code.length + (2 + 2)))) = code.length + 12
  omega

/-- A method that was made can be read back, provided that its code is not too long. -/
theorem IsMade.wellFormed {limit : Nat} {method : Method} (made : IsMade pool limit method)
    (short : limit ≤ longestCode) : Member.WellFormed pool method ∧ method.bodyCount ≤ 1 := by
  obtain ⟨name, descriptor⟩ := made.legible
  obtain none | ⟨codeName, maxStack, maxLocals, code, named, within, attributes⟩ := made.attributes
  · refine ⟨⟨name, descriptor, ?_⟩, ?_⟩
    · rw [none]
      exact ⟨Nat.two_pow_pos 16, List.forall_mem_nil _⟩
    · rw [Method.bodyCount, none]
      exact Nat.zero_le 1
  · have fits : code.length ≤ longestCode := Nat.le_trans within short
    refine ⟨⟨name, descriptor, ?_⟩, ?_⟩
    · rw [attributes]
      refine ⟨Nat.one_lt_two_pow_iff.mpr (by decide),
        List.forall_mem_singleton.mpr ⟨⟨"Code", named, rfl⟩, ?_, ?_⟩⟩
      · show (Body.ofCode maxStack maxLocals code).write.length < 2 ^ 32
        rw [length_write_ofCode]
        unfold longestCode at fits
        omega
      · refine Body.wellFormed_iff.mpr ⟨fits, ?_, ?_⟩
        · exact ⟨Nat.two_pow_pos 16, List.forall_mem_nil _⟩
        · exact ⟨Nat.two_pow_pos 16, List.forall_mem_nil _⟩
    · rw [Method.bodyCount, attributes]
      exact Nat.le_refl 1

end added

/-! ### Enhanced classes -/

section enhanced

variable {plan : Plan} {before after : Enhancer} {count : Nat}

/-- A plan leaves a well-formed class, provided that it can be counted what is in it. -/
theorem CarriedOut.wellFormed (carried : CarriedOut plan before count after)
    (proper : before.file.WellFormed) (grown : before.file.pool.Extends after.file.pool)
    (sound : after.file.pool.Sound) (countable : after.file.Countable) :
    after.file.WellFormed := by
  obtain ⟨interfaces, sameInterfaces, interfaceRow⟩ := carried.interfaces
  obtain ⟨fields, sameFields, fieldRow⟩ := carried.fields
  obtain ⟨kept, added, sameMethods, keptRow, addedRow, -⟩ := carried.methods
  have methods : ∀ method ∈ after.file.methods,
      Member.WellFormed after.file.pool method ∧ method.bodyCount ≤ 1 := by
    rw [sameMethods, List.forall_mem_append]
    refine ⟨fun method member => ?_, fun method member => ?_⟩
    · obtain ⟨old, oldMember, revised⟩ := exists_mem_of_forall₂_right keptRow member
      exact revised.recoded.wellFormed ((proper.methods old oldMember).extends grown)
        (proper.bodyCounts old oldMember)
    · obtain ⟨wanted, -, field, declared, -, -, accessor⟩ :=
        exists_mem_of_forall₂_right addedRow member
      exact accessor.isMade.wellFormed (by decide)
  exact {
    version := by
      rw [carried.version]
      exact proper.version
    pool := Pool.obtained_of_assembled sound.assembled sound.references
    references := sound.references
    thisClass := by
      rw [carried.thisClass]
      exact proper.thisClass.extends grown
    superClass := by
      rw [carried.superClass]
      exact fun index member => (proper.superClass index member).extends grown
    interfaceCount := Nat.lt_succ_of_le countable.interfaces
    interfaces := by
      rw [sameInterfaces, List.forall_mem_append]
      refine ⟨fun index member => (proper.interfaces index member).extends grown,
        fun index member => ?_⟩
      obtain ⟨name, -, found⟩ := exists_mem_of_forall₂_right interfaceRow member
      exact holdsClass_of_className found
    fieldCount := Nat.lt_succ_of_le countable.fields
    fields := by
      rw [sameFields, List.forall_mem_append]
      refine ⟨fun field member => (proper.fields field member).extends grown,
        fun field member => ?_⟩
      obtain ⟨wanted, -, isAdded⟩ := exists_mem_of_forall₂_right fieldRow member
      exact isAdded.wellFormed
    methodCount := Nat.lt_succ_of_le countable.methods
    methods := fun method member => (methods method member).1
    bodyCounts := fun method member => (methods method member).2
    attributes := by
      rw [carried.attributes]
      exact Attributes.WellFormed.extends grown proper.attributes }

theorem enhanceClass_eq_ok_iff {reporting : Reporting} {file held : ClassFile} :
    enhanceClass reporting plan file = .ok held ↔
      ∃ count after, Enhancer.applySteps plan (.ofClass reporting [] file) = (.ok count, after) ∧
        after.file = held := by
  simp only [← Enhancer.apply_eq_ok_iff]
  unfold enhanceClass
  cases Enhancer.apply plan (.ofClass reporting [] file) with
  | mk result after =>
    cases result with
    | error error =>
      refine iff_of_false (fun impossible => ?_) fun ⟨_, _, impossible, _⟩ => ?_
      · cases impossible
      · cases impossible
    | ok count =>
      constructor
      · intro same
        exact ⟨count, after, rfl, Except.ok.inj same⟩
      · rintro ⟨_, _, same, rfl⟩
        cases same
        rfl

theorem enhance_eq_ok_iff {reporting : Reporting} {bytes out : Bytes} :
    enhance reporting plan bytes = .ok out ↔
      ∃ file held, ClassFile.read bytes = .ok file ∧ enhanceClass reporting plan file = .ok held ∧
        out = held.write := by
  simp only [enhance, Outcome.bind_eq_ok_iff, Outcome.pure_eq_ok_iff]
  constructor
  · rintro ⟨file, read, held, enhanced, rfl⟩
    exact ⟨file, held, read, enhanced, rfl⟩
  · rintro ⟨file, held, read, enhanced, rfl⟩
    exact ⟨file, read, held, enhanced, rfl⟩

theorem enhanceClass_of_error {reporting : Reporting} {file : ClassFile} {error : Error}
    {failed : Enhancer}
    (refused : Enhancer.applySteps plan (.ofClass reporting [] file) = (.error error, failed)) :
    enhanceClass reporting plan file = .error error := by
  unfold enhanceClass
  rw [Enhancer.apply_of_error refused]

theorem enhance_of_error {reporting : Reporting} {bytes : Bytes} {file : ClassFile} {error : Error}
    (read : ClassFile.read bytes = .ok file)
    (refused : enhanceClass reporting plan file = .error error) :
    enhance reporting plan bytes = .error error := by
  rw [enhance, Outcome.bind_of_ok read, refused]
  rfl

/-- A class that is enhanced, and of which it turns out that a file can count what is in it. -/
theorem exists_enhance_of_countable (reporting : Reporting) (plan : Plan) (bytes : Bytes)
    (counted : (ClassFile.read bytes).map (fun file => (enhanceClass reporting plan file).map
      fun held => decide held.Countable) = .ok (.ok true)) :
    ∃ out, enhance reporting plan bytes = .ok out ∧
      ∀ file held, ClassFile.read bytes = .ok file → enhanceClass reporting plan file = .ok held →
        held.Countable := by
  obtain ⟨file, read, counted⟩ := Outcome.map_eq_ok_iff.mp counted
  obtain ⟨held, enhanced, countable⟩ := Outcome.map_eq_ok_iff.mp counted
  refine ⟨held.write, enhance_eq_ok_iff.mpr ⟨file, held, read, enhanced, rfl⟩, ?_⟩
  intro sameFile sameHeld readSame enhancedSame
  obtain rfl := Except.ok.inj (read.symm.trans readSame)
  obtain rfl := Except.ok.inj (enhanced.symm.trans enhancedSame)
  exact of_decide_eq_true countable

/-- The class that the steps of a plan leave is well-formed, provided that what is in it can be
counted. -/
theorem wellFormed_of_applySteps {reporting : Reporting} {file : ClassFile}
    (proper : file.WellFormed)
    (ran : Enhancer.applySteps plan (.ofClass reporting [] file) = (.ok count, after))
    (countable : after.file.Countable) : after.file.WellFormed := by
  have assembled := proper.pool.assembled
  have linked := ((Enhancer.always_applySteps plan).relates ran).pool assembled
  have sound := linked.sound ⟨assembled, proper.references⟩
  exact (carriedOut_of_applySteps proper.legible ran).wellFormed proper linked.grown sound countable

end enhanced

/-- What comes out of enhancing a class is the class that was held in the end, and is read as that
class, its pool with the table of first slots included, provided that a file can count what is in
it. -/
theorem read_of_enhance {reporting : Reporting} {plan : Plan} {bytes out : Bytes}
    (enhanced : enhance reporting plan bytes = .ok out) :
    ∃ file held, ClassFile.read bytes = .ok file ∧ enhanceClass reporting plan file = .ok held ∧
      out = held.write ∧ (held.Countable → ClassFile.read out = .ok held) := by
  obtain ⟨file, held, read, held_eq, rfl⟩ := enhance_eq_ok_iff.mp enhanced
  obtain ⟨count, after, ran, rfl⟩ := enhanceClass_eq_ok_iff.mp held_eq
  refine ⟨file, after.file, read, held_eq, rfl, fun countable => ?_⟩
  have proper := (ClassFile.read_eq_ok_iff.mp read).1
  exact ClassFile.read_eq_ok_iff.mpr ⟨wellFormed_of_applySteps proper ran countable, rfl⟩

/-- A class that gets an interface, a field and an accessor. -/
theorem read_of_enhance_planOfUses :
    ∃ out held, enhance .silent planOfUses fileOfUses = .ok out ∧ out = held.write ∧
      ClassFile.read out = .ok held := by
  obtain ⟨out, succeeds, countable⟩ :=
    exists_enhance_of_countable .silent planOfUses fileOfUses (by decide +kernel)
  obtain ⟨file, held, read, enhanced, written, again⟩ := read_of_enhance succeeds
  exact ⟨out, held, succeeds, written, again (countable file held read enhanced)⟩

end Enhancement

end JavaClass
