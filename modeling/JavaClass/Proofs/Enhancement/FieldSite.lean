/-
Uses of a field, and the calls of accessors that take their places. Both are instructions of three
bytes, so all the uses in a body that have an accessor can be replaced where they are: such a use
becomes a call, and every other instruction stays as it is.
-/

import JavaClass.Enhancement.Enhancer
import JavaClass.Proofs.Attribute.InPlace
import JavaClass.Proofs.Enhancement.Steps
import JavaClass.Proofs.Pool.Interning

namespace JavaClass

/-! ### Instructions that use fields -/

theorem FieldUse.ofOpcode?_eq_some_iff {opcode : UInt8} {use : FieldUse} :
    FieldUse.ofOpcode? opcode = some use ↔ use.opcode = opcode := by
  constructor
  · intro found
    have matched := List.find?_some (p := fun use => FieldUse.opcode use == opcode) found
    exact eq_of_beq matched
  · rintro rfl
    exact FieldUse.ofOpcode?_opcode use

/-- Uses of fields have an index of two bytes and nothing else. -/
theorem FieldUse.operandLength?_opcode (use : FieldUse) :
    Opcode.operandLength? use.opcode = some 2 := by
  obtain ⟨direction, isStatic⟩ := use
  cases direction <;> cases isStatic <;> decide +kernel

theorem FieldUse.opcode_ne_wide (use : FieldUse) : use.opcode ≠ Opcode.wide := by
  obtain ⟨direction, isStatic⟩ := use
  cases direction <;> cases isStatic <;> decide

theorem FieldUse.opcode_ne_invokestatic (use : FieldUse) : use.opcode ≠ Opcode.invokestatic := by
  obtain ⟨direction, isStatic⟩ := use
  cases direction <;> cases isStatic <;> decide

theorem FieldUse.hasPoolIndex_opcode (use : FieldUse) : Opcode.hasPoolIndex use.opcode = true := by
  obtain ⟨direction, isStatic⟩ := use
  cases direction <;> cases isStatic <;> decide

namespace Enhancement

/-- Whether a reference names a field, with the class `user` or the one that declares the field as
the owner. -/
def ResolvedField.IsNamedBy (field : ResolvedField) (user : String) (reference : MemberReference) :
    Prop :=
  (reference.owner = user ∨ reference.owner = field.owner) ∧ reference.name = field.name ∧
    reference.descriptor = field.type.descriptor

/-- Whether an instruction uses a field in a direction, in code of the class `user`: it has the form
for static or for instance fields that the field asks for, and its constant names the field. -/
def Uses (pool : Pool) (field : ResolvedField) (user : String) (direction : Direction)
    (instruction : Instruction) : Prop :=
  instruction.opcode = FieldUse.opcode ⟨direction, field.isStatic⟩ ∧
    ∃ index reference, instruction.poolIndex? = some index ∧
      pool.memberReference index = .ok reference ∧ field.IsNamedBy user reference

theorem Uses.extends {before after : Pool} (grown : before.Extends after) {field : ResolvedField}
    {user : String} {direction : Direction} {instruction : Instruction}
    (uses : Uses before field user direction instruction) :
    Uses after field user direction instruction := by
  obtain ⟨opcode, index, reference, indexed, found, names⟩ := uses
  exact ⟨opcode, index, reference, indexed, grown.memberReference found, names⟩

section sites

variable {pool : Pool} {field : ResolvedField} {user : String} {instruction : Instruction}

theorem ResolvedField.isNamedBy_iff {reference : MemberReference} :
    ((reference.owner == user || reference.owner == field.owner) && reference.name == field.name &&
      reference.descriptor == field.type.descriptor) = true ↔ field.IsNamedBy user reference := by
  simp only [IsNamedBy, Bool.and_eq_true, Bool.or_eq_true, beq_iff_eq, and_assoc]

theorem FieldSite.of?_eq_some_iff {site : FieldSite} :
    FieldSite.of? pool field user instruction = .ok (some site) ↔
      site.offset = instruction.offset ∧ Uses pool field user site.direction instruction := by
  obtain ⟨offset, direction⟩ := site
  have form : instruction.opcode = FieldUse.opcode ⟨direction, field.isStatic⟩ ↔
      FieldUse.ofOpcode? instruction.opcode = some ⟨direction, field.isStatic⟩ := by
    rw [FieldUse.ofOpcode?_eq_some_iff, eq_comm]
  unfold FieldSite.of? Uses
  simp only [form]
  cases FieldUse.ofOpcode? instruction.opcode with
  | none => simp
  | some use =>
    cases instruction.poolIndex? with
    | none => simp
    | some index =>
      obtain ⟨found, isStatic⟩ := use
      by_cases other : isStatic = field.isStatic
      · simp only [other, bne_self_eq_false, Bool.false_eq_true, if_false, Outcome.bind_eq_ok_iff,
          Option.some.injEq, FieldUse.mk.injEq, and_true]
        constructor
        · rintro ⟨reference, read, same⟩
          split at same
          · rename_i names
            have sites := Option.some.inj (Outcome.pure_eq_ok_iff.mp same)
            obtain ⟨rfl, rfl⟩ := FieldSite.mk.inj sites
            exact ⟨rfl, rfl, index, reference, rfl, read, ResolvedField.isNamedBy_iff.mp names⟩
          · cases same
        · rintro ⟨rfl, rfl, _, reference, rfl, read, names⟩
          refine ⟨reference, read, ?_⟩
          rw [if_pos (ResolvedField.isNamedBy_iff.mpr names)]
          rfl
      · simp [other]

/-- An instruction that uses a field takes three bytes. -/
theorem length_of_uses {direction : Direction}
    (suits : instruction.operands.Suits instruction.opcode)
    (uses : Uses pool field user direction instruction) : instruction.length = 3 := by
  obtain ⟨opcode, index, reference, indexed, -⟩ := uses
  obtain ⟨offset, code, operands⟩ := instruction
  cases operands with
  | plain bytes =>
    obtain ⟨-, -, -, -, counted⟩ := suits
    obtain rfl : code = _ := opcode
    rw [if_neg (FieldUse.opcode_ne_wide _), FieldUse.operandLength?_opcode] at counted
    show 1 + bytes.length = 3
    rw [← Option.some.inj counted]
  | branch | tableSwitch | lookupSwitch => cases indexed

/-- Whether an instruction is one of those that give way to calls: a use in a direction that has an
accessor. -/
def Redirectable (pool : Pool) (field : ResolvedField) (user : String) (accessors : FieldAccessors)
    (instruction : Instruction) : Prop :=
  ∃ direction, (accessors.inDirection direction).isSome = true ∧
    Uses pool field user direction instruction

/-- The redirection of a use, if there is an accessor for it. -/
def Redirection.ofSite? (field : ResolvedField) (accessors : FieldAccessors) (site : FieldSite) :
    Option Enhancer.Redirection :=
  (accessors.inDirection site.direction).map fun accessor =>
    { offset := site.offset, accessor, type := field.accessorType site.direction }

/-- The use that an instruction makes of a field, if it can be found out that it makes one. -/
def FieldSite.known? (pool : Pool) (field : ResolvedField) (user : String)
    (instruction : Instruction) : Option FieldSite :=
  (FieldSite.of? pool field user instruction).toOption.join

theorem FieldSite.known?_eq_some_iff {site : FieldSite} :
    known? pool field user instruction = some site ↔
      site.offset = instruction.offset ∧ Uses pool field user site.direction instruction := by
  rw [← of?_eq_some_iff, known?]
  cases FieldSite.of? pool field user instruction with
  | error error => simp [Except.toOption]
  | ok found => simp [Except.toOption]

/-- The redirection of an instruction, if it uses a field in a direction that has an accessor. -/
def Redirection.at? (pool : Pool) (field : ResolvedField) (user : String)
    (accessors : FieldAccessors) (instruction : Instruction) : Option Enhancer.Redirection :=
  (FieldSite.known? pool field user instruction).bind (Redirection.ofSite? field accessors)

theorem Redirection.at?_eq_some_iff {accessors : FieldAccessors}
    {redirection : Enhancer.Redirection} :
    at? pool field user accessors instruction = some redirection ↔
      ∃ direction, Uses pool field user direction instruction ∧
        accessors.inDirection direction = some redirection.accessor ∧
        redirection.offset = instruction.offset ∧
        redirection.type = field.accessorType direction := by
  rw [at?, Option.bind_eq_some_iff]
  constructor
  · rintro ⟨site, known, made⟩
    obtain ⟨place, uses⟩ := FieldSite.known?_eq_some_iff.mp known
    obtain ⟨accessor, wanted, rfl⟩ := Option.map_eq_some_iff.mp made
    exact ⟨site.direction, uses, wanted, place, rfl⟩
  · rintro ⟨direction, uses, wanted, place, type⟩
    refine ⟨⟨instruction.offset, direction⟩, FieldSite.known?_eq_some_iff.mpr ⟨rfl, uses⟩,
      Option.map_eq_some_iff.mpr ⟨_, wanted, ?_⟩⟩
    rw [← place, ← type]

theorem isSome_ofSite?_iff {accessors : FieldAccessors} :
    ((FieldSite.known? pool field user instruction).bind
        (Redirection.ofSite? field accessors)).isSome = true ↔
      Redirectable pool field user accessors instruction := by
  constructor
  · intro present
    obtain ⟨redirection, found⟩ := Option.isSome_iff_exists.mp present
    obtain ⟨direction, uses, wanted, -⟩ := Redirection.at?_eq_some_iff.mp found
    exact ⟨direction, Option.isSome_iff_exists.mpr ⟨_, wanted⟩, uses⟩
  · rintro ⟨direction, present, uses⟩
    obtain ⟨accessor, wanted⟩ := Option.isSome_iff_exists.mp present
    exact Option.isSome_iff_exists.mpr
      ⟨⟨instruction.offset, accessor, field.accessorType direction⟩,
        Redirection.at?_eq_some_iff.mpr ⟨direction, uses, wanted, rfl, rfl⟩⟩

instance {accessors : FieldAccessors} :
    Decidable (Redirectable pool field user accessors instruction) :=
  decidable_of_iff _ isSome_ofSite?_iff

end sites

/-! ### Redirections -/

/-- Redirections of the uses that have an accessor, and of nothing else. -/
structure Redirects (pool : Pool) (field : ResolvedField) (user : String)
    (accessors : FieldAccessors) (instructions : List Instruction)
    (redirections : List Enhancer.Redirection) : Prop where
  mem_iff : ∀ redirection, redirection ∈ redirections ↔
    ∃ instruction ∈ instructions, ∃ direction, Uses pool field user direction instruction ∧
      accessors.inDirection direction = some redirection.accessor ∧
      redirection.offset = instruction.offset ∧ redirection.type = field.accessorType direction
  length_eq : redirections.length =
    instructions.countP fun instruction => Redirectable pool field user accessors instruction

/-- The redirections of the uses that are found are those of the instructions in turn. -/
theorem filterMap_of_findAll {pool : Pool} {field : ResolvedField} {user : String}
    {instructions : List Instruction} {sites : List FieldSite}
    (found : FieldSite.findAll pool field user instructions = .ok sites)
    (accessors : FieldAccessors) :
    sites.filterMap (Redirection.ofSite? field accessors) =
      instructions.filterMap (Redirection.at? pool field user accessors) := by
  simp only [FieldSite.findAll, Outcome.bind_eq_ok_iff, Outcome.pure_eq_ok_iff] at found
  obtain ⟨results, sought, rfl⟩ := found
  have known : results = instructions.map (FieldSite.known? pool field user) := by
    refine Outcome.eq_map_of_mapM (fun instruction _ result here => ?_) sought
    rw [FieldSite.known?, here]
    rfl
  rw [known, List.filterMap_map, List.filterMap_filterMap]
  rfl

theorem redirects_of_findAll {pool : Pool} {field : ResolvedField} {user : String}
    {accessors : FieldAccessors} {instructions : List Instruction} {sites : List FieldSite}
    (found : FieldSite.findAll pool field user instructions = .ok sites) :
    Redirects pool field user accessors instructions
      (sites.filterMap (Redirection.ofSite? field accessors)) := by
  rw [filterMap_of_findAll found accessors]
  constructor
  · intro redirection
    rw [List.mem_filterMap]
    exact exists_congr fun instruction => and_congr_right fun _ => Redirection.at?_eq_some_iff
  · rw [List.length_filterMap_eq_countP]
    refine List.countP_congr fun instruction _ => ?_
    rw [decide_eq_true_iff]
    exact isSome_ofSite?_iff

/-! ### Calls -/

/-- Whether an index leads to an accessor of a field: a method of the class that declares the field,
or of the interface if that is one. -/
def LeadsTo (pool : Pool) (field : ResolvedField) (accessor : String) (type : MethodType)
    (index : UInt16) : Prop :=
  pool.memberReference index = .ok ⟨field.owner, accessor, type.descriptor⟩ ∧
    ∃ owner nameAndType, pool.get index =
      .ok (if field.ownerIsInterface then .interfaceMethod owner nameAndType
        else .method owner nameAndType)

theorem LeadsTo.extends {before after : Pool} (grown : before.Extends after)
    {field : ResolvedField} {accessor : String} {type : MethodType} {index : UInt16}
    (leads : LeadsTo before field accessor type index) :
    LeadsTo after field accessor type index := by
  obtain ⟨reference, owner, nameAndType, got⟩ := leads
  exact ⟨grown.memberReference reference, owner, nameAndType, grown.get got⟩

/-- Whether an instruction calls an accessor of a field. -/
def Calls (pool : Pool) (field : ResolvedField) (accessor : String) (type : MethodType)
    (instruction : Instruction) : Prop :=
  instruction.opcode = Opcode.invokestatic ∧
    ∃ index, instruction.operands = .plain (BigEndian.word16 index) ∧
      LeadsTo pool field accessor type index

theorem Calls.extends {before after : Pool} (grown : before.Extends after) {field : ResolvedField}
    {accessor : String} {type : MethodType} {instruction : Instruction}
    (calls : Calls before field accessor type instruction) :
    Calls after field accessor type instruction := by
  obtain ⟨opcode, index, operands, leads⟩ := calls
  exact ⟨opcode, index, operands, leads.extends grown⟩

/-- An edit that puts the call of an accessor in place of a use. -/
def CallsInstead (pool : Pool) (field : ResolvedField) (redirection : Enhancer.Redirection)
    (edit : CodeEdit) : Prop :=
  ∃ index, edit = .replace redirection.offset (Opcode.invokestatic :: BigEndian.word16 index) ∧
    LeadsTo pool field redirection.accessor redirection.type index

theorem CallsInstead.extends {before after : Pool} (grown : before.Extends after)
    {field : ResolvedField} {redirection : Enhancer.Redirection} {edit : CodeEdit}
    (calls : CallsInstead before field redirection edit) :
    CallsInstead after field redirection edit := by
  obtain ⟨index, same, leads⟩ := calls
  exact ⟨index, same, leads.extends grown⟩

theorem callsInstead_of_edit {pool after : Pool} (assembled : pool.Assembled)
    {field : ResolvedField} {redirection : Enhancer.Redirection} {edit : CodeEdit}
    (made : redirection.edit field pool = (.ok edit, after)) :
    CallsInstead after field redirection edit := by
  obtain ⟨index, middle, interned, done⟩ := Stateful.bind_eq_ok_iff.mp made
  obtain ⟨rfl, rfl⟩ := Stateful.pure_eq_ok_iff.mp done
  refine ⟨index, rfl, ?_⟩
  unfold LeadsTo
  cases owner : field.ownerIsInterface with
  | true =>
    rw [owner] at interned
    exact Pool.memberReference_of_internMember assembled (.inr (.inr rfl)) interned
  | false =>
    rw [owner] at interned
    exact Pool.memberReference_of_internMember assembled (.inr (.inl rfl)) interned

theorem forall₂_callsInstead {pool after : Pool} (assembled : pool.Assembled)
    {field : ResolvedField} {redirections : List Enhancer.Redirection} {edits : List CodeEdit}
    (made : redirections.mapM (Enhancer.Redirection.edit field) pool = (.ok edits, after)) :
    List.Forall₂ (CallsInstead after field) redirections edits :=
  Pool.forall₂_of_mapM (fun pool => CallsInstead pool field)
    (fun redirection =>
      (Enhancer.always_editRedirection field redirection).mono Pool.Linked.grown)
    (fun assembled made => callsInstead_of_edit assembled made)
    (fun grown calls => calls.extends grown) assembled made

/-! ### Calls in place of uses -/

theorem isPlain_call (index : UInt16) : IsPlain Opcode.invokestatic (BigEndian.word16 index) := by
  refine ⟨by decide, by decide, by decide, by decide, ?_⟩
  have operands : Opcode.operandLength? Opcode.invokestatic = some 2 := by
    decide +kernel
  exact operands

theorem isPlain_use (use : FieldUse) (index : UInt16) :
    IsPlain use.opcode (BigEndian.word16 index) := by
  have apart : Opcode.isShortBranch use.opcode = false ∧ Opcode.isWideBranch use.opcode = false ∧
      use.opcode ≠ Opcode.tableswitch ∧ use.opcode ≠ Opcode.lookupswitch := by
    obtain ⟨direction, isStatic⟩ := use
    cases direction <;> cases isStatic <;> decide
  obtain ⟨short, far, table, lookup⟩ := apart
  refine ⟨short, far, table, lookup, ?_⟩
  rw [if_neg use.opcode_ne_wide]
  exact use.operandLength?_opcode

/-- The code of a call decodes to the call. -/
theorem decode_call (index : UInt16) :
    Code.decode (Opcode.invokestatic :: BigEndian.word16 index) =
      .ok [⟨0, Opcode.invokestatic, .plain (BigEndian.word16 index)⟩] := by
  have readable : Code.Readable 3 ⟨0, Opcode.invokestatic, .plain (BigEndian.word16 index)⟩
      (BigEndian.word16 index) [] :=
    ⟨⟨isPlain_call index, List.forall_mem_nil _⟩, [0, 0, 0], rfl, rfl⟩
  exact Code.decode_eq_ok_iff.mpr
    ⟨.cons readable .nil, List.forall_mem_singleton.mpr (List.forall_mem_nil _)⟩

theorem instructionsAt_call (offset : Nat) (index : UInt16) :
    Code.instructionsAt offset (Opcode.invokestatic :: BigEndian.word16 index) =
      [⟨offset, Opcode.invokestatic, .plain (BigEndian.word16 index)⟩] := by
  rw [Code.instructionsAt, decode_call]
  rfl

/-- What becomes of an instruction when the uses of a field are redirected: a use that has an
accessor gives way to a call of it at the same place, and everything else stays. -/
inductive Becomes (before after : Pool) (field : ResolvedField) (user : String)
    (accessors : FieldAccessors) : Instruction → Instruction → Prop
  | kept {instruction : Instruction}
      (other : ¬Redirectable before field user accessors instruction) :
      Becomes before after field user accessors instruction instruction
  | called {instruction call : Instruction} {direction : Direction} {accessor : String}
      (uses : Uses before field user direction instruction)
      (wanted : accessors.inDirection direction = some accessor)
      (calls : Calls after field accessor (field.accessorType direction) call)
      (place : call.offset = instruction.offset) :
      Becomes before after field user accessors instruction call

section edits

open CodeEdit

variable {before after : Pool} {field : ResolvedField} {user : String} {accessors : FieldAccessors}
  {code : Bytes} {instructions : List Instruction} {redirections : List Enhancer.Redirection}
  {edits : List CodeEdit}

/-- A redirection at an offset is carried out by a replacement there. -/
theorem isSome_replacementAt? (calls : List.Forall₂ (CallsInstead after field) redirections edits)
    {redirection : Enhancer.Redirection} (member : redirection ∈ redirections) :
    (replacementAt? edits redirection.offset).isSome = true := by
  induction calls with
  | nil => cases member
  | @cons first edit rest others firstCalls _ inductionHypothesis =>
    obtain rfl | later := List.mem_cons.mp member
    · obtain ⟨index, rfl, -⟩ := firstCalls
      exact Code.isSome_replacementAt?_of_mem List.mem_cons_self
    · obtain ⟨substitute, found⟩ := Option.isSome_iff_exists.mp (inductionHypothesis later)
      exact Code.isSome_replacementAt?_of_mem
        (List.mem_cons_of_mem edit (mem_of_replacementAt? found))

variable (decoded : Code.decode code = .ok instructions)
  (redirects : Redirects before field user accessors instructions redirections)
  (calls : List.Forall₂ (CallsInstead after field) redirections edits)

include redirects calls

theorem not_redirectable_of_replacementAt? {instruction : Instruction}
    (member : instruction ∈ instructions)
    (none : replacementAt? edits instruction.offset = none) :
    ¬Redirectable before field user accessors instruction := by
  rintro ⟨direction, wanted, uses⟩
  obtain ⟨accessor, found⟩ := Option.isSome_iff_exists.mp wanted
  have redirected : ⟨instruction.offset, accessor, field.accessorType direction⟩ ∈ redirections :=
    (redirects.mem_iff _).mpr ⟨instruction, member, direction, uses, found, rfl, rfl⟩
  have replaced := isSome_replacementAt? calls redirected
  rw [none] at replaced
  cases replaced

include decoded

/-- What is put in place of an instruction is the call of an accessor that it needs. -/
theorem exists_of_replacementAt? {instruction : Instruction} (member : instruction ∈ instructions)
    {substitute : Bytes} (found : replacementAt? edits instruction.offset = some substitute) :
    ∃ direction accessor index, Uses before field user direction instruction ∧
      accessors.inDirection direction = some accessor ∧
      substitute = Opcode.invokestatic :: BigEndian.word16 index ∧
      LeadsTo after field accessor (field.accessorType direction) index := by
  obtain ⟨redirection, redirected, index, same, leads⟩ :=
    exists_mem_of_forall₂_right calls (mem_of_replacementAt? found)
  obtain ⟨place, rfl⟩ := CodeEdit.replace.inj same
  obtain ⟨other, otherMember, direction, uses, wanted, here, type⟩ :=
    (redirects.mem_iff redirection).mp redirected
  have tiles := (Code.decode_eq_ok_iff.mp decoded).1
  obtain rfl := tiles.eq_of_offset_eq otherMember member (here.symm.trans place.symm)
  rw [type] at leads
  exact ⟨direction, redirection.accessor, index, uses, wanted, rfl, leads⟩

theorem inPlace_of_callsInstead : Code.InPlace instructions edits := by
  constructor
  · intro edit member
    obtain ⟨redirection, -, index, rfl, -⟩ := exists_mem_of_forall₂_right calls member
    rfl
  · intro instruction member substitute found
    obtain ⟨direction, accessor, index, uses, -, rfl, -⟩ :=
      exists_of_replacementAt? decoded redirects calls member found
    have suits := (Code.decode_eq_ok_iff.mp decoded).1.suits instruction member
    rw [length_of_uses suits uses]
    rfl

theorem becomes_successors {instruction : Instruction} (member : instruction ∈ instructions) :
    ∃ new, Code.successors edits instruction = [new] ∧
      Becomes before after field user accessors instruction new := by
  unfold Code.successors
  cases found : replacementAt? edits instruction.offset with
  | none =>
    exact ⟨instruction, rfl,
      .kept (not_redirectable_of_replacementAt? redirects calls member found)⟩
  | some substitute =>
    obtain ⟨direction, accessor, index, uses, wanted, rfl, leads⟩ :=
      exists_of_replacementAt? decoded redirects calls member found
    exact ⟨_, instructionsAt_call _ _, .called uses wanted ⟨rfl, index, rfl, leads⟩ rfl⟩

theorem becomes_row :
    List.Forall₂ (Becomes before after field user accessors) instructions
      (instructions.flatMap (Code.successors edits)) :=
  forall₂_flatMap_of_singletons fun _ member => becomes_successors decoded redirects calls member

/-- An instruction that something is put in place of is one of those that give way to calls. -/
theorem redirectable_of_replacementAt? {instruction : Instruction}
    (member : instruction ∈ instructions)
    (replaced : (replacementAt? edits instruction.offset).isSome = true) :
    Redirectable before field user accessors instruction := by
  obtain ⟨substitute, found⟩ := Option.isSome_iff_exists.mp replaced
  obtain ⟨direction, accessor, -, uses, wanted, -, -⟩ :=
    exists_of_replacementAt? decoded redirects calls member found
  exact ⟨direction, by rw [wanted]; rfl, uses⟩

end edits

end Enhancement

end JavaClass
