/-
Calls of accessors do not dangle. Where a use of a field that the class declares gave way to a call,
the call names the class, and what the class has under the name and the descriptor that are called
is an accessor which uses that very field the way it was used. Whether the field is declared or
inherited, the call does to the operand stack what the use did, so the stack that a body declares is
as deep as it has to be afterwards too.
-/

import JavaClass.Proofs.Enhancement.AccessorLookup
import JavaClass.Proofs.Enhancement.CallEffects

namespace JavaClass

/-! ### The code of an accessor -/

namespace Builder

theorem variant_mem (type : FieldType) : variant type ∈ [0, 1, 2, 3, 4] := by
  unfold variant
  split
  all_goals decide

theorem isAlone_of_variant : ∀ kind ∈ ([0, 1, 2, 3, 4] : List UInt8),
    IsAlone (Opcode.iload0 + 4 * kind + 0) ∧ IsAlone (Opcode.iload0 + 4 * kind + 1) ∧
      IsAlone (Opcode.ireturn + kind) := by
  decide +kernel

theorem isAlone_of_mem_returnCode {type : FieldType} {opcode : UInt8}
    (member : opcode ∈ returnCode type) : IsAlone opcode := by
  unfold returnCode at member
  split at member
  · obtain rfl := List.mem_singleton.mp member
    decide +kernel
  · obtain rfl := List.mem_singleton.mp member
    exact (isAlone_of_variant _ (variant_mem type)).2.2

end Builder

/-- Bits outside a mask do not matter under it. -/
theorem Flags.union_and {holder : FlagHolder} {flags other : Flags holder} {mask : UInt16}
    (outside : other.bits &&& mask = 0) :
    (flags.union other).bits &&& mask = flags.bits &&& mask := by
  simp only [Flags.union, ← UInt16.toBitVec_inj, UInt16.toBitVec_and, UInt16.toBitVec_or]
    at outside ⊢
  ext place inside
  have none : (other.bits.toBitVec[place] && mask.toBitVec[place]) = false := by
    rw [← BitVec.getElem_and, outside]
    exact BitVec.getElem_zero inside
  rw [BitVec.getElem_and, BitVec.getElem_or, BitVec.getElem_and, Bool.and_or_distrib_right, none,
    Bool.or_false]

namespace Enhancement

theorem ResolvedField.isAlone_of_mem_loads {field : ResolvedField} {direction : Direction}
    {opcode : UInt8} (member : opcode ∈ field.loads direction) : IsAlone opcode := by
  obtain ⟨first, second, -⟩ := Builder.isAlone_of_variant _ (Builder.variant_mem field.type)
  have receiver : IsAlone Opcode.aload0 := by
    decide +kernel
  obtain ⟨owner, name, type, isStatic, ownerIsInterface⟩ := field
  cases direction with
  | read =>
    cases isStatic with
    | true => exact absurd member List.not_mem_nil
    | false =>
      obtain rfl := List.mem_singleton.mp member
      exact receiver
  | write =>
    cases isStatic with
    | true =>
      obtain rfl := List.mem_singleton.mp member
      exact first
    | false =>
      obtain rfl | later := List.mem_cons.mp member
      · exact receiver
      · obtain rfl := List.mem_singleton.mp later
        exact second

/-- The instructions of an accessor, as opcodes with what stands behind them. -/
def ResolvedField.accessorParts (field : ResolvedField) (direction : Direction) (index : UInt16) :
    List (UInt8 × Bytes) :=
  (field.loads direction).map (Prod.mk · []) ++
    ((field.accessorUse direction).opcode, BigEndian.word16 index) ::
      (Builder.returnCode (field.accessorType direction).returns).map (Prod.mk · [])

theorem ResolvedField.flatMap_accessorParts (field : ResolvedField) (direction : Direction)
    (index : UInt16) :
    (field.accessorParts direction index).flatMap (fun part => part.1 :: part.2) =
      (field.accessorBody direction index).code := by
  have spelt (opcodes : Bytes) :
      (opcodes.map (Prod.mk · ([] : Bytes))).flatMap (fun part => part.1 :: part.2) = opcodes := by
    rw [List.flatMap_map]
    exact List.flatMap_singleton' opcodes
  rw [accessorParts, List.flatMap_append, List.flatMap_cons, spelt, spelt, ← List.append_assoc]
  rfl

/-- The code of an accessor decodes, and one of its instructions is the use of the field. -/
theorem ResolvedField.exists_use_of_accessorBody (field : ResolvedField) (direction : Direction)
    (index : UInt16) :
    ∃ instructions, (field.accessorBody direction index).instructions = .ok instructions ∧
      ∃ instruction ∈ instructions, instruction.opcode = (field.accessorUse direction).opcode ∧
        instruction.poolIndex? = some index := by
  let use := field.accessorUse direction
  have plain : ∀ part ∈ field.accessorParts direction index, IsPlain part.1 part.2 := by
    refine List.forall_mem_append.mpr ⟨List.forall_mem_map.mpr fun opcode member => ?_,
      List.forall_mem_cons.mpr ⟨isPlain_use use index,
        List.forall_mem_map.mpr fun opcode member => ?_⟩⟩
    · exact isPlain_nil_of_isAlone (isAlone_of_mem_loads member)
    · exact isPlain_nil_of_isAlone (Builder.isAlone_of_mem_returnCode member)
  obtain ⟨instructions, decoded, same⟩ := Code.exists_decode_of_plain plain
  rw [field.flatMap_accessorParts] at decoded
  have listed : (use.opcode, Operands.plain (BigEndian.word16 index)) ∈
      instructions.map fun instruction => (instruction.opcode, instruction.operands) := by
    rw [same]
    exact List.mem_map.mpr ⟨_, List.mem_append_right _ List.mem_cons_self, rfl⟩
  obtain ⟨⟨offset, opcode, operands⟩, member, isUse⟩ := List.mem_map.mp listed
  obtain ⟨rfl, rfl⟩ := Prod.mk.inj isUse
  exact ⟨instructions, decoded, _, member, rfl,
    Instruction.poolIndex?_word16 use.hasPoolIndex_opcode offset index⟩

/-! ### Calls that are answered -/

theorem visibility_accessorFlags (isInterface : Bool) (flags : FieldFlags) :
    (Enhancer.accessorFlags isInterface flags).bits &&& 0x0007 = flags.bits &&& 0x0007 := by
  have common : (flags.visibility.union
      (MethodFlags.accStatic.union MethodFlags.accSynthetic)).bits &&& 0x0007 =
        flags.bits &&& 0x0007 := by
    rw [Flags.union_and (by decide), FieldFlags.visibility, UInt16.and_assoc]
    rfl
  unfold Enhancer.accessorFlags
  cases isInterface with
  | true => exact common
  | false =>
    rw [if_neg Bool.false_ne_true, Flags.union_and (by decide)]
    exact common

/-- The method that answers a call in place of the use of a field which the class declares. It is
what the class has under the name and the descriptor that are called, it is static and as visible as
the field, and it uses the very field that was used, in the same way. -/
structure Answers (enhancer : Enhancer) (declared : Field) (use : FieldUse)
    (used called : MemberReference) (method : Method) : Prop where
  found : enhancer.file.method? called.name called.descriptor = some method
  isStatic : method.flags.has MethodFlags.accStatic = true
  visibility : method.flags.bits &&& 0x0007 = declared.flags.bits &&& 0x0007
  body : ∃ body instructions, Method.body? method = some body ∧
    body.instructions = .ok instructions ∧
      ∃ instruction ∈ instructions, ∃ index owner nameAndType,
        instruction.opcode = use.opcode ∧ instruction.poolIndex? = some index ∧
          enhancer.file.pool.get index = .ok (.field owner nameAndType) ∧
          enhancer.file.pool.memberReference index = .ok used

/-- The call in place of the use of a field which the class declares: it names the class, which is
told apart from an interface, and is answered there. -/
structure CallsOwn (enhancer : Enhancer) (declared : Field) (use : FieldUse)
    (used called : MemberReference) (new : Instruction) : Prop where
  owner : enhancer.file.name = .ok called.owner
  sameOwner : used.owner = called.owner
  name : enhancer.file.pool.text declared.name = .ok used.name
  descriptor : enhancer.file.pool.text declared.descriptor = .ok used.descriptor
  typed : ∃ type, FieldType.parse used.descriptor = .ok type
  constant : ∃ index owner nameAndType, new.poolIndex? = some index ∧
    enhancer.file.pool.get index = .ok (if enhancer.file.isInterface then
      .interfaceMethod owner nameAndType else .method owner nameAndType)
  answered : ∃ method, Answers enhancer declared use used called method

/-- The static call that stands in for the use of a managed field, with the effect on the operand
stack that this had. The managed field is one that the class declares if it has a field like the one
that was used. -/
structure StandsIn (enhancer : Enhancer) (managed : ManagedField) (use : FieldUse)
    (used called : MemberReference) (old new : Instruction) : Prop where
  uses : old.opcode = use.opcode ∧ old.Names enhancer.file.pool used
  calls : new.opcode = Opcode.invokestatic ∧ new.Names enhancer.file.pool called
  effect : ∀ type, FieldType.parse used.descriptor = .ok type →
    old.effect? enhancer.file.pool = some (use.effect type) ∧
      new.effect? enhancer.file.pool = some (use.effect type)
  declares : (enhancer.file.field? used.name (some used.descriptor)).isSome = true →
    declares enhancer.file managed = true
  own : ∀ declared, enhancer.file.field? managed.name managed.descriptor = some declared →
    CallsOwn enhancer declared use used called new

section answers

variable {enhancer : Enhancer} {managed : ManagedField} {field : ResolvedField} {user : String}
  {direction : Direction} {accessor : String} {old new : Instruction}

theorem answers_of_isAccessor {isInterface : Bool} {declared : Field} {method : Method}
    (made : IsAccessor enhancer.file.pool field
      (Enhancer.accessorFlags isInterface declared.flags) (direction, accessor) method)
    (found : enhancer.file.method? accessor (field.accessorType direction).descriptor =
      some method) :
    Answers enhancer declared (field.accessorUse direction)
      ⟨field.owner, field.name, field.type.descriptor⟩
      ⟨field.owner, accessor, (field.accessorType direction).descriptor⟩ method where
  found := found
  isStatic := by
    rw [made.flags]
    exact has_accStatic_accessorFlags _ _
  visibility := by
    rw [made.flags]
    exact visibility_accessorFlags _ _
  body := by
    obtain ⟨codeName, index, -, reference, ⟨owner, nameAndType, got⟩, attributes⟩ :=
      made.attributes
    have hasBody : Method.body? method = some (field.accessorBody direction index) := by
      rw [Method.body?, attributes]
      rfl
    obtain ⟨instructions, decoded, instruction, member, opcode, indexed⟩ :=
      field.exists_use_of_accessorBody direction index
    exact ⟨_, instructions, hasBody, decoded, instruction, member, index, owner, nameAndType,
      opcode, indexed, got, reference⟩

theorem mem_wantedAccessors {accessors : FieldAccessors}
    (wanted : accessors.inDirection direction = some accessor) :
    (direction, accessor) ∈ Enhancer.wantedAccessors accessors := by
  cases direction with
  | read =>
    refine List.mem_append_left _ (Option.mem_toList.mpr (Option.mem_def.mpr ?_))
    exact Option.map_eq_some_iff.mpr ⟨accessor, wanted, rfl⟩
  | write =>
    refine List.mem_append_right _ (Option.mem_toList.mpr (Option.mem_def.mpr ?_))
    exact Option.map_eq_some_iff.mpr ⟨accessor, wanted, rfl⟩

/-- A call in place of the use of a field that the class declares is answered by the accessor that
is found. -/
theorem GivesWay.callsOwn
    (gives : GivesWay enhancer managed field user direction accessor old new)
    {declared : Field}
    (found : enhancer.file.field? managed.name managed.descriptor = some declared)
    (finds : FindsAccessor enhancer managed (direction, accessor)) {used : MemberReference}
    (named : field.IsNamedBy user used) :
    CallsOwn enhancer declared (field.accessorUse direction) used
      ⟨field.owner, accessor, (field.accessorType direction).descriptor⟩ new := by
  obtain ⟨owner, name, descriptor⟩ := used
  obtain ⟨sameOwner, rfl, rfl⟩ := named
  obtain ⟨declaring, type, isDeclaring, described, parsed, same⟩ :=
    exists_of_resolveField_declared found gives.resolved
  have itself : enhancer.file.name = .ok field.owner := by
    rw [same]
    exact isDeclaring
  have owner : owner = field.owner := by
    obtain rfl | rfl := sameOwner
    · exact Except.ok.inj (gives.named.symm.trans itself)
    · rfl
  subst owner
  have isCalled := List.find?_some found
  obtain ⟨nameHolds, -⟩ := Bool.and_eq_true_iff.mp isCalled
  constructor
  · exact itself
  · rfl
  · rw [name_of_resolveField gives.resolved]
    exact Pool.text_of_holdsText nameHolds
  · rw [same]
    exact described
  · rw [same]
    exact ⟨type, parsed⟩
  · obtain ⟨-, index, operands, -, owner, nameAndType, got⟩ := gives.calls
    obtain ⟨offset, code, bytes⟩ := new
    have opcode : code = Opcode.invokestatic := gives.calls.1
    subst opcode operands
    refine ⟨index, owner, nameAndType, Instruction.poolIndex?_word16 (by decide) offset index, ?_⟩
    rw [same] at got
    exact got
  · obtain ⟨other, _, method, resolved, foundAgain, located, made⟩ := finds
    obtain rfl := Except.ok.inj (gives.resolved.symm.trans resolved)
    obtain rfl := Option.some.inj (found.symm.trans foundAgain)
    exact ⟨method, answers_of_isAccessor made located⟩

theorem GivesWay.exists_standsIn
    (gives : GivesWay enhancer managed field user direction accessor old new)
    (owner : (FieldType.object field.owner).Valid)
    (finds : declares enhancer.file managed = true →
      FindsAccessor enhancer managed (direction, accessor)) :
    ∃ use used called, StandsIn enhancer managed use used called old new := by
  obtain ⟨used, names, named⟩ := gives.names_used
  refine ⟨field.accessorUse direction, used, _, ⟨gives.uses.1, names⟩,
    ⟨gives.calls.1, gives.names_called⟩, fun type parsed => ?_, fun present => ?_,
    fun declared found => ?_⟩
  · have known : old.effect? enhancer.file.pool =
        some ((field.accessorUse direction).effect type) := by
      rw [Instruction.effect?_of_use gives.uses.1 names, parsed]
      rfl
    exact ⟨known, gives.effects owner known⟩
  · rw [named.2.1, named.2.2, name_of_resolveField gives.resolved] at present
    exact isSome_field?_of_resolveField gives.resolved present
  · refine gives.callsOwn found (finds ?_) named
    rw [declares, found]
    rfl

end answers

/-! ### Whole classes -/

/-- A body in which uses of managed fields gave way to calls, each of which stands in for the use
that was there. The stack that the body declares is the same and suffices if it did, whatever the
other instructions do. -/
structure CallsStandIn (plan : Plan) (before : Pool) (after : Enhancer) (old new : Body) :
    Prop where
  maxStack : new.maxStack = old.maxStack
  stack : ∀ others, old.StackSuffices before others → new.StackSuffices after.file.pool others
  calls : ∃ olds news, old.instructions = .ok olds ∧ new.instructions = .ok news ∧
    ∀ instruction call, Code.Changed olds news instruction call →
      ∃ managed ∈ plan.managedFields, ∃ use used called,
        StandsIn after managed use used called instruction call

section plans

variable {plan : Plan} {before after : Enhancer} {count : Nat}

/-- The classes whose names accessors may take have names that do not end early. -/
theorem valid_owner_of_resolveField
    (named : ∀ name, after.file.name = .ok name → (FieldType.object name).Valid)
    (owners : ∀ inherited ∈ after.inherited, (FieldType.object inherited.owner).Valid)
    {managed : ManagedField} {field : ResolvedField}
    (resolved : Enhancer.resolveField managed.name managed.descriptor after = .ok field) :
    (FieldType.object field.owner).Valid := by
  obtain isName | ⟨inherited, member, same⟩ := owner_of_resolveField resolved
  · exact named _ isName
  · rw [← same]
    exact owners inherited member

theorem callsStandIn_of_revised (grown : before.file.pool.Extends after.file.pool)
    (owners : ∀ managed ∈ plan.managedFields, ∀ field,
      Enhancer.resolveField managed.name managed.descriptor after = .ok field →
        (FieldType.object field.owner).Valid)
    (finds : ∀ managed ∈ plan.managedFields, declares after.file managed = true →
      ∀ wanted ∈ Enhancer.wantedAccessors managed.accessors, FindsAccessor after managed wanted)
    {old new : Body} (revised : old.Revised (Replaces plan.managedFields after) new) :
    CallsStandIn plan before.file.pool after old new where
  maxStack := revised.maxStack
  stack := fun others enough => by
    refine enough.of_revised grown (fun instruction call replaced => ?_) revised
    obtain ⟨managed, inPlan, field, user, direction, accessor, gives⟩ := replaced
    exact gives.sameFlow (owners managed inPlan field gives.resolved) grown others
  calls := by
    obtain ⟨olds, news, code⟩ := revised.code
    refine ⟨olds, news, code.old, code.new, fun instruction call changed => ?_⟩
    obtain ⟨different, index, oldFound, newFound⟩ := changed
    obtain ⟨found, sameNew, same | replaced⟩ := exists_getElem?_of_forall₂ code.row oldFound
    · obtain rfl := Option.some.inj (newFound.symm.trans sameNew)
      exact absurd same different
    · obtain rfl := Option.some.inj (newFound.symm.trans sameNew)
      obtain ⟨managed, inPlan, field, user, direction, accessor, gives⟩ := replaced
      exact ⟨managed, inPlan, gives.exists_standsIn (owners managed inPlan field gives.resolved)
        fun declared => finds managed inPlan declared _ (mem_wantedAccessors gives.wanted)⟩

/-- What the calls are that a plan puts in place of uses of managed fields. -/
theorem callsStandIn_of_applySteps (proper : before.file.WellFormed)
    (named : ∀ name, before.file.name = .ok name → (FieldType.object name).Valid)
    (owners : ∀ inherited ∈ before.inherited ++ plan.inheritedFields,
      (FieldType.object inherited.owner).Valid)
    (ran : Enhancer.applySteps plan before = (.ok count, after)) :
    ∃ kept added, after.file.methods = kept ++ added ∧
      List.Forall₂ (fun old new => new = old ∨ ∃ oldBody newBody,
        Method.body? old = some oldBody ∧ new = Method.setBody newBody old ∧
          CallsStandIn plan before.file.pool after oldBody newBody) before.file.methods kept := by
  have legible := proper.legible
  have carried := carriedOut_of_applySteps legible ran
  have grown := ((Enhancer.always_applySteps plan).relates ran).grown legible.pool
  have sameName : after.file.name = before.file.name := by
    unfold ClassFile.name
    rw [carried.thisClass]
    exact grown.className_eq proper.references proper.thisClass
  obtain ⟨kept, added, methods, row, -⟩ := carried.methods
  have finds (managed : ManagedField) (inPlan : managed ∈ plan.managedFields)
      (declared : declares after.file managed = true) (wanted : Direction × String)
      (isWanted : wanted ∈ Enhancer.wantedAccessors managed.accessors) :=
    findsAccessor_of_applySteps legible ran inPlan declared isWanted
  refine ⟨kept, added, methods, row.imp fun old new revised => ?_⟩
  obtain same | ⟨-, oldBody, newBody, found, same, revised⟩ := revised
  · exact .inl same
  · refine .inr ⟨oldBody, newBody, found, same, callsStandIn_of_revised grown
      (fun managed inPlan field resolved => ?_) finds revised⟩
    refine valid_owner_of_resolveField ?_ ?_ resolved
    · rw [sameName]
      exact named
    · rw [carried.inherited]
      exact owners

end plans

/-- What the calls are that a plan puts in place of uses of managed fields in a class that was read,
whatever the class inherits and whatever is reported: each of them stands in for the use that was
there, provided that the names of the class and of those it inherits from are neither empty nor cut
short by a semicolon. -/
theorem callsStandIn_of_apply_of_read {bytes : Bytes} {file : ClassFile}
    (read : ClassFile.read bytes = .ok file) {reporting : Reporting}
    {inherited : List InheritedField} {plan : Plan} {count : Nat} {after : Enhancer}
    (named : ∀ name, file.name = .ok name → (FieldType.object name).Valid)
    (owners : ∀ field ∈ inherited ++ plan.inheritedFields, (FieldType.object field.owner).Valid)
    (ran : Enhancer.apply plan (.ofClass reporting inherited file) = (.ok count, after)) :
    ∃ kept added, after.file.methods = kept ++ added ∧
      List.Forall₂ (fun old new => new = old ∨ ∃ oldBody newBody,
        Method.body? old = some oldBody ∧ new = Method.setBody newBody old ∧
          CallsStandIn plan file.pool after oldBody newBody) file.methods kept := by
  have proper : (Enhancer.ofClass reporting inherited file).file.WellFormed :=
    (ClassFile.read_eq_ok_iff.mp read).1
  exact callsStandIn_of_applySteps proper named owners (Enhancer.apply_eq_ok_iff.mp ran)

/-- The calls of the accessor that the static field gets. -/
theorem callsStandIn_of_apply_of_read_planOfUses :
    ∃ file after, ClassFile.read fileOfUses = .ok file ∧
      (∀ name, file.name = .ok name → (FieldType.object name).Valid) ∧
      Enhancer.apply planOfUses (.ofClass .silent [] file) = (.ok 2, after) ∧
      ∃ kept added, after.file.methods = kept ++ added ∧
        List.Forall₂ (fun old new => new = old ∨ ∃ oldBody newBody,
          Method.body? old = some oldBody ∧ new = Method.setBody newBody old ∧
            CallsStandIn planOfUses file.pool after oldBody newBody) file.methods kept := by
  have counted : (ClassFile.read fileOfUses).map (fun file =>
      (file.name, (Enhancer.apply planOfUses (.ofClass .silent [] file)).1)) =
        .ok (.ok "A", .ok 2) := by
    decide +kernel
  obtain ⟨file, read, results⟩ := Outcome.map_eq_ok_iff.mp counted
  obtain ⟨isName, succeeds⟩ := Prod.mk.inj results
  have named (name : String) (found : file.name = .ok name) : (FieldType.object name).Valid := by
    obtain rfl := Except.ok.inj (isName.symm.trans found)
    exact ⟨by decide, by decide⟩
  cases ran : Enhancer.apply planOfUses (.ofClass .silent [] file) with
  | mk result after =>
    rw [ran] at succeeds
    obtain rfl := succeeds
    exact ⟨file, after, read, named, ran,
      callsStandIn_of_apply_of_read read named (List.forall_mem_nil _) ran⟩

end Enhancement

end JavaClass
