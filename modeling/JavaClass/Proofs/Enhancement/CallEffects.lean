/-
What the calls of accessors do to the operand stack. An accessor takes what the use of its field
takes, the instance if there is one and the value that is written, and returns what the use leaves;
so a call in place of a use has the effect that this had, as the descriptors of both tell it.

The descriptor of an accessor is made from the name of the class that has the field, so it tells
what the accessor takes only if that name does not end early, at a semicolon of its own.
-/

import JavaClass.Proofs.Code.OperandStack
import JavaClass.Proofs.Enhancement.Accessors
import JavaClass.Proofs.Enhancement.RevisedMethods

namespace JavaClass.Enhancement

/-! ### Accessors -/

section effects

variable (field : ResolvedField) (direction : Direction)

/-- An accessor takes what the use of the field takes, and returns what it leaves. -/
theorem effect_accessorType :
    (field.accessorType direction).effect = (field.accessorUse direction).effect field.type := by
  have pops := parameterSlots_accessorType field direction
  unfold MethodType.effect FieldUse.effect
  rw [pops]
  cases direction with
  | read => rfl
  | write => rfl

/-- The descriptor of an accessor depends on the type of the field only as far as that is spelt. -/
theorem descriptor_accessorType_of_descriptor_eq {type : FieldType}
    (same : type.descriptor = field.type.descriptor) :
    ({ field with type }.accessorType direction).descriptor =
      (field.accessorType direction).descriptor := by
  have spelt : type.characters = field.type.characters := String.ofList_injective same
  cases direction with
  | read =>
    show String.ofList ('(' :: (field.receiver.flatMap FieldType.characters ++
      ')' :: type.characters)) = _
    rw [spelt]
    rfl
  | write =>
    show String.ofList ('(' :: ((field.receiver ++ [type]).flatMap FieldType.characters ++
      ')' :: FieldType.void.characters)) = _
    rw [List.flatMap_append, List.flatMap_singleton, spelt, ← List.flatMap_singleton
      FieldType.characters field.type, ← List.flatMap_append]
    rfl

variable {field direction}

theorem valid_accessorType (owner : (FieldType.object field.owner).Valid)
    (type : field.type.Valid) : (field.accessorType direction).Valid := by
  have receiver : ∀ parameter ∈ field.receiver, parameter.Valid := by
    unfold ResolvedField.receiver
    split
    · exact List.forall_mem_nil _
    · exact List.forall_mem_singleton.mpr owner
  cases direction with
  | read => exact ⟨receiver, .inl type⟩
  | write =>
    exact ⟨List.forall_mem_append.mpr ⟨receiver, List.forall_mem_singleton.mpr type⟩, .inr rfl⟩

/-- The type that the descriptor of an accessor tells has the effect of the use. -/
theorem exists_parse_accessorType (direction : Direction)
    (owner : (FieldType.object field.owner).Valid) {type : FieldType}
    (parsed : FieldType.parse field.type.descriptor = .ok type) :
    ∃ method, MethodType.parse (field.accessorType direction).descriptor = .ok method ∧
      method.effect = (field.accessorUse direction).effect type := by
  obtain ⟨valid, same⟩ := FieldType.parse_eq_ok_iff.mp parsed
  refine ⟨({ field with type } : ResolvedField).accessorType direction, ?_,
    effect_accessorType { field with type } direction⟩
  rw [← descriptor_accessorType_of_descriptor_eq field direction same]
  exact MethodType.parse_descriptor (valid_accessorType owner valid)

end effects

/-! ### Calls in place of uses -/

section calls

variable {enhancer : Enhancer} {managed : ManagedField} {field : ResolvedField} {user : String}
  {direction : Direction} {accessor : String} {old new : Instruction}

theorem GivesWay.names_called
    (gives : GivesWay enhancer managed field user direction accessor old new) :
    new.Names enhancer.file.pool
      ⟨field.owner, accessor, (field.accessorType direction).descriptor⟩ := by
  obtain ⟨opcode, index, operands, found, -⟩ := gives.calls
  obtain ⟨offset, code, bytes⟩ := new
  subst opcode operands
  exact ⟨index, Instruction.poolIndex?_word16 (by decide) offset index, found⟩

theorem GivesWay.names_used
    (gives : GivesWay enhancer managed field user direction accessor old new) :
    ∃ reference, old.Names enhancer.file.pool reference ∧ field.IsNamedBy user reference := by
  obtain ⟨-, index, reference, indexed, found, names⟩ := gives.uses
  exact ⟨reference, ⟨index, indexed, found⟩, names⟩

/-- The effect of the use, and the call has the same. -/
theorem GivesWay.effects
    (gives : GivesWay enhancer managed field user direction accessor old new)
    (owner : (FieldType.object field.owner).Valid) {effect : StackEffect}
    (known : old.effect? enhancer.file.pool = some effect) :
    new.effect? enhancer.file.pool = some effect := by
  obtain ⟨reference, names, -, -, described⟩ := gives.names_used
  rw [Instruction.effect?_of_use gives.uses.1 names, described] at known
  obtain ⟨type, parsed, rfl⟩ := Option.map_eq_some_iff.mp known
  cases read : FieldType.parse field.type.descriptor with
  | error error =>
    rw [read] at parsed
    cases parsed
  | ok found =>
    rw [read] at parsed
    obtain rfl := Option.some.inj parsed
    obtain ⟨method, methodRead, same⟩ := exists_parse_accessorType direction owner read
    rw [Instruction.effect?_of_staticCall gives.calls.1 gives.names_called, methodRead]
    exact congrArg some same

/-- The call does what the use did, and goes on where that went on. -/
theorem GivesWay.sameFlow
    (gives : GivesWay enhancer managed field user direction accessor old new)
    (owner : (FieldType.object field.owner).Valid) {before : Pool}
    (grown : before.Extends enhancer.file.pool) (others : Instruction → Option Flow) :
    SameFlow before enhancer.file.pool others old new := by
  have uses : old.isMemberUse = true := by
    rw [Instruction.isMemberUse, gives.uses.1, FieldUse.ofOpcode?_opcode]
    rfl
  have calls : new.isMemberUse = true := by
    rw [Instruction.isMemberUse, gives.calls.1]
    decide +kernel
  have length : new.length = old.length := by
    rw [gives.length]
    obtain ⟨-, index, operands, -⟩ := gives.calls
    obtain ⟨offset, code, bytes⟩ := new
    subst operands
    rfl
  refine ⟨gives.place, fun flow flows => ?_⟩
  rw [Instruction.flow?_of_isMemberUse uses] at flows
  obtain ⟨effect, known, rfl⟩ := Option.map_eq_some_iff.mp flows
  rw [Instruction.flow?_of_isMemberUse calls,
    gives.effects owner (Instruction.effect?_extends grown known), gives.place, length]
  rfl

end calls

end JavaClass.Enhancement
