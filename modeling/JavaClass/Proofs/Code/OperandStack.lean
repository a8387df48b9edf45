/-
The depth of the operand stack. How many slots the use of a field takes from the stack and how many
it leaves there is told by the descriptor of the field, and for a static call by that of the method.
What the other instructions do is left open, so that it can be anything. The depths with which the
instructions of a body are reached follow from that, and the stack that the body declares is deep
enough if none of them is above it and every instruction that is reached finds what it takes.

Instructions that give way to others with the same effect, at the same places, leave all of this as
it is: whatever is reached afterwards was reached before.
-/

import JavaClass.Proofs.Code.Builder
import JavaClass.Proofs.Code.Revision

namespace JavaClass

/-! ### Effects -/

/-- How many slots something takes from the operand stack, and how many it leaves there then. -/
structure StackEffect where
  pops : Nat
  pushes : Nat
  deriving DecidableEq, Repr

/-- How deep the stack is after the effect. -/
def StackEffect.apply (effect : StackEffect) (depth : Nat) : Nat :=
  depth - effect.pops + effect.pushes

/-- The effect of using a field of a type. -/
def FieldUse.effect (use : FieldUse) (type : FieldType) : StackEffect :=
  ⟨use.pops type, use.pushes type⟩

/-- The effect of a static call of a method of a type. -/
def MethodType.effect (type : MethodType) : StackEffect :=
  ⟨type.parameterSlots, type.returns.slots⟩

/-- Whether the constant of an instruction names a member. -/
def Instruction.Names (pool : Pool) (instruction : Instruction) (reference : MemberReference) :
    Prop :=
  ∃ index, instruction.poolIndex? = some index ∧ pool.memberReference index = .ok reference

namespace Instruction

/-- Whether an instruction uses a field or calls a static method. -/
def isMemberUse (instruction : Instruction) : Bool :=
  (FieldUse.ofOpcode? instruction.opcode).isSome || instruction.opcode == Opcode.invokestatic

/-- The effect of an instruction that uses a field or calls a static method, by the descriptor of
what its constant names. -/
def effect? (pool : Pool) (instruction : Instruction) : Option StackEffect := do
  let index ← instruction.poolIndex?
  let reference ← (pool.memberReference index).toOption
  match FieldUse.ofOpcode? instruction.opcode with
  | some use => (FieldType.parse reference.descriptor).toOption.map use.effect
  | none =>
    if instruction.opcode = Opcode.invokestatic then
      (MethodType.parse reference.descriptor).toOption.map MethodType.effect
    else none

section effects

variable {pool after : Pool} {instruction : Instruction} {reference : MemberReference}

theorem Names.extends (grown : pool.Extends after) (names : instruction.Names pool reference) :
    instruction.Names after reference := by
  obtain ⟨index, indexed, found⟩ := names
  exact ⟨index, indexed, grown.memberReference found⟩

theorem effect?_of_use {use : FieldUse} (opcode : instruction.opcode = use.opcode)
    (names : instruction.Names pool reference) :
    instruction.effect? pool = (FieldType.parse reference.descriptor).toOption.map use.effect := by
  obtain ⟨index, indexed, found⟩ := names
  unfold effect?
  rw [indexed, opcode, FieldUse.ofOpcode?_opcode]
  simp only [Option.bind_eq_bind, Option.bind_some, found, Except.toOption]

theorem effect?_of_staticCall (opcode : instruction.opcode = Opcode.invokestatic)
    (names : instruction.Names pool reference) :
    instruction.effect? pool =
      (MethodType.parse reference.descriptor).toOption.map MethodType.effect := by
  obtain ⟨index, indexed, found⟩ := names
  have other : FieldUse.ofOpcode? Opcode.invokestatic = none := by
    decide +kernel
  unfold effect?
  rw [indexed, opcode, other]
  simp only [Option.bind_eq_bind, Option.bind_some, found, Except.toOption, if_true]

/-- An instruction that has an effect names the member whose descriptor tells it. -/
theorem exists_names_of_effect? {effect : StackEffect}
    (known : instruction.effect? pool = some effect) :
    ∃ reference, instruction.Names pool reference := by
  unfold effect? at known
  obtain ⟨index, indexed, rest⟩ := Option.bind_eq_some_iff.mp known
  obtain ⟨reference, found, -⟩ := Option.bind_eq_some_iff.mp rest
  cases read : pool.memberReference index with
  | error error =>
    rw [read] at found
    cases found
  | ok reference => exact ⟨reference, index, indexed, read⟩

/-- What is known of the effect of an instruction stays known when constants are added. -/
theorem effect?_extends (grown : pool.Extends after) {effect : StackEffect}
    (known : instruction.effect? pool = some effect) :
    instruction.effect? after = some effect := by
  obtain ⟨reference, index, indexed, found⟩ := exists_names_of_effect? known
  unfold effect? at known ⊢
  simp only [indexed, Option.bind_eq_bind, Option.bind_some, found,
    grown.memberReference found] at known ⊢
  exact known

end effects

end Instruction

/-! ### Depths -/

/-- What an instruction does to the operand stack, and at which offsets execution may go on. -/
structure Flow where
  effect : StackEffect
  nexts : List Nat
  deriving DecidableEq, Repr

/-- What an instruction does. Uses of fields and static calls go on with the next instruction; what
others do is told apart. -/
def Instruction.flow? (pool : Pool) (others : Instruction → Option Flow)
    (instruction : Instruction) : Option Flow :=
  if instruction.isMemberUse then
    (instruction.effect? pool).map fun effect =>
      ⟨effect, [instruction.offset + instruction.length]⟩
  else others instruction

/-- At which offsets, and with which depths of the operand stack, a body can be when it is executed:
at the beginning with nothing on the stack, behind an instruction with what it leaves, and at the
handler that guards an instruction with the exception alone. -/
inductive Body.Reaches (pool : Pool) (others : Instruction → Option Flow) (body : Body)
    (instructions : List Instruction) : Nat → Nat → Prop
  | start : Reaches pool others body instructions 0 0
  | step {instruction : Instruction} {depth next : Nat} {flow : Flow}
      (reached : Reaches pool others body instructions instruction.offset depth)
      (member : instruction ∈ instructions)
      (flows : instruction.flow? pool others = some flow) (follows : next ∈ flow.nexts) :
      Reaches pool others body instructions next (flow.effect.apply depth)
  | caught {handler : ExceptionRange} {offset depth : Nat}
      (reached : Reaches pool others body instructions offset depth)
      (member : handler ∈ body.handlers)
      (guards : handler.startPc.toNat ≤ offset ∧ offset < handler.endPc.toNat) :
      Reaches pool others body instructions handler.handlerPc.toNat 1

/-- Whether the operand stack that a body declares suffices: it is never deeper, and every
instruction that is reached finds the slots there that it takes. -/
def Body.StackSuffices (pool : Pool) (others : Instruction → Option Flow) (body : Body) : Prop :=
  ∃ instructions, body.instructions = .ok instructions ∧
    ∀ offset depth, body.Reaches pool others instructions offset depth →
      depth ≤ body.maxStack.toNat ∧
        ∀ instruction ∈ instructions, instruction.offset = offset →
          ∃ flow, instruction.flow? pool others = some flow ∧ flow.effect.pops ≤ depth

section revised

variable {replaces : Instruction → Instruction → Prop} {before after : Pool}
  {others : Instruction → Option Flow} {old new : Body}

theorem Instruction.flow?_of_isMemberUse {pool : Pool} {instruction : Instruction}
    (uses : instruction.isMemberUse = true) :
    instruction.flow? pool others = (instruction.effect? pool).map fun effect =>
      ⟨effect, [instruction.offset + instruction.length]⟩ :=
  if_pos uses

theorem Instruction.flow?_extends (grown : before.Extends after) {instruction : Instruction}
    {flow : Flow} (flows : instruction.flow? before others = some flow) :
    instruction.flow? after others = some flow := by
  by_cases uses : instruction.isMemberUse = true
  · rw [flow?_of_isMemberUse uses] at flows ⊢
    obtain ⟨effect, known, rfl⟩ := Option.map_eq_some_iff.mp flows
    rw [effect?_extends grown known]
    rfl
  · unfold flow? at flows ⊢
    rw [if_neg uses] at flows ⊢
    exact flows

/-- What replaces an instruction does the same from the same place. -/
def SameFlow (before after : Pool) (others : Instruction → Option Flow) (old new : Instruction) :
    Prop :=
  new.offset = old.offset ∧ ∀ flow, old.flow? before others = some flow →
    new.flow? after others = some flow

theorem sameFlow_of_keptOr (grown : before.Extends after)
    (alike : ∀ old new, replaces old new → SameFlow before after others old new)
    {old new : Instruction} (step : Code.KeptOr replaces old new) :
    SameFlow before after others old new := by
  obtain rfl | replaced := step
  · exact ⟨rfl, fun flow flows => Instruction.flow?_extends grown flows⟩
  · exact alike old new replaced

/-- What is reached in a body with revised code was reached before, if the stack was deep enough. -/
theorem Body.Reaches.of_revised {olds news : List Instruction}
    (row : List.Forall₂ (SameFlow before after others) olds news)
    (handlers : new.handlers = old.handlers)
    (flows : ∀ offset depth, old.Reaches before others olds offset depth →
      ∀ instruction ∈ olds, instruction.offset = offset →
        ∃ flow, instruction.flow? before others = some flow ∧ flow.effect.pops ≤ depth)
    {offset depth : Nat} (reached : new.Reaches after others news offset depth) :
    old.Reaches before others olds offset depth := by
  induction reached with
  | start => exact .start
  | @step instruction depth next flow _ member flowsNew follows inductionHypothesis =>
    obtain ⟨partner, partnerMember, place, same⟩ := exists_mem_of_forall₂_right row member
    rw [place] at inductionHypothesis
    obtain ⟨found, flowsOld, -⟩ := flows _ _ inductionHypothesis partner partnerMember rfl
    obtain rfl := Option.some.inj ((same found flowsOld).symm.trans flowsNew)
    exact .step inductionHypothesis partnerMember flowsOld follows
  | caught _ member guards inductionHypothesis =>
    rw [handlers] at member
    exact .caught inductionHypothesis member guards

/-- A stack that was deep enough still is when instructions have given way to others with the same
effect. -/
theorem Body.StackSuffices.of_revised (grown : before.Extends after)
    (alike : ∀ old new, replaces old new → SameFlow before after others old new)
    (revised : old.Revised replaces new) (enough : old.StackSuffices before others) :
    new.StackSuffices after others := by
  obtain ⟨olds, news, code⟩ := revised.code
  obtain ⟨found, decoded, depths⟩ := enough
  obtain rfl := Except.ok.inj (code.old.symm.trans decoded)
  have row := code.row.imp fun _ _ step => sameFlow_of_keptOr grown alike step
  refine ⟨news, code.new, fun offset depth reached => ?_⟩
  have reachedOld := reached.of_revised row revised.handlers fun offset depth reachedThere =>
    (depths offset depth reachedThere).2
  obtain ⟨within, finds⟩ := depths offset depth reachedOld
  refine ⟨revised.maxStack ▸ within, fun instruction member place => ?_⟩
  obtain ⟨partner, partnerMember, samePlace, same⟩ := exists_mem_of_forall₂_right row member
  obtain ⟨flow, flows, takes⟩ := finds partner partnerMember (samePlace.symm.trans place)
  exact ⟨flow, same flow flows, takes⟩

end revised

end JavaClass
