/-
How much room built bodies need. What is counted while a body is built, step by step and by the
types that the steps are given, is what its instructions come to when they are read from the code:
their effects on the stack, by the descriptors that their constants lead to, and the local variables
that they are on. So the depth that a body declares is the greatest that its instructions reach, one
after the other, and the local variables that it declares are those it began with and those that its
instructions are on.

The descriptors have to tell the types that they were printed from. A class name may be such that
they do not, and then a body can declare more than its instructions come to.
-/

import JavaClass.Proofs.Code.Building

namespace JavaClass

/-! ### What actions need -/

/-- The depths behind effects on the stack, one after the other and from a depth on, unless one of
them takes more than there is. -/
def StackEffect.depths? : Nat → List StackEffect → Option (List Nat)
  | _, [] => some []
  | depth, effect :: rest =>
    if effect.pops ≤ depth then (depths? (effect.apply depth) rest).map (effect.apply depth :: ·)
    else none

/-- Where no depth is above the limit, effects that are counted rightly as long as they do not take
more than that lead to the same depths. -/
theorem StackEffect.depths?_of_fitting {counted effects : List StackEffect}
    (row : List.Forall₂ (fun counted effect : StackEffect =>
      effect.pops ≤ Builder.countLimit → counted = effect) counted effects)
    {depth : Nat} {depths : List Nat} (low : depth ≤ Builder.countLimit)
    (reached : depths? depth effects = some depths)
    (within : ∀ depth ∈ depths, depth ≤ Builder.countLimit) :
    depths? depth counted = some depths := by
  induction row generalizing depth depths with
  | nil => exact reached
  | @cons _ effect _ _ fits _ inductionHypothesis =>
    rw [depths?] at reached
    split at reached
    · rename_i enough
      obtain ⟨later, reachedLater, rfl⟩ := Option.map_eq_some_iff.mp reached
      obtain ⟨here, withinLater⟩ := List.forall_mem_cons.mp within
      rw [fits (Nat.le_trans enough low), depths?, if_pos enough,
        inductionHypothesis here reachedLater withinLater]
      rfl
    · cases reached

namespace Action

/-- The effect of an action on the stack, by the descriptor of the member that it uses. -/
def effect? : Action → Option StackEffect
  | .useLocal direction kind _ => some (direction.effect kind.slots)
  | .pushInteger _ | .pushString _ | .pushNull | .create _ => some ⟨0, 1⟩
  | .duplicate => some ⟨1, 2⟩
  | .drop slots => some ⟨slots, 0⟩
  | .useField use field => (FieldType.parse field.descriptor).toOption.map use.effect
  | .invoke invocation method _ =>
    (MethodType.parse method.descriptor).toOption.map fun type => invocation.effect type
  | .returnValue kind => some ⟨(kind.map ValueKind.slots).getD 0, 0⟩

/-- How many local variables there must be. -/
def locals : Action → Nat
  | .useLocal _ kind slot => slot + kind.slots
  | _ => 0

/-- The actions that are carried out: none behind a return is. -/
def carriedOut : List Action → List Action
  | [] => []
  | .returnValue kind :: _ => [.returnValue kind]
  | action :: rest => action :: carriedOut rest

@[simp] theorem effect?_written (action : Action) : action.written.effect? = action.effect? := by
  cases action <;> rfl

@[simp] theorem locals_written (action : Action) : action.written.locals = action.locals := by
  cases action <;> rfl

end Action

/-! ### What is counted -/

namespace CodeStep

/-- Whether what a step needs can be counted: the types it is given can be told from their
descriptors, and it is on no local variables past the last. -/
def Countable : CodeStep → Prop
  | .load type slot | .store type slot =>
    type ≠ .void ∧ slot.toNat + type.slots ≤ Builder.countLimit
  | .loadParameters isStatic method =>
    (∀ parameter ∈ method.parameters, parameter ≠ .void) ∧
      (if isStatic then 0 else 1) + method.parameterSlots ≤ Builder.countLimit
  | .field _ _ _ type => type.Valid
  | .invoke _ _ _ method => method.Valid
  | .raw .. => False
  | _ => True

theorem Countable.sayable {step : CodeStep} (countable : step.Countable) : step.Sayable := by
  cases step with
  | load | store => exact countable.1
  | loadParameters | raw => exact countable
  | _ => trivial

end CodeStep

namespace Demand

/-- Whether what is counted for a demand of a step is what the action comes to. -/
structure Counted (step : CodeStep) (demand : Demand) : Prop where
  /-- What is taken from the stack may be too much to be counted. -/
  effect : ∃ effect, demand.action.effect? = some effect ∧
    (effect.pops ≤ Builder.countLimit → demand.effect = effect)
  /-- The variable of the instance that a method is called on goes without counting. -/
  locals : demand.action.locals = demand.locals ∨
    step = .loadThis ∧ demand.action.locals = 1 ∧ demand.locals = 0
  within : demand.locals ≤ Builder.countLimit

/-- The effect of a demand by its action, whatever was counted for it. -/
def comesTo (demand : Demand) : StackEffect := demand.action.effect?.getD demand.effect

variable {step : CodeStep}

theorem Counted.comesTo {demand : Demand} (counted : demand.Counted step) :
    demand.action.effect? = some demand.comesTo ∧
      (demand.comesTo.pops ≤ Builder.countLimit → demand.effect = demand.comesTo) := by
  obtain ⟨effect, known, fits⟩ := counted.effect
  have same : demand.comesTo = effect := by
    rw [Demand.comesTo, known]
    rfl
  rw [same]
  exact ⟨known, fits⟩

theorem counted_ofAction {action : Action} {effect : StackEffect}
    (known : action.effect? = some effect) (without : action.locals = 0) :
    (ofAction action effect).Counted step :=
  ⟨⟨effect, known, fun _ => rfl⟩, .inl without, Nat.zero_le _⟩

theorem counted_of_useLocal {direction : Direction} {type : FieldType} {slot : Nat}
    (within : slot + type.slots ≤ Builder.countLimit) :
    ∀ demand ∈ useLocal direction type slot, demand.Counted step := by
  intro demand member
  obtain ⟨kind, isKind, rfl⟩ := List.mem_map.mp member
  have slots := FieldType.slots_of_kind? (Option.mem_toList.mp isKind)
  have known : (Action.useLocal direction kind slot).effect? =
      some (direction.effect type.slots) :=
    congrArg (fun slots => some (direction.effect slots)) slots.symm
  exact ⟨⟨_, known, fun _ => rfl⟩, .inl (congrArg (slot + ·) slots.symm), within⟩

end Demand

/-- What is counted for a step is what its actions come to. -/
theorem CodeStep.Countable.counted {step : CodeStep} (countable : step.Countable) :
    ∀ demand ∈ step.demands, demand.Counted step := by
  intro demand member
  cases step with
  | load type slot | store type slot =>
    exact Demand.counted_of_useLocal countable.2 demand member
  | loadThis =>
    obtain rfl := List.mem_singleton.mp member
    exact ⟨⟨_, rfl, fun _ => rfl⟩, .inr ⟨rfl, rfl, rfl⟩, Nat.zero_le _⟩
  | loadParameters isStatic method =>
    obtain ⟨-, within⟩ := countable
    obtain ⟨type, -, slot, use, inside⟩ := Demand.exists_of_mem_loads member
    rw [← MethodType.parameterSlots_eq_sum] at inside
    exact Demand.counted_of_useLocal (Nat.le_trans inside within) demand use
  | pop type =>
    obtain rfl := List.mem_singleton.mp (List.mem_ite_nil_left.mp member).2
    exact Demand.counted_ofAction rfl rfl
  | field use owner name type =>
    obtain rfl := List.mem_singleton.mp member
    have parsed := FieldType.parse_eq_ok_iff.mpr ⟨countable, rfl⟩
    refine Demand.counted_ofAction ?_ rfl
    exact Option.map_eq_some_iff.mpr ⟨type, Outcome.toOption_eq_some_iff.mpr parsed, rfl⟩
  | invoke invocation owner name method =>
    obtain rfl := List.mem_singleton.mp member
    have parsed := MethodType.parse_descriptor countable
    refine ⟨⟨invocation.effect method, ?_, fun few => ?_⟩, .inl rfl, Nat.zero_le _⟩
    · exact Option.map_eq_some_iff.mpr ⟨method, Outcome.toOption_eq_some_iff.mpr parsed, rfl⟩
    · have small := Nat.mod_eq_of_lt (Nat.lt_succ_of_le few)
      exact congrArg (fun pops => StackEffect.mk pops method.returns.slots) small
  | returnValue type =>
    obtain rfl := List.mem_singleton.mp member
    refine Demand.counted_ofAction ?_ rfl
    by_cases void : type = .void
    · subst void
      rfl
    · obtain ⟨kind, found⟩ := FieldType.exists_kind void
      rw [found, FieldType.slots_of_kind? found]
      rfl
  | pushInteger | pushString | pushNull | create | duplicate =>
    obtain rfl := List.mem_singleton.mp member
    exact Demand.counted_ofAction rfl rfl
  | raw | intern | internIntegers | refuse => cases member

/-! ### What is declared -/

theorem foldl_max_le_iff {first limit : Nat} {counts : List Nat} :
    counts.foldl max first ≤ limit ↔ first ≤ limit ∧ ∀ count ∈ counts, count ≤ limit := by
  induction counts generalizing first with
  | nil => simp
  | cons count rest inductionHypothesis =>
    rw [List.foldl_cons, inductionHypothesis, Nat.max_le, List.forall_mem_cons, and_assoc]

namespace Emission

theorem maxLocals_foldl_addTo (emissions : List Emission) (builder : Builder) :
    (emissions.foldl addTo builder).maxLocals =
      (emissions.map fun emission => min Builder.countLimit emission.demand.locals).foldl max
        builder.maxLocals := by
  induction emissions generalizing builder with
  | nil => rfl
  | cons emission rest inductionHypothesis => exact inductionHypothesis (emission.addTo builder)

/-- While no depth is above the limit, the counted depth is the depth that is reached. -/
theorem maxStack_foldl_addTo {emissions : List Emission} {builder : Builder} {depths : List Nat}
    (reached : StackEffect.depths? builder.stack
      (emissions.map fun emission => emission.demand.effect) = some depths)
    (within : ∀ depth ∈ depths, depth ≤ Builder.countLimit) :
    (emissions.foldl addTo builder).maxStack = depths.foldl max builder.maxStack := by
  induction emissions generalizing builder depths with
  | nil =>
    obtain rfl := Option.some.inj reached
    rfl
  | cons emission rest inductionHypothesis =>
    simp only [List.map_cons, StackEffect.depths?] at reached
    split at reached
    · obtain ⟨later, reachedLater, rfl⟩ := Option.map_eq_some_iff.mp reached
      obtain ⟨here, withinLater⟩ := List.forall_mem_cons.mp within
      have stack : (emission.addTo builder).stack = emission.demand.effect.apply builder.stack :=
        Nat.min_eq_right here
      have deepest : (emission.addTo builder).maxStack =
          max builder.maxStack (emission.demand.effect.apply builder.stack) :=
        congrArg (max builder.maxStack) stack
      rw [← stack] at reachedLater
      rw [List.foldl_cons, inductionHypothesis reachedLater withinLater, deepest]
      rfl
    · cases reached

end Emission

namespace Builder

variable {demands : List Demand} {before after : Builder}

/-- The depth that is declared is the greatest that the demanded effects reach. -/
theorem Writes.maxStack (written : Writes demands before after) {depths : List Nat}
    (reached : StackEffect.depths? before.stack (demands.map Demand.effect) = some depths)
    (within : ∀ depth ∈ depths, depth ≤ countLimit) :
    after.maxStack = depths.foldl max before.maxStack := by
  obtain ⟨emissions, rfl, -, same⟩ := written
  rw [List.map_map] at reached
  rw [same]
  exact Emission.maxStack_foldl_addTo reached within

theorem Writes.maxLocals (written : Writes demands before after)
    (within : ∀ demand ∈ demands, demand.locals ≤ countLimit) :
    after.maxLocals = (demands.map Demand.locals).foldl max before.maxLocals := by
  obtain ⟨emissions, rfl, -, same⟩ := written
  have counts : (emissions.map fun emission => min countLimit emission.demand.locals) =
      (emissions.map Emission.demand).map Demand.locals := by
    rw [List.map_map]
    refine List.map_congr_left fun emission member => Nat.min_eq_right ?_
    exact within _ (List.mem_map_of_mem member)
  rw [same, Emission.maxLocals_foldl_addTo, counts]

end Builder

/-- Of the numbers that are needed, the greatest is declared if all of them are covered and nothing
is declared that is not needed. -/
theorem foldl_max_map_eq {α : Type} {items : List α} {needed declared : α → Nat} {first : Nat}
    (covered : ∀ item ∈ items, needed item ≤ (items.map declared).foldl max first)
    (least : ∀ item ∈ items, declared item ≤ needed item) :
    (items.map needed).foldl max first = (items.map declared).foldl max first := by
  have starts : ∀ {counts : List Nat}, first ≤ counts.foldl max first := fun {counts} =>
    (foldl_max_le_iff.mp (Nat.le_refl (counts.foldl max first))).1
  refine Nat.le_antisymm ?_ ?_
  · exact foldl_max_le_iff.mpr ⟨starts, List.forall_mem_map.mpr covered⟩
  · refine foldl_max_le_iff.mpr ⟨starts, List.forall_mem_map.mpr fun item member => ?_⟩
    have most := (foldl_max_le_iff.mp (Nat.le_refl ((items.map needed).foldl max first))).2
    exact Nat.le_trans (least item member) (most _ (List.mem_map_of_mem member))

namespace Builder

variable {demands : List Demand} {pool : Pool} {maxLocals : UInt16} {built : Builder}

theorem Writes.toNat_maxStack (written : Writes demands (.start pool maxLocals) built)
    {depths : List Nat}
    (reached : StackEffect.depths? 0 (demands.map Demand.effect) = some depths)
    (within : ∀ depth ∈ depths, depth ≤ countLimit) :
    built.build.maxStack.toNat = depths.foldl max 0 := by
  have declared := written.maxStack reached within
  have few : built.maxStack < 2 ^ 16 := by
    rw [declared]
    exact Nat.lt_succ_of_le (foldl_max_le_iff.mpr ⟨Nat.zero_le _, within⟩)
  show (UInt16.ofNat built.maxStack).toNat = _
  rw [UInt16.toNat_ofNat', Nat.mod_eq_of_lt few]
  exact declared

theorem Writes.toNat_maxLocals (written : Writes demands (.start pool maxLocals) built)
    (within : ∀ demand ∈ demands, demand.locals ≤ countLimit) :
    built.build.maxLocals.toNat = built.maxLocals ∧
      built.maxLocals = (demands.map Demand.locals).foldl max maxLocals.toNat := by
  have declared := written.maxLocals within
  have few : built.maxLocals < 2 ^ 16 := by
    rw [declared]
    refine Nat.lt_succ_of_le (foldl_max_le_iff.mpr ⟨?_, List.forall_mem_map.mpr within⟩)
    exact Nat.le_of_lt_succ maxLocals.toNat_lt
  refine ⟨?_, declared⟩
  show (UInt16.ofNat built.maxLocals).toNat = _
  rw [UInt16.toNat_ofNat', Nat.mod_eq_of_lt few]

end Builder

/-- Whatever body is built of steps whose needs can be counted, with success and in a pool that was
used in any way, its code decodes to instructions whose effects on the stack are known from their
opcodes and from the descriptors in the pool. Unless one of them takes more than there is or goes
past the limit, the greatest of the depths that they reach is the depth the body declares. The local
variables it declares are those it began with or those its instructions are on, whichever reach
further, if there is one at all when the instance is loaded. -/
theorem limits_of_runAll {pool : Pool} {snapshots : List Pool.Snapshot} {maxLocals : UInt16}
    {steps : List CodeStep} {built : Builder} (used : Pool.Used pool snapshots)
    (countable : ∀ step ∈ steps, step.Countable)
    (ran : CodeStep.runAll steps (.start pool maxLocals) = (.ok (), built))
    (there : CodeStep.loadThis ∈ steps → 0 < built.maxLocals) :
    ∃ actions effects, built.build.Does built.pool actions ∧
      actions.map Action.effect? = effects.map some ∧
      (∀ depths, StackEffect.depths? 0 effects = some depths → (∀ depth ∈ depths, depth ≤ 65535) →
        built.build.maxStack.toNat = depths.foldl max 0) ∧
      built.build.maxLocals.toNat = (actions.map Action.locals).foldl max maxLocals.toNat := by
  obtain ⟨earlier, -, tracked⟩ := used.exists_tracked
  have written := CodeStep.writes_of_runAll tracked.assembled
    (fun step member => (countable step member).sayable) ran
  have counted : ∀ demand ∈ steps.flatMap CodeStep.demands, ∃ step ∈ steps,
      demand.Counted step := by
    intro demand member
    obtain ⟨step, isStep, isDemand⟩ := List.mem_flatMap.mp member
    exact ⟨step, isStep, (countable step isStep).counted demand isDemand⟩
  obtain ⟨same, declared⟩ := written.toNat_maxLocals fun demand member => by
    obtain ⟨step, -, isCounted⟩ := counted demand member
    exact isCounted.within
  have fits : List.Forall₂ (fun counted effect : StackEffect =>
      effect.pops ≤ Builder.countLimit → counted = effect)
      ((steps.flatMap CodeStep.demands).map Demand.effect)
      ((steps.flatMap CodeStep.demands).map Demand.comesTo) := by
    rw [List.forall₂_map_left_iff, List.forall₂_map_right_iff, List.forall₂_same]
    intro demand member
    obtain ⟨step, -, isCounted⟩ := counted demand member
    exact isCounted.comesTo.2
  refine ⟨_, (steps.flatMap CodeStep.demands).map Demand.comesTo, written.does rfl, ?_,
    fun depths reached within => written.toNat_maxStack
      (StackEffect.depths?_of_fitting fits (Nat.zero_le _) reached within) within, ?_⟩
  · rw [List.map_map, List.map_map]
    refine List.map_congr_left fun demand member => ?_
    obtain ⟨step, -, isCounted⟩ := counted demand member
    exact (Action.effect?_written _).trans isCounted.comesTo.1
  · have most := (foldl_max_le_iff.mp (Nat.le_of_eq declared.symm)).2
    rw [same, declared, List.map_map]
    refine (foldl_max_map_eq (fun demand member => ?_) fun demand member => ?_).symm
    · show demand.action.written.locals ≤ _
      rw [Action.locals_written, ← declared]
      obtain ⟨step, isStep, isCounted⟩ := counted demand member
      obtain exactly | ⟨rfl, one, -⟩ := isCounted.locals
      · rw [exactly]
        exact most _ (List.mem_map_of_mem member)
      · rw [one]
        exact there isStep
    · show demand.locals ≤ demand.action.written.locals
      rw [Action.locals_written]
      obtain ⟨step, -, isCounted⟩ := counted demand member
      obtain exactly | ⟨-, -, none⟩ := isCounted.locals
      · exact Nat.le_of_eq exactly.symm
      · rw [none]
        exact Nat.zero_le _

theorem limits_of_runAll_call :
    let steps : List CodeStep :=
      [.loadThis, .loadParameters false ⟨[.base .long, .object "A"], .void⟩,
        .invoke .virtual "A" "call" ⟨[.base .long, .object "A"], .base .double⟩,
        .store (.base .double) 300, .returnValue .void]
    ∃ built, CodeStep.runAll steps (.start .empty 1) = (.ok (), built) ∧
      ∃ actions effects, built.build.Does built.pool actions ∧
        actions.map Action.effect? = effects.map some ∧
        (∀ depths, StackEffect.depths? 0 effects = some depths →
          (∀ depth ∈ depths, depth ≤ 65535) → built.build.maxStack.toNat = depths.foldl max 0) ∧
        built.build.maxLocals.toNat = (actions.map Action.locals).foldl max 1 := by
  intro steps
  have succeeds : (CodeStep.runAll steps (.start .empty 1)).1 = .ok () ∧
      (CodeStep.runAll steps (.start .empty 1)).2.maxLocals = 302 := by
    decide +kernel
  obtain ⟨built, ran⟩ := Builder.exists_of_succeeds succeeds.1
  have countable : ∀ step ∈ steps, step.Countable := by
    simp [steps, CodeStep.Countable, MethodType.Valid, FieldType.Valid, FieldType.void,
      FieldType.slots, MethodType.parameterSlots, Builder.countLimit]
  have there : CodeStep.loadThis ∈ steps → 0 < built.maxLocals := by
    intro _
    have locals := succeeds.2
    rw [ran] at locals
    rw [locals]
    decide
  exact ⟨built, ran, limits_of_runAll .empty countable ran there⟩

/-- A body that certain steps build does what they ask for, and declares the depth that was
counted. -/
theorem exists_built {steps : List CodeStep} {depth : UInt16}
    (sayable : ∀ step ∈ steps, step.Sayable)
    (runs : (CodeStep.runAll steps (.start .empty 0)).1 = .ok () ∧
      (CodeStep.runAll steps (.start .empty 0)).2.build.maxStack = depth) :
    ∃ built, CodeStep.runAll steps (.start .empty 0) = (.ok (), built) ∧
      built.build.Does built.pool
        ((steps.flatMap CodeStep.demands).map fun demand => demand.action.written) ∧
      built.build.maxStack = depth := by
  obtain ⟨earlier, -, tracked⟩ := Pool.Used.empty.exists_tracked
  obtain ⟨built, ran⟩ := Builder.exists_of_succeeds runs.1
  have written := CodeStep.writes_of_runAll tracked.assembled sayable ran
  rw [ran] at runs
  exact ⟨built, ran, written.does rfl, runs.2⟩

/-- The depth that a body declares need not be one that its instructions reach. A class name with a
semicolon in it is read from the descriptor as more than one parameter, so that the call takes four
slots where one is counted; and nothing reaches what stands behind a return, where it is counted all
the same. -/
theorem exists_declared_not_reached :
    (∃ built actions effects depths,
      CodeStep.runAll [.pushNull, .pushNull, .pushNull, .pushNull,
        .invoke .static "C" "m" ⟨[.object "A;JLB"], .void⟩, .pushNull, .pushNull,
        .returnValue .void] (.start .empty 0) = (.ok (), built) ∧
      built.build.Does built.pool actions ∧ actions.map Action.effect? = effects.map some ∧
      StackEffect.depths? 0 effects = some depths ∧ depths.foldl max 0 = 4 ∧
      built.build.maxStack = 5) ∧
    ∃ built actions effects depths,
      CodeStep.runAll [.returnValue .void, .pushNull] (.start .empty 0) = (.ok (), built) ∧
      built.build.Does built.pool actions ∧
      (Action.carriedOut actions).map Action.effect? = effects.map some ∧
      StackEffect.depths? 0 effects = some depths ∧ depths.foldl max 0 = 0 ∧
      built.build.maxStack = 1 := by
  constructor
  · let steps : List CodeStep := [.pushNull, .pushNull, .pushNull, .pushNull,
      .invoke .static "C" "m" ⟨[.object "A;JLB"], .void⟩, .pushNull, .pushNull, .returnValue .void]
    obtain ⟨built, ran, does, deep⟩ := @exists_built steps 5 (by simp [steps, CodeStep.Sayable])
      (by decide +kernel)
    refine ⟨built, _, [⟨0, 1⟩, ⟨0, 1⟩, ⟨0, 1⟩, ⟨0, 1⟩, ⟨4, 0⟩, ⟨0, 1⟩, ⟨0, 1⟩, ⟨0, 0⟩], _, ran,
      does, ?_, rfl, by decide, deep⟩
    decide +kernel
  · let steps : List CodeStep := [.returnValue .void, .pushNull]
    obtain ⟨built, ran, does, deep⟩ := @exists_built steps 1 (by simp [steps, CodeStep.Sayable])
      (by decide +kernel)
    exact ⟨built, _, [⟨0, 0⟩], _, ran, does, by decide, rfl, by decide, deep⟩

end JavaClass
