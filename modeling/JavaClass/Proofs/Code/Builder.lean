/-
Making method bodies. A step that succeeds adds the code of its instruction and counts the slots it
takes from the stack and leaves there. Whatever steps a body is made of, and at whichever of them
the making may give up, all that happens to the pool is that constants are added to it; and if the
steps are there for their code, these constants are asked for, each with what it refers to.
-/

import JavaClass.Code.Builder
import JavaClass.Proofs.Pool.Linking

namespace JavaClass

/-! ### What steps come to -/

/-- The slots that a use of a field of a type takes from the stack. -/
def FieldUse.pops (type : FieldType) : FieldUse → Nat
  | ⟨.read, isStatic⟩ => if isStatic then 0 else 1
  | ⟨.write, isStatic⟩ => (if isStatic then 0 else 1) + type.slots

/-- The slots that a use of a field of a type leaves on the stack. -/
def FieldUse.pushes (type : FieldType) : FieldUse → Nat
  | ⟨.read, _⟩ => type.slots
  | ⟨.write, _⟩ => 0

theorem FieldType.slots_le (type : FieldType) : type.slots ≤ 2 := by
  unfold slots
  split
  · decide
  · decide
  · decide
  · decide

theorem FieldUse.pops_le (type : FieldType) (use : FieldUse) : use.pops type ≤ 3 := by
  obtain ⟨direction, isStatic⟩ := use
  have few := type.slots_le
  cases direction with
  | read =>
    cases isStatic with
    | true => exact Nat.zero_le 3
    | false => exact Nat.le_add_right 1 2
  | write =>
    cases isStatic with
    | true =>
      show 0 + type.slots ≤ 3
      omega
    | false =>
      show 1 + type.slots ≤ 3
      omega

theorem FieldUse.pushes_le (type : FieldType) (use : FieldUse) : use.pushes type ≤ 2 := by
  obtain ⟨direction, isStatic⟩ := use
  cases direction with
  | read => exact type.slots_le
  | write => exact Nat.zero_le 2

namespace Builder

/-- A body with code behind what it has, which takes some slots from the stack and leaves others. -/
def withCode (code : Bytes) (pops pushes : Nat) (builder : Builder) : Builder :=
  let stack := min countLimit (builder.stack - pops + pushes)
  { builder with code := builder.code ++ code, stack, maxStack := max builder.maxStack stack }

theorem intern_eq_ok_iff {α : Type} {action : Interning α} {builder after : Builder} {found : α} :
    intern action builder = (.ok found, after) ↔
      ∃ pool, action builder.pool = (.ok found, pool) ∧ after = { builder with pool } := by
  show ((action builder.pool).1, { builder with pool := (action builder.pool).2 }) = _ ↔ _
  rw [Prod.mk.injEq]
  constructor
  · rintro ⟨ran, rfl⟩
    exact ⟨_, Prod.ext ran rfl, rfl⟩
  · rintro ⟨pool, ran, rfl⟩
    rw [ran]
    exact ⟨rfl, rfl⟩

/-- The instruction that loads one of the first local variables. -/
def loadOpcode (type : FieldType) (slot : UInt16) : UInt8 :=
  Opcode.iload0 + 4 * variant type + slot.toUInt8

/-- A body that does nothing but load parameters, which take `count` slots, of a method that has
`given` slots of them. -/
def loading (pool : Pool) (code : Bytes) (count given : Nat) : Builder :=
  { pool, code := code.toArray, stack := count, maxStack := count, maxLocals := given }

theorem startMethod_eq_loading (pool : Pool) {type : MethodType}
    (few : type.parameterSlots ≤ countLimit) :
    startMethod pool true type = loading pool [] 0 type.parameterSlots := by
  have locals : (initialLocals true type).toNat = type.parameterSlots := by
    have below : type.parameterSlots < 2 ^ 16 := Nat.lt_succ_of_le few
    have counted : (UInt16.ofNat type.parameterSlots).toNat = type.parameterSlots := by
      rw [UInt16.toNat_ofNat', Nat.mod_eq_of_lt below]
    rw [initialLocals, if_pos rfl, Nat.add_zero, counted, Nat.min_eq_right few, counted]
  rw [startMethod, start, locals]
  rfl

/-- The next parameter is loaded behind those that are loaded already. -/
theorem load_loading (pool : Pool) (code : Bytes) (type : FieldType) (slot : UInt16)
    (first : slot ≤ 3) {given : Nat} (inside : slot.toNat + type.slots ≤ given)
    (few : given ≤ countLimit) :
    load type slot (loading pool code slot.toNat given) = (.ok (),
      loading pool (code ++ [loadOpcode type slot]) (slot.toNat + type.slots) given) := by
  have within := Nat.min_eq_right (Nat.le_trans inside few)
  unfold load useLocal
  rw [if_pos first]
  refine Prod.ext rfl ?_
  show Builder.mk pool (code.toArray ++ [loadOpcode type slot])
    (min countLimit (slot.toNat + type.slots))
    (max slot.toNat (min countLimit (slot.toNat + type.slots)))
    (max given (min countLimit (slot.toNat + type.slots))) = _
  rw [within, Nat.max_eq_right (Nat.le_add_right _ _), Nat.max_eq_left inside,
    List.toArray_appendList]
  rfl

theorem exists_of_useField {use : FieldUse} {owner name : String} {type : FieldType}
    {builder after : Builder} {nothing : Unit}
    (ran : useField use owner name type builder = (.ok nothing, after)) :
    ∃ index pool, Pool.internField owner name type.descriptor builder.pool = (.ok index, pool) ∧
      after = withCode (use.opcode :: BigEndian.word16 index) (use.pops type) (use.pushes type)
        { builder with pool } := by
  obtain ⟨index, middle, interned, ran⟩ := Stateful.bind_eq_ok_iff.mp ran
  obtain ⟨pool, internedHere, rfl⟩ := intern_eq_ok_iff.mp interned
  refine ⟨index, pool, internedHere, ?_⟩
  obtain ⟨direction, isStatic⟩ := use
  cases direction with
  | read => exact (Prod.mk.inj ran).2.symm
  | write => exact (Prod.mk.inj ran).2.symm

/-- The instruction that returns a value of a type. -/
def returnCode (type : FieldType) : Bytes :=
  if type.isVoid then [Opcode.returnVoid] else [Opcode.ireturn + variant type]

theorem returnValue_apply (type : FieldType) (builder : Builder) :
    (CodeStep.returnValue type).run builder =
      (.ok (), withCode (returnCode type) type.slots 0 builder) := by
  show (if type.isVoid then emit [Opcode.returnVoid] 0 0
    else emit [Opcode.ireturn + variant type] type.slots 0) builder = _
  unfold returnCode
  cases void : type.isVoid with
  | false => rfl
  | true =>
    obtain rfl : type = .void := by
      unfold FieldType.isVoid at void
      split at void
      · rfl
      · cases void
    rfl

/-- A body that loads what its use of a field takes, makes use of the field and returns. -/
theorem build_withCode_loading {given left : Nat} (few : given ≤ 3) (fewLeft : left ≤ 2)
    (pool : Pool) (loads use returns : Bytes) (returned : Nat) :
    (withCode returns returned 0
      (withCode use given left (loading pool loads given given))).build =
        .ofCode (UInt16.ofNat (max given left)) (UInt16.ofNat given) (loads ++ use ++ returns) := by
  have deepest : max (max given (min countLimit (given - given + left)))
      (min countLimit (min countLimit (given - given + left) - returned + 0)) = max given left := by
    unfold countLimit
    omega
  have code : (loads.toArray ++ use ++ returns).toList = loads ++ use ++ returns := by
    rw [List.toArray_appendList, List.toArray_appendList]
  show Body.ofCode (UInt16.ofNat (max (max given (min countLimit (given - given + left)))
      (min countLimit (min countLimit (given - given + left) - returned + 0))))
    (UInt16.ofNat given) (loads.toArray ++ use ++ returns).toList = _
  rw [deepest, code]

/-! ### The pool -/

/-- Whether the pool of a body in the making has only grown in a certain way. -/
def Grows (growth : Pool → Pool → Prop) (before after : Builder) : Prop :=
  growth before.pool after.pool

section grows

variable {growth : Pool → Pool → Prop} [Pool.IsGrowth growth]

instance : IsPreorder Builder (Grows growth) where
  refl builder := refl_of growth builder.pool
  trans _ _ _ := trans_of growth

theorem Grows.grown {before after : Builder} (grows : Grows growth before after) :
    before.pool.Extends after.pool :=
  Pool.IsGrowth.grown grows

end grows

theorem always_intern {α : Type} {growth : Pool → Pool → Prop} {action : Interning α}
    (always : Stateful.Always growth action) : Stateful.Always (Grows growth) (intern action) :=
  fun builder => always builder.pool

theorem always_emit (code : Bytes) (pops pushes : Nat) :
    Stateful.Always (Grows Pool.Linked) (emit code pops pushes) :=
  fun builder => .refl builder.pool

theorem always_reserveLocals (count : Nat) :
    Stateful.Always (Grows Pool.Linked) (reserveLocals count) :=
  fun builder => .refl builder.pool

theorem always_useLocal (first general : UInt8) (type : FieldType) (slot : UInt16)
    (pops pushes : Nat) :
    Stateful.Always (Grows Pool.Linked) (useLocal first general type slot pops pushes) := by
  refine (always_reserveLocals _).bind fun _ => ?_
  split
  · exact always_emit _ _ _
  · split
    · exact always_emit _ _ _
    · exact always_emit _ _ _

theorem always_loadParametersFrom (slot : Nat) (types : List FieldType) :
    Stateful.Always (Grows Pool.Linked) (loadParametersFrom slot types) := by
  induction types generalizing slot with
  | nil => exact .pure ()
  | cons type rest inductionHypothesis =>
    exact (always_useLocal _ _ _ _ _ _).bind fun _ => inductionHypothesis _

theorem always_loadConstant (index : UInt16) :
    Stateful.Always (Grows Pool.Linked) (loadConstant index) := by
  unfold loadConstant
  split
  · exact always_emit _ _ _
  · exact always_emit _ _ _

/-- Asking for a constant that comes with what it refers to. -/
theorem always_request (request : Pool.Request) (links : request.Links) :
    Stateful.Always (Grows Pool.Linked) (intern request.run) :=
  always_intern (Pool.always_linked request links)

theorem always_pushInteger (value : Int32) :
    Stateful.Always (Grows Pool.Linked) (pushInteger value) := by
  unfold pushInteger
  simp only
  split
  · exact always_emit _ _ _
  · split
    · exact always_emit _ _ _
    · split
      · exact always_emit _ _ _
      · have asked := always_request (.integer value) trivial
        exact asked.bind fun _ => always_loadConstant _

theorem always_useField (use : FieldUse) (owner name : String) (type : FieldType) :
    Stateful.Always (Grows Pool.Linked) (useField use owner name type) := by
  have asked := always_request (.field owner name type.descriptor) trivial
  refine asked.bind fun _ => ?_
  cases use.direction with
  | read => exact always_emit _ _ _
  | write => exact always_emit _ _ _

theorem always_internInvoked (invocation : Invocation) (owner name descriptor : String) :
    Stateful.Always Pool.Linked (invocation.intern owner name descriptor) := by
  cases invocation with
  | interface =>
    exact Pool.always_linked (.interfaceMethod owner name descriptor) trivial
  | virtual | special | static =>
    exact Pool.always_linked (.method owner name descriptor) trivial

theorem always_invoke (invocation : Invocation) (owner name : String) (method : MethodType) :
    Stateful.Always (Grows Pool.Linked) (invoke invocation owner name method) :=
  (always_intern (always_internInvoked _ _ _ _)).bind fun _ => always_emit _ _ _

end Builder

namespace CodeStep

open Builder

/-- Whether a step is there for the code that it emits, and not for the constants alone. Giving up
emits nothing either, but it adds no constant. -/
def Emits : CodeStep → Prop
  | .intern _ | .internIntegers .. => False
  | _ => True

/-- What a step that emits code puts into the pool is what its instruction refers to, and that is
asked for with what it refers to itself. -/
theorem always_run_of_emits {step : CodeStep} (emits : step.Emits) :
    Stateful.Always (Grows Pool.Linked) step.run := by
  cases step with
  | load | store => exact always_useLocal _ _ _ _ _ _
  | loadThis | pushNull | duplicate | raw => exact always_emit _ _ _
  | loadParameters => exact always_loadParametersFrom _ _
  | pushInteger => exact always_pushInteger _
  | pushString value =>
    have asked := always_request (.string value) trivial
    exact asked.bind fun _ => always_loadConstant _
  | create name =>
    have asked := always_request (.className name) trivial
    exact asked.bind fun _ => always_emit _ _ _
  | pop type =>
    simp only [run]
    split
    · exact .pure ()
    · exact always_emit _ _ _
    · exact always_emit _ _ _
  | field => exact always_useField _ _ _ _
  | invoke => exact always_invoke _ _ _ _
  | returnValue type =>
    simp only [run]
    split
    · exact always_emit _ _ _
    · exact always_emit _ _ _
  | intern | internIntegers => exact emits.elim
  | refuse => exact .throw _

/-- Whatever a step is there for, all that it does to the pool is that it adds to it. -/
theorem always_run (step : CodeStep) : Stateful.Always (Grows Pool.Extends) step.run := by
  cases step with
  | intern => exact (always_intern (Pool.always_intern _)).discard
  | internIntegers => exact (always_intern (Pool.always_internIntegers _ _ _)).discard
  | _ =>
    refine Stateful.Always.mono Grows.grown (always_run_of_emits ?_)
    trivial

theorem always_runAll_of_emits {steps : List CodeStep} (emit : ∀ step ∈ steps, step.Emits) :
    Stateful.Always (Grows Pool.Linked) (runAll steps) :=
  .forM fun step member => always_run_of_emits (emit step member)

theorem always_runAll (steps : List CodeStep) :
    Stateful.Always (Grows Pool.Extends) (runAll steps) :=
  .forM fun step _ => always_run step

end CodeStep

end JavaClass
