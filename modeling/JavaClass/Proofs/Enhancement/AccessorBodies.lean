/-
What accessors are and do. For a field that a class declares, whatever its type, adding accessors
appends one method for each that is wanted, and constants. The method is as visible as the field,
static, made by no source, and final where methods may be; its descriptor takes the instance, if the
field belongs to one, and the value that is written. Its code loads what it is given, in order, uses
that field once and returns, with nothing left on the stack. The room it declares is the room it
needs.
-/

import JavaClass.Proofs.Code.Depth
import JavaClass.Proofs.Enhancement.AccessorCalls

namespace JavaClass

/-- Whether a body does these actions and nothing else, never takes more from the stack than there
is, leaves nothing there in the end, and declares as much of it as it ever has on it. -/
structure Body.RunsStraight (pool : Pool) (body : Body) (actions : List Action) : Prop where
  does : body.Does pool actions
  stack : ∃ effects depths, actions.map Action.effect? = effects.map some ∧
    StackEffect.depths? 0 effects = some depths ∧ depths.getLast? = some 0 ∧
      body.maxStack.toNat = depths.foldl max 0

namespace Enhancement

/-! ### Flags -/

/-- The flags that the accessor of a field has. -/
structure FlagsServe (isInterface : Bool) (declared : FieldFlags) (flags : MethodFlags) : Prop where
  isStatic : flags.has MethodFlags.accStatic = true
  isSynthetic : flags.has MethodFlags.accSynthetic = true
  isFinal : flags.has MethodFlags.accFinal = !isInterface
  /-- The bits of `PUBLIC`, `PRIVATE` and `PROTECTED` are those of the field. -/
  visibility : flags.bits &&& 0x0007 = declared.bits &&& 0x0007
  noOther : flags.bits &&& ~~~(0x0007 ||| MethodFlags.accStatic.bits |||
    MethodFlags.accSynthetic.bits ||| MethodFlags.accFinal.bits) = 0

theorem flagsServe_accessorFlags (isInterface : Bool) (declared : FieldFlags) :
    FlagsServe isInterface declared (Enhancer.accessorFlags isInterface declared) := by
  -- Of the flags of the field only three bits count, so that there are eight cases for each.
  have few : (declared.bits &&& 0x0007).toNat < 8 := by
    rw [UInt16.toNat_and]
    exact Nat.and_lt_two_pow (n := 3) _ (by decide)
  have same : UInt16.ofNat (declared.bits &&& 0x0007).toNat = declared.bits &&& 0x0007 :=
    UInt16.ofNat_toNat
  have all : ∀ visible : Fin 8,
      let flags : MethodFlags :=
        ⟨UInt16.ofNat visible ||| if isInterface then 0x1008 else 0x1018⟩
      flags.has MethodFlags.accStatic = true ∧ flags.has MethodFlags.accSynthetic = true ∧
        flags.has MethodFlags.accFinal = !isInterface ∧
        flags.bits &&& ~~~(0x0007 ||| MethodFlags.accStatic.bits |||
          MethodFlags.accSynthetic.bits ||| MethodFlags.accFinal.bits) = 0 := by
    cases isInterface <;> decide
  have flags : Enhancer.accessorFlags isInterface declared =
      ⟨(declared.bits &&& 0x0007) ||| if isInterface then 0x1008 else 0x1018⟩ := by
    cases isInterface with
    | true => rfl
    | false => exact congrArg Flags.mk (UInt16.or_assoc _ _ _)
  have here := all ⟨_, few⟩
  rw [same, ← flags] at here
  obtain ⟨isStatic, isSynthetic, isFinal, noOther⟩ := here
  exact ⟨isStatic, isSynthetic, isFinal, visibility_accessorFlags isInterface declared, noOther⟩

/-! ### The description of an accessor -/

/-- The descriptor of an accessor of a field: it takes the instance, if the field belongs to one,
and the value that it writes. -/
def accessorDescriptor (field : MemberReference) (isStatic : Bool) : Direction → String
  | .read => "(" ++ receiver ++ ")" ++ field.descriptor
  | .write => "(" ++ receiver ++ field.descriptor ++ ")V"
where
  receiver : String := if isStatic then "" else "L" ++ field.owner ++ ";"

/-- Loads of everything an accessor is given, in order: the instance, if the field belongs to one,
and the value that it writes. -/
def parameterLoads (isStatic : Bool) (kind : ValueKind) : Direction → List Action
  | .read => receiver
  | .write => receiver ++ [.useLocal .read kind (if isStatic then 0 else 1)]
where
  receiver : List Action := if isStatic then [] else [.useLocal .read .reference 0]

/-- What an accessor of a field does whose values are of a kind. -/
def accessorActions (field : MemberReference) (isStatic : Bool) (kind : ValueKind)
    (direction : Direction) : List Action :=
  parameterLoads isStatic kind direction ++
    [.useField ⟨direction, isStatic⟩ field,
      .returnValue (match direction with | .read => some kind | .write => none)]

/-- How many local variables an accessor is given. -/
def accessorSlots (isStatic : Bool) (kind : ValueKind) : Direction → Nat
  | .read => receiver
  | .write => receiver + kind.slots
where
  receiver : Nat := if isStatic then 0 else 1

/-- What a method is that was made to be an accessor of a field which a class declares, with values
of a kind. -/
structure ServesField (pool : Pool) (isInterface : Bool) (declared : Field)
    (field : MemberReference) (kind : ValueKind) (wanted : Direction × String)
    (method : Method) : Prop where
  flags : FlagsServe isInterface declared.flags method.flags
  name : pool.text method.name = .ok wanted.2
  descriptor : pool.text method.descriptor =
    .ok (accessorDescriptor field (Field.isStatic declared) wanted.1)
  /-- A body is all it has, and the body has nothing but its code. -/
  body : ∃ codeName maxStack maxLocals code, pool.text codeName = .ok "Code" ∧
    method.attributes = [⟨codeName, .code (.ofCode maxStack maxLocals code)⟩] ∧
      (Body.ofCode maxStack maxLocals code).RunsStraight pool
        (accessorActions field (Field.isStatic declared) kind wanted.1) ∧
      maxLocals.toNat = accessorSlots (Field.isStatic declared) kind wanted.1

/-! ### The body of an accessor -/

/-- The effects of an accessor on the stack, for a field whose values take so many slots. -/
def accessorEffects (isStatic : Bool) (slots : Nat) : Direction → List StackEffect
  | .read => receiver.map (StackEffect.mk 0) ++ [⟨receiver.sum, slots⟩, ⟨slots, 0⟩]
  | .write => receiver.map (StackEffect.mk 0) ++ [⟨0, slots⟩, ⟨receiver.sum + slots, 0⟩, ⟨0, 0⟩]
where
  receiver : List Nat := if isStatic then [] else [1]

/-- The deepest that an accessor goes is behind its loads or, if it reads, behind the value. -/
theorem exists_depths_accessorEffects (isStatic : Bool) (kind : ValueKind)
    (direction : Direction) :
    ∃ depths, StackEffect.depths? 0 (accessorEffects isStatic kind.slots direction) = some depths ∧
      depths.getLast? = some 0 ∧
        depths.foldl max 0 = max (accessorSlots isStatic kind direction)
          (match direction with | .read => kind.slots | .write => 0) := by
  cases direction <;> cases isStatic <;> cases kind <;> exact ⟨_, rfl, rfl, rfl⟩

section body

variable {field : ResolvedField} {kind : ValueKind} (found : field.type.kind? = some kind)
  {pool : Pool} {index : UInt16}

include found

theorem forall₂_read?_loads (direction : Direction) :
    List.Forall₂ (fun opcode action => Action.read? pool opcode [] = some action)
      (field.loads direction) (parameterLoads field.isStatic kind direction) := by
  have receiver : Action.read? pool Opcode.aload0 [] =
      some (.useLocal .read .reference 0) :=
    Action.read?_of_shape
      (Shape.ofOpcode?_first .read .reference (by decide : (0 : UInt16) ≤ 3))
  have value (slot : UInt16) (first : slot ≤ 3) :
      Action.read? pool (Builder.loadOpcode field.type slot) [] =
        some (.useLocal .read kind slot.toNat) := by
    rw [Builder.loadOpcode, FieldType.variant_of_kind? found]
    exact Action.read?_of_shape (Shape.ofOpcode?_first .read kind first)
  obtain ⟨owner, name, type, isStatic, ownerIsInterface⟩ := field
  cases direction with
  | read =>
    cases isStatic with
    | true => exact .nil
    | false => exact .cons receiver .nil
  | write =>
    cases isStatic with
    | true => exact .cons (value 0 (by decide)) .nil
    | false => exact .cons receiver (.cons (value 1 (by decide)) .nil)

theorem forall₂_read?_returnCode (direction : Direction) :
    List.Forall₂ (fun opcode action => Action.read? pool opcode [] = some action)
      (Builder.returnCode (field.accessorType direction).returns)
      [.returnValue (match direction with | .read => some kind | .write => none)] := by
  cases direction with
  | read =>
    rw [ResolvedField.accessorType, ResolvedField.getterType, Builder.returnCode_of_kind? found]
    exact .cons (Action.read?_of_shape (Shape.ofOpcode?_return kind)) .nil
  | write =>
    have shaped : Shape.ofOpcode? Opcode.returnVoid = some (.complete (.returnValue none)) := by
      decide +kernel
    exact .cons (Action.read?_of_shape shaped) .nil

/-- The code of an accessor, read against a pool in which its constant names the field. -/
theorem does_accessorBody {reference : MemberReference}
    (names : Action.member? pool .field index = some reference) (direction : Direction) :
    (field.accessorBody direction index).Does pool
      (accessorActions reference field.isStatic kind direction) := by
  have use : Action.read? pool (field.accessorUse direction).opcode (BigEndian.word16 index) =
      some (.useField ⟨direction, field.isStatic⟩ reference) := by
    rw [Action.read?_of_shape (Shape.ofOpcode?_use _), Shape.read?_onField, names]
    rfl
  have read : List.Forall₂ (fun part action => Action.read? pool part.1 part.2 = some action)
      (field.accessorParts direction index)
      (accessorActions reference field.isStatic kind direction) := by
    refine List.rel_append ?_ (.cons use ?_)
    · exact List.forall₂_map_left_iff.mpr (forall₂_read?_loads found direction)
    · exact List.forall₂_map_left_iff.mpr (forall₂_read?_returnCode found direction)
  have does := Body.does_ofCode read (field.accessorBody direction index).maxStack
    (field.accessorBody direction index).maxLocals
  rw [field.flatMap_accessorParts] at does
  exact does

/-- The actions of an accessor have these effects if the field has values of the kind. -/
theorem map_effect?_accessorActions {reference : MemberReference}
    (parsed : FieldType.parse reference.descriptor = .ok field.type) (isStatic : Bool)
    (direction : Direction) :
    (accessorActions reference isStatic kind direction).map Action.effect? =
      (accessorEffects isStatic kind.slots direction).map some := by
  have uses (use : FieldUse) : (Action.useField use reference).effect? =
      some ⟨use.pops field.type, use.pushes field.type⟩ := by
    rw [Action.effect?, parsed]
    rfl
  have loads (kind : ValueKind) (slot : Nat) :
      (Action.useLocal .read kind slot).effect? = some ⟨0, kind.slots⟩ := rfl
  have returns (kind : Option ValueKind) :
      (Action.returnValue kind).effect? = some ⟨(kind.map ValueKind.slots).getD 0, 0⟩ := rfl
  have receiver : ValueKind.reference.slots = 1 := rfl
  have slots := FieldType.slots_of_kind? found
  cases direction <;> cases isStatic <;>
    simp [accessorActions, parameterLoads, parameterLoads.receiver, accessorEffects,
      accessorEffects.receiver, uses, loads, returns, receiver, FieldUse.pops, FieldUse.pushes,
      slots]

theorem pops_accessorUse (direction : Direction) :
    (field.accessorUse direction).pops field.type =
      accessorSlots field.isStatic kind direction := by
  have slots := FieldType.slots_of_kind? found
  cases direction with
  | read => rfl
  | write => exact congrArg (_ + ·) slots

/-- An accessor has the stack for what it does, and no more. -/
theorem runsStraight_accessorBody {reference : MemberReference}
    (names : Action.member? pool .field index = some reference)
    (parsed : FieldType.parse reference.descriptor = .ok field.type) (direction : Direction) :
    (field.accessorBody direction index).RunsStraight pool
      (accessorActions reference field.isStatic kind direction) := by
  obtain ⟨depths, reached, last, deepest⟩ :=
    exists_depths_accessorEffects field.isStatic kind direction
  refine ⟨does_accessorBody found names direction, accessorEffects field.isStatic kind.slots
    direction, depths, map_effect?_accessorActions found parsed field.isStatic direction, reached,
    last, ?_⟩
  have declared : (field.accessorBody direction index).maxStack.toNat =
      max ((field.accessorUse direction).pops field.type)
        ((field.accessorUse direction).pushes field.type) := by
    have pops := (field.accessorUse direction).pops_le field.type
    have pushes := (field.accessorUse direction).pushes_le field.type
    exact Nat.mod_eq_of_lt (by omega)
  have slots := FieldType.slots_of_kind? found
  rw [declared, deepest, pops_accessorUse found]
  cases direction with
  | read => exact congrArg (max _) slots
  | write => rfl

end body

/-! ### The descriptor of an accessor -/

theorem descriptor_accessorType (field : ResolvedField) (direction : Direction) :
    (field.accessorType direction).descriptor =
      accessorDescriptor ⟨field.owner, field.name, field.type.descriptor⟩ field.isStatic
        direction := by
  obtain ⟨owner, name, type, isStatic, ownerIsInterface⟩ := field
  refine String.toList_inj.mp ?_
  cases direction <;> cases isStatic <;>
    simp [ResolvedField.accessorType, ResolvedField.getterType, ResolvedField.setterType,
      ResolvedField.receiver, MethodType.descriptor, FieldType.descriptor, FieldType.characters,
      FieldType.void, BaseType.letter, accessorDescriptor, accessorDescriptor.receiver]

/-! ### Accessors that were added -/

theorem servesField_of_isAccessor {pool : Pool} {isInterface : Bool} {declared : Field}
    {field : ResolvedField} {kind : ValueKind} (found : field.type.kind? = some kind)
    (valid : field.type.Valid) (isStatic : field.isStatic = Field.isStatic declared)
    {wanted : Direction × String} {method : Method}
    (made : IsAccessor pool field (Enhancer.accessorFlags isInterface declared.flags) wanted
      method) :
    ServesField pool isInterface declared ⟨field.owner, field.name, field.type.descriptor⟩ kind
      wanted method := by
  obtain ⟨codeName, index, code, reference, ⟨owner, nameAndType, got⟩, attributes⟩ :=
    made.attributes
  have names := Action.member?_of_get reference got
  have parsed := FieldType.parse_eq_ok_iff.mpr ⟨valid, rfl⟩
  refine ⟨?_, made.name, ?_, codeName, _, _, _, code, attributes, ?_, ?_⟩
  · rw [made.flags]
    exact flagsServe_accessorFlags isInterface declared.flags
  · rw [made.descriptor, descriptor_accessorType, isStatic]
  · rw [← isStatic]
    exact runsStraight_accessorBody found names parsed wanted.1
  · rw [← isStatic, ← pops_accessorUse found]
    have few := (field.accessorUse wanted.1).pops_le field.type
    exact Nat.mod_eq_of_lt (by omega)

/-- Wherever accessors of a field were added to a class that was read, the class declares the field
and has a name, and the descriptor of the field is that of a type. For each of the accessors that
are wanted a method is appended that serves the field so, those that read first; and apart from
constants that are added behind those there were, nothing else changes. -/
theorem servesField_of_addAccessors {bytes : Bytes} {before after : Enhancer}
    (read : ClassFile.read bytes = .ok before.file) {managed : ManagedField}
    (ran : Enhancer.addAccessors managed before = (.ok (), after)) :
    ∃ declared owner type kind added,
      before.file.field? managed.name managed.descriptor = some declared ∧
      before.file.name = .ok owner ∧
      before.file.pool.text declared.name = .ok managed.name ∧
      before.file.pool.text declared.descriptor = .ok type.descriptor ∧
      FieldType.parse type.descriptor = .ok type ∧ type.kind? = some kind ∧
      after = { before with
        file := { before.file with
          pool := after.file.pool
          methods := before.file.methods ++ added } } ∧
      before.file.pool.Extends after.file.pool ∧
      List.Forall₂ (ServesField after.file.pool before.file.isInterface declared
        ⟨owner, managed.name, type.descriptor⟩ kind)
        (Enhancer.wantedAccessors managed.accessors) added := by
  have legible := (ClassFile.read_eq_ok_iff.mp read).1.legible
  obtain ⟨field, declared, added, made⟩ := exists_accessorsMade legible ran
  obtain ⟨owner, type, named, described, parsed, rfl⟩ :=
    exists_of_resolveField_declared made.found made.resolved
  have valid := (FieldType.parse_eq_ok_iff.mp parsed).1
  have proper : type ≠ .void := by
    rintro rfl
    exact valid rfl
  obtain ⟨kind, found⟩ := FieldType.exists_kind proper
  have called : before.file.pool.text declared.name = .ok managed.name := by
    have isCalled := List.find?_some made.found
    exact Pool.text_of_holdsText (Bool.and_eq_true_iff.mp isCalled).1
  refine ⟨declared, owner, type, kind, added, made.found, named, called, described, parsed, found,
    made.rest, made.pool, made.made.imp fun wanted method both => ?_⟩
  exact servesField_of_isAccessor found valid rfl both.2

/-- A class with a private field whose values take two slots. -/
def fileOfLongField : Bytes :=
  [0xCA, 0xFE, 0xBA, 0xBE, 0, 0, 0, 52,
    0, 5, 1, 0, 1, 65, 7, 0, 1, 1, 0, 1, 120, 1, 0, 1, 74,
    0, 33, 0, 2, 0, 0, 0, 0,
    0, 1, 0, 2, 0, 3, 0, 4, 0, 0,
    0, 0, 0, 0]

/-- The field, to be read and written through methods of its own. -/
def managedLongField : ManagedField := ⟨"x", none, ⟨some "getX", some "setX"⟩⟩

theorem servesField_of_addAccessors_long :
    ∃ file after declared getter setter, ClassFile.read fileOfLongField = .ok file ∧
      Enhancer.addAccessors managedLongField (.ofClass .silent [] file) = (.ok (), after) ∧
      after.file.methods = [getter, setter] ∧
      ServesField after.file.pool false declared ⟨"A", "x", "J"⟩ .long (.read, "getX") getter ∧
      ServesField after.file.pool false declared ⟨"A", "x", "J"⟩ .long (.write, "setX") setter := by
  have computed : (ClassFile.read fileOfLongField).map (fun file =>
      (file.name, (file.field? "x" none).map fun field => file.pool.holdsText field.descriptor "J",
        file.isInterface, file.methods.length,
        (Enhancer.addAccessors managedLongField (.ofClass .silent [] file)).1)) =
      .ok (.ok "A", some true, false, 0, .ok ()) := by
    decide +kernel
  obtain ⟨file, read, results⟩ := Outcome.map_eq_ok_iff.mp computed
  simp only [Prod.mk.injEq] at results
  obtain ⟨named, described, ofClass, empty, succeeds⟩ := results
  have readHere : ClassFile.read fileOfLongField =
      .ok (Enhancer.ofClass .silent [] file).file := read
  cases ran : Enhancer.addAccessors managedLongField (.ofClass .silent [] file) with
  | mk result after =>
    rw [ran] at succeeds
    obtain rfl := succeeds
    obtain ⟨declared, owner, type, kind, added, found, isOwner, -, isType, parsed, isKind, rest, -,
      row⟩ := servesField_of_addAccessors readHere ran
    obtain rfl : "A" = owner := Except.ok.inj (named.symm.trans isOwner)
    have spelt : type.descriptor = "J" := by
      obtain ⟨field, isField, same⟩ := Option.map_eq_some_iff.mp described
      obtain rfl : field = declared := Option.some.inj (isField.symm.trans found)
      exact Except.ok.inj (isType.symm.trans (Pool.text_of_holdsText same))
    have long : FieldType.parse "J" = .ok (.base .long) := by
      decide +kernel
    rw [spelt, long] at parsed
    obtain rfl := Except.ok.inj parsed
    obtain rfl := Option.some.inj isKind
    obtain ⟨getter, others, serves, behind, rfl⟩ := List.forall₂_cons_left_iff.mp row
    obtain ⟨setter, last, servesToo, nothing, rfl⟩ := List.forall₂_cons_left_iff.mp behind
    obtain rfl := List.forall₂_nil_left_iff.mp nothing
    have methods : after.file.methods = [getter, setter] := by
      rw [rest]
      exact congrArg (· ++ [getter, setter]) (List.length_eq_zero_iff.mp empty)
    exact ⟨file, after, declared, getter, setter, read, ran, methods, ofClass ▸ serves,
      ofClass ▸ servesToo⟩

end Enhancement

end JavaClass
