/-
What built code says. Every step of the making of a body asks for actions, and counts for each of
them the slots it takes from the stack and leaves there and the local variables it needs. The
instructions that are written for them are read as these actions, whichever form was chosen for
them, against the pool as it is in the end: the constants a step put there are not moved by later
steps. Since each of the instructions is decoded as it was written, built code decodes to the
instructions that were asked for, in order, and to nothing else.
-/

import JavaClass.Proofs.Code.Action
import JavaClass.Proofs.Descriptor

namespace JavaClass

theorem FieldType.isVoid_iff_slots {type : FieldType} : type.isVoid = true ↔ type.slots = 0 := by
  cases type with
  | base base => cases base <;> decide
  | object | array => exact iff_of_false Bool.false_ne_true (Nat.succ_ne_zero 0)

/-! ### What steps ask for -/

/-- What using a local variable that takes some slots does to the stack. -/
def Direction.effect (slots : Nat) : Direction → StackEffect
  | .read => ⟨0, slots⟩
  | .write => ⟨slots, 0⟩

/-- What a call does to the stack. -/
def Invocation.effect (method : MethodType) (invocation : Invocation) : StackEffect :=
  ⟨invocation.receiverSlots + method.parameterSlots, method.returns.slots⟩

/-- An effect as it is counted: the slots that it takes have been added up in sixteen bits. -/
def StackEffect.counted (effect : StackEffect) : StackEffect :=
  { effect with pops := effect.pops % 2 ^ 16 }

/-- The count that comes with a call: the slots of the arguments and of the instance they are
passed to, for a call on an interface. -/
def Invocation.count? (method : MethodType) : Invocation → Option Nat
  | .interface => some (method.parameterSlots + 1)
  | .virtual | .special | .static => none

/-- An action that is asked for, what is counted for it, and how many local variables there must
be. -/
structure Demand where
  action : Action
  effect : StackEffect
  locals : Nat
  deriving DecidableEq, Repr

namespace Demand

/-- An action that uses no local variables of its own. -/
def ofAction (action : Action) (effect : StackEffect) : Demand := ⟨action, effect, 0⟩

/-- The use of a local variable of a type. There is none of type `void`. -/
def useLocal (direction : Direction) (type : FieldType) (slot : Nat) : List Demand :=
  type.kind?.toList.map fun kind =>
    ⟨.useLocal direction kind slot, direction.effect type.slots, slot + type.slots⟩

/-- Loads of variables of the given types, each behind the one before. -/
def loads : Nat → List FieldType → List Demand
  | _, [] => []
  | slot, type :: rest => useLocal .read type slot ++ loads (slot + type.slots) rest

/-- What is loaded is in a slot behind those of the variables before, and inside those of all. -/
theorem exists_of_mem_loads {demand : Demand} {slot : Nat} {types : List FieldType}
    (member : demand ∈ loads slot types) :
    ∃ type ∈ types, ∃ place, demand ∈ useLocal .read type place ∧
      place + type.slots ≤ slot + (types.map FieldType.slots).sum := by
  induction types generalizing slot with
  | nil => cases member
  | cons type rest inductionHypothesis =>
    rw [List.map_cons, List.sum_cons, ← Nat.add_assoc]
    rcases List.mem_append.mp member with here | later
    · exact ⟨type, List.mem_cons_self, slot, here, Nat.le_add_right _ _⟩
    · obtain ⟨other, isOther, place, demanded, within⟩ := inductionHypothesis later
      exact ⟨other, List.mem_cons_of_mem type isOther, place, demanded, within⟩

end Demand

namespace CodeStep

/-- What a step asks for. -/
def demands : CodeStep → List Demand
  | .load type slot => Demand.useLocal .read type slot.toNat
  | .store type slot => Demand.useLocal .write type slot.toNat
  | .loadThis => [.ofAction (.useLocal .read .reference 0) ⟨0, 1⟩]
  | .loadParameters isStatic method => Demand.loads (if isStatic then 0 else 1) method.parameters
  | .pushInteger value => [.ofAction (.pushInteger value.toInt) ⟨0, 1⟩]
  | .pushString text => [.ofAction (.pushString text) ⟨0, 1⟩]
  | .pushNull => [.ofAction .pushNull ⟨0, 1⟩]
  | .create className => [.ofAction (.create className) ⟨0, 1⟩]
  | .duplicate => [.ofAction .duplicate ⟨1, 2⟩]
  | .pop type => if type.isVoid then [] else [.ofAction (.drop type.slots) ⟨type.slots, 0⟩]
  | .field use owner name type =>
    [.ofAction (.useField use ⟨owner, name, type.descriptor⟩) (use.effect type)]
  | .invoke invocation owner name method =>
    [.ofAction (.invoke invocation ⟨owner, name, method.descriptor⟩ (invocation.count? method))
      (invocation.effect method).counted]
  | .returnValue type => [.ofAction (.returnValue type.kind?) ⟨type.slots, 0⟩]
  | .raw .. | .intern _ | .internIntegers .. | .refuse _ => []

/-- The actions that a step asks for. -/
def actions (step : CodeStep) : List Action := step.demands.map Demand.action

/-- Whether what a step asks for can be said in instructions: its code is not encoded already, the
local variables it uses are not of type `void`, and there are slots for all the parameters it
loads. -/
def Sayable : CodeStep → Prop
  | .load type _ | .store type _ => type ≠ .void
  | .loadParameters isStatic method =>
    (∀ parameter ∈ method.parameters, parameter ≠ .void) ∧
      (if isStatic then 0 else 1) + method.parameterSlots ≤ Builder.countLimit
  | .raw .. => False
  | _ => True

end CodeStep

/-- The action as an instruction has room for it: of the count of a call, one byte. -/
def Action.written : Action → Action
  | .invoke invocation method count => .invoke invocation method (count.map (· % 256))
  | action => action

/-! ### What is written for them -/

/-- An instruction that was written for a demand. -/
structure Emission where
  opcode : UInt8
  operands : Bytes
  demand : Demand

namespace Emission

/-- Whether the instruction says what was demanded. -/
def Tells (pool : Pool) (emission : Emission) : Prop :=
  Action.read? pool emission.opcode emission.operands = some emission.demand.action.written

/-- A body with the instruction behind what it has. -/
def addTo (builder : Builder) (emission : Emission) : Builder :=
  Builder.withCode (emission.opcode :: emission.operands) emission.demand.effect.pops
    emission.demand.effect.pushes { builder with
      maxLocals := max builder.maxLocals (min Builder.countLimit emission.demand.locals) }

theorem Tells.extends {before after : Pool} (grown : before.Extends after) {emission : Emission}
    (tells : emission.Tells before) : emission.Tells after :=
  Action.read?_extends grown tells

/-- Instructions are added to a body whatever its pool is. -/
theorem foldl_addTo_pool (emissions : List Emission) (builder : Builder) (pool : Pool) :
    emissions.foldl addTo { builder with pool } =
      { emissions.foldl addTo builder with pool } := by
  induction emissions generalizing builder with
  | nil => rfl
  | cons emission rest inductionHypothesis => exact inductionHypothesis (emission.addTo builder)

end Emission

namespace Builder

/-- Whether what was demanded is all that was written, in a pool that may have grown. -/
def Writes (demands : List Demand) (before after : Builder) : Prop :=
  ∃ emissions : List Emission, emissions.map Emission.demand = demands ∧
    (∀ emission ∈ emissions, emission.Tells after.pool) ∧
      after = emissions.foldl Emission.addTo { before with pool := after.pool }

/-- What succeeds leaves a body. -/
theorem exists_of_succeeds {action : Building Unit} {before : Builder}
    (succeeds : (action before).1 = .ok ()) : ∃ after, action before = (.ok (), after) :=
  ⟨(action before).2, Prod.ext succeeds rfl⟩

section writes

variable {before middle after : Builder} {first later : List Demand}

theorem Writes.nothing (pool : Pool) : Writes [] before { before with pool } :=
  ⟨[], rfl, List.forall_mem_nil _, rfl⟩

theorem Writes.append (grown : middle.pool.Extends after.pool)
    (written : Writes first before middle) (writtenLater : Writes later middle after) :
    Writes (first ++ later) before after := by
  obtain ⟨emissions, rfl, tells, reached⟩ := written
  obtain ⟨others, rfl, tellsLater, reachedLater⟩ := writtenLater
  refine ⟨emissions ++ others, List.map_append, ?_, ?_⟩
  · refine List.forall_mem_append.mpr ⟨fun emission member => ?_, tellsLater⟩
    exact (tells emission member).extends grown
  · have pooled := congrArg (fun builder : Builder => { builder with pool := after.pool }) reached
    simp only [← Emission.foldl_addTo_pool] at pooled
    rw [List.foldl_append, ← pooled]
    exact reachedLater

end writes

end Builder

/-! ### Instructions by their opcodes -/

namespace Direction

/-- The first of the forms without operands. -/
def firstOpcode : Direction → UInt8
  | .read => Opcode.iload0
  | .write => Opcode.istore0

/-- The first of the general forms. -/
def generalOpcode : Direction → UInt8
  | .read => Opcode.iload
  | .write => Opcode.istore

end Direction

namespace Shape

/-- The opcodes that builders write as they are, and what they write them for. -/
def writtenPlainly : List (UInt8 × Shape) :=
  [(Opcode.wide, .wide), (Opcode.aload0, .complete (.useLocal .read .reference 0)),
    (Opcode.aconstNull, .complete .pushNull), (Opcode.bipush, .byte), (Opcode.sipush, .word),
    (Opcode.ldc, .shortConstant), (Opcode.ldcW, .constant), (Opcode.newInstance, .newInstance),
    (Opcode.dup, .complete .duplicate), (Opcode.pop, .complete (.drop 1)),
    (Opcode.pop2, .complete (.drop 2)), (Opcode.returnVoid, .complete (.returnValue none))]

/-- The opcodes for local variables, of the forms for the first four and of the general form. -/
def writtenForLocals (direction : Direction) : List (UInt8 × Shape) :=
  ValueKind.all.flatMap fun kind =>
    (direction.generalOpcode + kind.place, .onLocal direction kind) ::
      (List.finRange 4).map fun slot =>
        (direction.firstOpcode + 4 * kind.place + UInt8.ofNat slot.val,
          .complete (.useLocal direction kind slot.val))

def writtenForIntegers : List (UInt8 × Shape) :=
  (List.finRange 7).map fun place =>
    (UInt8.ofInt (Opcode.iconst0.toNat + ((place.val : Int) - 1)),
      .complete (.pushInteger ((place.val : Int) - 1)))

def writtenForMembers : List (UInt8 × Shape) :=
  [.virtual, .special, .static, .interface].map (fun invocation : Invocation =>
    (invocation.opcode, .call invocation)) ++
  [⟨.read, true⟩, ⟨.read, false⟩, ⟨.write, true⟩, ⟨.write, false⟩].map fun use : FieldUse =>
    (use.opcode, .onField use)

def writtenForReturns : List (UInt8 × Shape) :=
  ValueKind.all.map fun kind =>
    (Opcode.ireturn + kind.place, .complete (.returnValue (some kind)))

/-- All opcodes that builders write, those that they compute among them. -/
def written : List (List (UInt8 × Shape)) :=
  [writtenPlainly, writtenForLocals .read, writtenForLocals .write, writtenForIntegers,
    writtenForMembers, writtenForReturns]

/-- Every opcode has the shape that builders write it for. -/
theorem ofOpcode?_of_mem_written {opcodes : List (UInt8 × Shape)} (isWritten : opcodes ∈ written)
    {opcode : UInt8} {shape : Shape} (member : (opcode, shape) ∈ opcodes) :
    ofOpcode? opcode = some shape := by
  have all : ∀ opcodes ∈ written, ∀ pair ∈ opcodes, ofOpcode? pair.1 = some pair.2 := by
    decide +kernel
  exact all opcodes isWritten _ member

theorem ofOpcode?_plain {opcode : UInt8} {shape : Shape}
    (member : (opcode, shape) ∈ writtenPlainly) : ofOpcode? opcode = some shape :=
  ofOpcode?_of_mem_written (by simp [written]) member

theorem mem_written_local (direction : Direction) : writtenForLocals direction ∈ written := by
  cases direction <;> simp [written]

theorem ofOpcode?_first (direction : Direction) (kind : ValueKind) {slot : UInt16}
    (first : slot ≤ 3) :
    ofOpcode? (direction.firstOpcode + 4 * kind.place + slot.toUInt8) =
      some (.complete (.useLocal direction kind slot.toNat)) := by
  let place : Fin 4 := ⟨slot.toNat, Nat.lt_succ_of_le (UInt16.le_iff_toNat_le.mp first)⟩
  refine ofOpcode?_of_mem_written (mem_written_local direction)
    (List.mem_flatMap.mpr ⟨kind, kind.mem_all, List.mem_cons_of_mem _ ?_⟩)
  exact List.mem_map.mpr ⟨place, List.mem_finRange place, rfl⟩

theorem ofOpcode?_general (direction : Direction) (kind : ValueKind) :
    ofOpcode? (direction.generalOpcode + kind.place) = some (.onLocal direction kind) :=
  ofOpcode?_of_mem_written (mem_written_local direction)
    (List.mem_flatMap.mpr ⟨kind, kind.mem_all, List.mem_cons_self⟩)

theorem ofOpcode?_smallInteger {number : Int} (low : -1 ≤ number) (high : number ≤ 5) :
    ofOpcode? (UInt8.ofInt (Opcode.iconst0.toNat + number)) =
      some (.complete (.pushInteger number)) := by
  have isWritten : writtenForIntegers ∈ written := by simp [written]
  let place : Fin 7 := ⟨(number + 1).toNat, by omega⟩
  have same : (place.val : Int) - 1 = number := by
    show (((number + 1).toNat : Nat) : Int) - 1 = number
    omega
  refine ofOpcode?_of_mem_written isWritten
    (List.mem_map.mpr ⟨place, List.mem_finRange place, ?_⟩)
  rw [same]

theorem ofOpcode?_use (use : FieldUse) : ofOpcode? use.opcode = some (.onField use) := by
  have isWritten : writtenForMembers ∈ written := by simp [written]
  refine ofOpcode?_of_mem_written isWritten (List.mem_append_right _ (List.mem_map_of_mem ?_))
  obtain ⟨direction, isStatic⟩ := use
  cases direction <;> cases isStatic <;> decide

theorem ofOpcode?_call (invocation : Invocation) :
    ofOpcode? invocation.opcode = some (.call invocation) := by
  have isWritten : writtenForMembers ∈ written := by simp [written]
  refine ofOpcode?_of_mem_written isWritten (List.mem_append_left _ (List.mem_map_of_mem ?_))
  cases invocation <;> decide

theorem ofOpcode?_return (kind : ValueKind) :
    ofOpcode? (Opcode.ireturn + kind.place) = some (.complete (.returnValue (some kind))) := by
  have isWritten : writtenForReturns ∈ written := by simp [written]
  exact ofOpcode?_of_mem_written isWritten (List.mem_map_of_mem kind.mem_all)

end Shape

/-! ### Operands -/

namespace BigEndian

theorem ofInt_toInt8 (value : Int8) : UInt8.ofInt value.toInt = value.toUInt8 := by
  have bits : UInt8.ofInt value.toInt = UInt8.ofBitVec (BitVec.ofInt 8 value.toInt) := by
    refine UInt8.toNat_inj.mp ?_
    show (UInt8.ofNat (value.toInt % 2 ^ 8).toNat).toNat = (BitVec.ofInt 8 value.toInt).toNat
    rw [UInt8.toNat_ofNat', BitVec.toNat_ofInt]
    omega
  rw [bits]
  exact congrArg UInt8.ofBitVec (BitVec.ofInt_toInt)

/-- A byte that was made of a small number is that number. -/
theorem toInt_toInt8_ofInt {number : Int} (low : -128 ≤ number) (high : number ≤ 127) :
    (UInt8.ofInt number).toInt8.toInt = number := by
  have same := Int8.toInt_ofInt_of_le low (Int.lt_add_one_of_le high)
  have bits := ofInt_toInt8 (Int8.ofInt number)
  rw [same] at bits
  rw [bits]
  exact same

theorem toInt_toInt16_ofInt {number : Int} (low : -32768 ≤ number) (high : number ≤ 32767) :
    (UInt16.ofInt number).toInt16.toInt = number := by
  have same := Int16.toInt_ofInt_of_le low (Int.lt_add_one_of_le high)
  have bits := ofInt_toInt16 (Int16.ofInt number)
  rw [same] at bits
  rw [bits]
  exact same

end BigEndian

namespace Shape

variable (pool : Pool) (index : UInt16)

theorem read?_word {number : Int} (low : -32768 ≤ number) (high : number ≤ 32767) :
    read? pool .word (BigEndian.signed16 number) = some (.pushInteger number) := by
  show some (Action.pushInteger (BigEndian.ofBytes16 _ _).toInt16.toInt) = _
  rw [BigEndian.ofBytes16_word16, BigEndian.toInt_toInt16_ofInt low high]

theorem read?_constant :
    read? pool .constant (BigEndian.word16 index) = Action.ofConstant? pool index := by
  show Action.ofConstant? pool (BigEndian.ofBytes16 _ _) = _
  rw [BigEndian.ofBytes16_word16]

theorem read?_newInstance :
    read? pool .newInstance (BigEndian.word16 index) =
      (pool.className index).toOption.map .create := by
  show (pool.className (BigEndian.ofBytes16 _ _)).toOption.map Action.create = _
  rw [BigEndian.ofBytes16_word16]

theorem read?_onField (use : FieldUse) :
    read? pool (.onField use) (BigEndian.word16 index) =
      (Action.member? pool .field index).map (.useField use) := by
  show (Action.member? pool .field (BigEndian.ofBytes16 _ _)).map (Action.useField use) = _
  rw [BigEndian.ofBytes16_word16]

theorem read?_call (invocation : Invocation) (rest : Bytes) :
    read? pool (.call invocation) (BigEndian.word16 index ++ rest) =
      (Action.member? pool invocation.constantKind index).bind fun method =>
        (Action.count? invocation rest).map (.invoke invocation method) := by
  show (Action.member? pool invocation.constantKind (BigEndian.ofBytes16 _ _)).bind _ = _
  rw [BigEndian.ofBytes16_word16]
  rfl

theorem read?_wide {opcode : UInt8} {direction : Direction} {kind : ValueKind}
    (shaped : ofOpcode? opcode = some (.onLocal direction kind)) :
    read? pool .wide (opcode :: BigEndian.word16 index) =
      some (.useLocal direction kind index.toNat) := by
  rw [BigEndian.word16, read?, shaped, BigEndian.ofBytes16_word16, Option.bind_some, onSlot?]

end Shape

/-! ### One step -/

namespace Action

variable {pool after : Pool} (assembled : pool.Assembled) {index : UInt16}

theorem member?_of_get {constant : Constant} {reference : MemberReference}
    (found : pool.memberReference index = .ok reference) (got : pool.get index = .ok constant) :
    member? pool constant.kind index = some reference := by
  unfold member?
  rw [got]
  exact (if_pos rfl).trans (Outcome.toOption_eq_some_iff.mpr found)

theorem count?_of_invoke (invocation : Invocation) (method : MethodType) :
    count? invocation
      (if invocation = .interface then
        [(UInt16.ofNat (invocation.receiverSlots + method.parameterSlots)).toUInt8, 0] else []) =
      some ((invocation.count? method).map (· % 256)) := by
  cases invocation with
  | interface =>
    show some (some ((1 + method.parameterSlots) % 2 ^ 16 % 256)) =
      some (some ((method.parameterSlots + 1) % 256))
    rw [Nat.mod_mod_of_dvd _ (by decide), Nat.add_comm]
  | virtual | special | static => rfl

include assembled

theorem ofConstant?_of_internInteger {value : Int32}
    (interned : Pool.internInteger value pool = (.ok index, after)) :
    ofConstant? after index = some (.pushInteger value.toInt) := by
  unfold ofConstant?
  rw [Pool.get_of_intern assembled interned]
  rfl

theorem ofConstant?_of_internString {value : String}
    (interned : Pool.internString value pool = (.ok index, after)) :
    ofConstant? after index = some (.pushString value) := by
  have meant : (Pool.Request.string value).MeantBy after index :=
    Pool.meantBy_of_run assembled interned
  obtain ⟨text, got, found⟩ := meant
  unfold ofConstant?
  rw [got]
  exact Option.map_eq_some_iff.mpr ⟨value, Outcome.toOption_eq_some_iff.mpr found, rfl⟩

theorem member?_of_internField {owner name descriptor : String}
    (interned : Pool.internField owner name descriptor pool = (.ok index, after)) :
    member? after .field index = some ⟨owner, name, descriptor⟩ := by
  obtain ⟨found, first, second, got⟩ :=
    Pool.memberReference_of_internMember assembled (.inl rfl) interned
  exact member?_of_get found got

theorem member?_of_internInvoked {invocation : Invocation} {owner name descriptor : String}
    (interned : invocation.intern owner name descriptor pool = (.ok index, after)) :
    member? after invocation.constantKind index = some ⟨owner, name, descriptor⟩ := by
  cases invocation with
  | interface =>
    obtain ⟨found, first, second, got⟩ :=
      Pool.memberReference_of_internMember assembled (.inr (.inr rfl)) interned
    exact member?_of_get found got
  | virtual | special | static =>
    obtain ⟨found, first, second, got⟩ :=
      Pool.memberReference_of_internMember assembled (.inr (.inl rfl)) interned
    exact member?_of_get found got

end Action

namespace Builder

section steps

variable {before after : Builder} {opcode : UInt8} {operands : Bytes} {nothing : Unit}

theorem writes_of_reserved {demand : Demand}
    (tells : Action.read? after.pool opcode operands = some demand.action.written)
    (reached : after = withCode (opcode :: operands) demand.effect.pops demand.effect.pushes
      { before with maxLocals := max before.maxLocals (min countLimit demand.locals) }) :
    Writes [demand] before after := by
  refine ⟨[⟨opcode, operands, demand⟩], rfl, List.forall_mem_singleton.mpr tells, ?_⟩
  have pool : after.pool = before.pool := by
    rw [reached]
    rfl
  rw [pool]
  exact reached

theorem writes_of_withCode {action : Action} {effect : StackEffect}
    (tells : Action.read? after.pool opcode operands = some action.written)
    (reached : after = withCode (opcode :: operands) effect.pops effect.pushes before) :
    Writes [.ofAction action effect] before after := by
  refine writes_of_reserved tells ?_
  have locals : max before.maxLocals (min countLimit 0) = before.maxLocals := Nat.max_zero _
  show after = withCode _ _ _ { before with
    maxLocals := max before.maxLocals (min countLimit 0) }
  rw [locals]
  exact reached

theorem writes_of_emit {action : Action} {effect : StackEffect}
    (tells : Action.read? after.pool opcode operands = some action.written)
    (ran : emit (opcode :: operands) effect.pops effect.pushes before = (.ok nothing, after)) :
    Writes [.ofAction action effect] before after :=
  writes_of_withCode tells (Prod.mk.inj ran).2.symm

/-- Nothing is written while a constant is put into the pool. -/
theorem Writes.of_pool {demands : List Demand} {pool : Pool} (grown : pool.Extends after.pool)
    (written : Writes demands { before with pool } after) : Writes demands before after :=
  (Writes.nothing pool).append grown written

/-- What goes on with a constant that was put into the pool. -/
theorem exists_of_intern {α : Type} {action : Interning α} {next : α → Building Unit}
    (ran : (intern action >>= next) before = (.ok nothing, after)) :
    ∃ found pool, action before.pool = (.ok found, pool) ∧
      next found { before with pool } = (.ok nothing, after) := by
  obtain ⟨found, middle, interned, ran⟩ := Stateful.bind_eq_ok_iff.mp ran
  obtain ⟨pool, internedHere, rfl⟩ := intern_eq_ok_iff.mp interned
  exact ⟨found, pool, internedHere, ran⟩

theorem writes_of_useLocal (direction : Direction) {type : FieldType} {slot : UInt16}
    (proper : type ≠ .void)
    (ran : useLocal direction.firstOpcode direction.generalOpcode type slot
      (direction.effect type.slots).pops (direction.effect type.slots).pushes before =
        (.ok nothing, after)) :
    Writes (Demand.useLocal direction type slot.toNat) before after := by
  obtain ⟨kind, found⟩ := FieldType.exists_kind proper
  have demands : Demand.useLocal direction type slot.toNat =
      [⟨.useLocal direction kind slot.toNat, direction.effect type.slots,
        slot.toNat + type.slots⟩] := by
    rw [Demand.useLocal, found]
    rfl
  rw [demands]
  obtain ⟨_, middle, reserved, ran⟩ := Stateful.bind_eq_ok_iff.mp ran
  obtain rfl := (Prod.mk.inj reserved).2
  rw [FieldType.variant_of_kind? found] at ran
  split at ran
  · rename_i first
    refine writes_of_reserved ?_ (Prod.mk.inj ran).2.symm
    exact Action.read?_of_shape (Shape.ofOpcode?_first direction kind first)
  · split at ran
    · rename_i second
      refine writes_of_reserved ?_ (Prod.mk.inj ran).2.symm
      have few : slot.toNat < 256 := Nat.lt_succ_of_le (UInt16.le_iff_toNat_le.mp second)
      have same : slot.toUInt8.toNat = slot.toNat := Nat.mod_eq_of_lt few
      rw [Action.read?_of_shape (Shape.ofOpcode?_general direction kind)]
      exact congrArg (fun slot => some (Action.useLocal direction kind slot)) same
    · refine writes_of_reserved ?_ (Prod.mk.inj ran).2.symm
      have shaped : Shape.ofOpcode? Opcode.wide = some .wide :=
        Shape.ofOpcode?_plain (by decide)
      rw [Action.read?_of_shape shaped]
      exact Shape.read?_wide _ slot (Shape.ofOpcode?_general direction kind)

theorem writes_of_loadParametersFrom {slot : Nat} {types : List FieldType}
    (proper : ∀ type ∈ types, type ≠ .void)
    (within : slot + (types.map FieldType.slots).sum ≤ countLimit)
    (ran : loadParametersFrom slot types before = (.ok nothing, after)) :
    Writes (Demand.loads slot types) before after := by
  induction types generalizing slot before with
  | nil =>
    obtain ⟨-, rfl⟩ := Stateful.pure_eq_ok_iff.mp ran
    exact .nothing before.pool
  | cons type rest inductionHypothesis =>
    obtain ⟨properHere, properLater⟩ := List.forall_mem_cons.mp proper
    obtain ⟨_, middle, loaded, ran⟩ := Stateful.bind_eq_ok_iff.mp ran
    rw [List.map_cons, List.sum_cons, ← Nat.add_assoc] at within
    -- The slot is below the limit, so that it is neither cut off nor held down to the limit.
    have next := Nat.le_trans (Nat.le_add_right _ _) within
    have below : slot < 2 ^ 16 :=
      Nat.lt_succ_of_le (Nat.le_trans (Nat.le_add_right _ type.slots) next)
    have same : (UInt16.ofNat slot).toNat = slot := by
      rw [UInt16.toNat_ofNat', Nat.mod_eq_of_lt below]
    rw [Nat.min_eq_right next] at ran
    have grown := ((always_loadParametersFrom _ _).relates ran).grown
    have here := writes_of_useLocal .read properHere loaded
    rw [same] at here
    exact here.append grown (inductionHypothesis properLater within ran)

theorem writes_of_loadConstant {index : UInt16} {action : Action}
    (tells : Action.ofConstant? before.pool index = some action.written)
    (ran : loadConstant index before = (.ok nothing, after)) :
    Writes [.ofAction action ⟨0, 1⟩] before after := by
  unfold loadConstant at ran
  split at ran
  · rename_i short
    have few : index.toNat < 256 := Nat.lt_succ_of_le (UInt16.le_iff_toNat_le.mp short)
    have same : index.toUInt8.toUInt16 = index :=
      UInt16.toNat_inj.mp (Nat.mod_eq_of_lt few)
    have shaped : Shape.ofOpcode? Opcode.ldc = some .shortConstant :=
      Shape.ofOpcode?_plain (by decide)
    refine writes_of_emit ?_ ran
    obtain rfl := (Prod.mk.inj ran).2
    rw [Action.read?_of_shape shaped, Shape.read?, same]
    exact tells
  · have shaped : Shape.ofOpcode? Opcode.ldcW = some .constant :=
      Shape.ofOpcode?_plain (by decide)
    refine writes_of_emit ?_ ran
    obtain rfl := (Prod.mk.inj ran).2
    rw [Action.read?_of_shape shaped, Shape.read?_constant]
    exact tells

theorem writes_of_pushInteger (assembled : before.pool.Assembled) {value : Int32}
    (ran : pushInteger value before = (.ok nothing, after)) :
    Writes [.ofAction (.pushInteger value.toInt) ⟨0, 1⟩] before after := by
  unfold pushInteger at ran
  simp only [Bool.and_eq_true, decide_eq_true_eq] at ran
  split at ran
  · rename_i small
    refine writes_of_emit ?_ ran
    exact Action.read?_of_shape (Shape.ofOpcode?_smallInteger small.1 small.2)
  · split at ran
    · rename_i byte
      have shaped : Shape.ofOpcode? Opcode.bipush = some .byte :=
        Shape.ofOpcode?_plain (by decide)
      refine writes_of_emit ?_ ran
      rw [Action.read?_of_shape shaped, Shape.read?,
        BigEndian.toInt_toInt8_ofInt byte.1 byte.2]
      rfl
    · split at ran
      · rename_i word
        have shaped : Shape.ofOpcode? Opcode.sipush = some .word :=
          Shape.ofOpcode?_plain (by decide)
        refine writes_of_emit ?_ ran
        rw [Action.read?_of_shape shaped]
        exact Shape.read?_word _ word.1 word.2
      · obtain ⟨index, pool, interned, ran⟩ := exists_of_intern ran
        refine Writes.of_pool ((always_loadConstant index).relates ran).grown ?_
        exact writes_of_loadConstant (Action.ofConstant?_of_internInteger assembled interned) ran

theorem writes_of_pushString (assembled : before.pool.Assembled) {text : String}
    (ran : (CodeStep.pushString text).run before = (.ok nothing, after)) :
    Writes [.ofAction (.pushString text) ⟨0, 1⟩] before after := by
  obtain ⟨index, pool, interned, ran⟩ := exists_of_intern ran
  refine Writes.of_pool ((always_loadConstant index).relates ran).grown ?_
  exact writes_of_loadConstant (Action.ofConstant?_of_internString assembled interned) ran

theorem writes_of_create (assembled : before.pool.Assembled) {className : String}
    (ran : (CodeStep.create className).run before = (.ok nothing, after)) :
    Writes [.ofAction (.create className) ⟨0, 1⟩] before after := by
  obtain ⟨index, pool, interned, ran⟩ := exists_of_intern ran
  have shaped : Shape.ofOpcode? Opcode.newInstance = some .newInstance :=
    Shape.ofOpcode?_plain (by decide)
  have named := Pool.className_of_internClass assembled interned
  refine Writes.of_pool ((always_emit _ _ _).relates ran).grown (writes_of_emit ?_ ran)
  obtain rfl := (Prod.mk.inj ran).2
  rw [Action.read?_of_shape shaped, Shape.read?_newInstance]
  exact Option.map_eq_some_iff.mpr ⟨className, Outcome.toOption_eq_some_iff.mpr named, rfl⟩

theorem writes_of_useField (assembled : before.pool.Assembled) {use : FieldUse}
    {owner name : String} {type : FieldType}
    (ran : useField use owner name type before = (.ok nothing, after)) :
    Writes [.ofAction (.useField use ⟨owner, name, type.descriptor⟩) (use.effect type)] before
      after := by
  obtain ⟨index, pool, interned, rfl⟩ := exists_of_useField ran
  have found := Action.member?_of_internField assembled interned
  refine Writes.of_pool (Pool.Extends.refl pool) (writes_of_withCode ?_ rfl)
  rw [Action.read?_of_shape (Shape.ofOpcode?_use use), Shape.read?_onField]
  exact Option.map_eq_some_iff.mpr ⟨_, found, rfl⟩

theorem writes_of_invoke (assembled : before.pool.Assembled) {invocation : Invocation}
    {owner name : String} {method : MethodType}
    (ran : invoke invocation owner name method before = (.ok nothing, after)) :
    Writes [.ofAction (.invoke invocation ⟨owner, name, method.descriptor⟩
      (invocation.count? method)) (invocation.effect method).counted] before after := by
  obtain ⟨index, pool, interned, ran⟩ := exists_of_intern ran
  have found := Action.member?_of_internInvoked assembled interned
  refine Writes.of_pool ((always_emit _ _ _).relates ran).grown (writes_of_emit ?_ ran)
  obtain rfl := (Prod.mk.inj ran).2
  rw [Action.read?_of_shape (Shape.ofOpcode?_call invocation), Shape.read?_call,
    Action.count?_of_invoke]
  exact Option.bind_eq_some_iff.mpr ⟨_, found, rfl⟩

theorem writes_of_pop {type : FieldType}
    (ran : (CodeStep.pop type).run before = (.ok nothing, after)) :
    Writes (CodeStep.pop type).demands before after := by
  have few := type.slots_le
  unfold CodeStep.demands
  simp only [FieldType.isVoid_iff_slots]
  obtain none | one | two : type.slots = 0 ∨ type.slots = 1 ∨ type.slots = 2 := by omega
  · simp only [CodeStep.run, none] at ran
    obtain ⟨-, rfl⟩ := Stateful.pure_eq_ok_iff.mp ran
    rw [if_pos none]
    exact .nothing before.pool
  · simp only [CodeStep.run, one] at ran
    have shaped : Shape.ofOpcode? Opcode.pop = some (.complete (.drop 1)) :=
      Shape.ofOpcode?_plain (by decide)
    rw [if_neg (by omega), one]
    exact writes_of_emit (Action.read?_of_shape shaped) ran
  · simp only [CodeStep.run, two] at ran
    have shaped : Shape.ofOpcode? Opcode.pop2 = some (.complete (.drop 2)) :=
      Shape.ofOpcode?_plain (by decide)
    rw [if_neg (by omega), two]
    exact writes_of_emit (Action.read?_of_shape shaped) ran

theorem returnCode_of_kind? {type : FieldType} {kind : ValueKind}
    (found : type.kind? = some kind) : returnCode type = [Opcode.ireturn + kind.place] := by
  have proper : type ≠ .void := by
    rintro rfl
    cases found
  rw [returnCode, if_neg (proper ∘ FieldType.isVoid_iff.mp), FieldType.variant_of_kind? found]

theorem writes_of_returnValue {type : FieldType}
    (ran : (CodeStep.returnValue type).run before = (.ok nothing, after)) :
    Writes [.ofAction (.returnValue type.kind?) ⟨type.slots, 0⟩] before after := by
  rw [returnValue_apply] at ran
  have reached := (Prod.mk.inj ran).2.symm
  by_cases void : type = .void
  · subst void
    have shaped : Shape.ofOpcode? Opcode.returnVoid = some (.complete (.returnValue none)) :=
      Shape.ofOpcode?_plain (by decide)
    exact writes_of_withCode (Action.read?_of_shape shaped) reached
  · obtain ⟨kind, found⟩ := FieldType.exists_kind void
    rw [returnCode_of_kind? found] at reached
    rw [found]
    exact writes_of_withCode (Action.read?_of_shape (Shape.ofOpcode?_return kind)) reached

end steps

end Builder

/-! ### All steps -/

theorem MethodType.parameterSlots_eq_sum (type : MethodType) :
    type.parameterSlots = (type.parameters.map FieldType.slots).sum := by
  rw [parameterSlots, List.sum_eq_foldl, List.foldl_map]

namespace CodeStep

open Builder

variable {before after : Builder} {nothing : Unit}

/-- What a step asks for is what it writes. -/
theorem writes_of_run {step : CodeStep} (assembled : before.pool.Assembled)
    (sayable : step.Sayable) (ran : step.run before = (.ok nothing, after)) :
    Writes step.demands before after := by
  cases step with
  | load type slot => exact writes_of_useLocal .read sayable ran
  | store type slot => exact writes_of_useLocal .write sayable ran
  | loadThis =>
    have shaped : Shape.ofOpcode? Opcode.aload0 =
        some (.complete (.useLocal .read .reference 0)) :=
      Shape.ofOpcode?_plain (by decide)
    exact writes_of_emit (Action.read?_of_shape shaped) ran
  | loadParameters isStatic method =>
    obtain ⟨proper, within⟩ := sayable
    rw [MethodType.parameterSlots_eq_sum] at within
    exact writes_of_loadParametersFrom proper within ran
  | pushInteger value => exact writes_of_pushInteger assembled ran
  | pushString text => exact writes_of_pushString assembled ran
  | pushNull =>
    have shaped : Shape.ofOpcode? Opcode.aconstNull = some (.complete .pushNull) :=
      Shape.ofOpcode?_plain (by decide)
    exact writes_of_emit (Action.read?_of_shape shaped) ran
  | create className => exact writes_of_create assembled ran
  | duplicate =>
    have shaped : Shape.ofOpcode? Opcode.dup = some (.complete .duplicate) :=
      Shape.ofOpcode?_plain (by decide)
    exact writes_of_emit (Action.read?_of_shape shaped) ran
  | pop type => exact writes_of_pop ran
  | field use owner name type => exact writes_of_useField assembled ran
  | invoke invocation owner name method => exact writes_of_invoke assembled ran
  | returnValue type => exact writes_of_returnValue ran
  | raw code pops pushes => exact sayable.elim
  | intern constant =>
    obtain ⟨index, interned⟩ := Stateful.discard_eq_ok_iff.mp ran
    obtain ⟨pool, -, rfl⟩ := intern_eq_ok_iff.mp interned
    exact .nothing pool
  | internIntegers first count =>
    obtain ⟨index, interned⟩ := Stateful.discard_eq_ok_iff.mp ran
    obtain ⟨pool, -, rfl⟩ := intern_eq_ok_iff.mp interned
    exact .nothing pool
  | refuse reason => cases ran

/-- What steps ask for is what they write, one after the other. -/
theorem writes_of_runAll {steps : List CodeStep} (assembled : before.pool.Assembled)
    (sayable : ∀ step ∈ steps, step.Sayable) (ran : runAll steps before = (.ok nothing, after)) :
    Writes (steps.flatMap demands) before after := by
  induction steps generalizing before with
  | nil =>
    obtain ⟨-, rfl⟩ := Stateful.pure_eq_ok_iff.mp ran
    exact .nothing before.pool
  | cons step rest inductionHypothesis =>
    obtain ⟨sayableHere, sayableLater⟩ := List.forall_mem_cons.mp sayable
    obtain ⟨middle, first, ran⟩ := Stateful.forM_cons_eq_ok_iff.mp ran
    have grownHere := ((always_run step).relates first).grown
    have grown := ((always_runAll rest).relates ran).grown
    exact (writes_of_run assembled sayableHere first).append grown
      (inductionHypothesis (grownHere.assembled assembled) sayableLater ran)

end CodeStep

/-! ### Built code -/

/-- Code that instructions are added to goes on with them. -/
theorem Emission.code_foldl_addTo (emissions : List Emission) (builder : Builder) :
    (emissions.foldl addTo builder).code.toList = builder.code.toList ++
      (emissions.map fun emission => (emission.opcode, emission.operands)).flatMap fun part =>
        part.1 :: part.2 := by
  induction emissions generalizing builder with
  | nil => exact (List.append_nil _).symm
  | cons emission rest inductionHypothesis =>
    have here : (emission.addTo builder).code.toList =
        builder.code.toList ++ emission.opcode :: emission.operands := by
      show (builder.code ++ (emission.opcode :: emission.operands)).toList = _
      rw [Array.toList_appendList]
    rw [List.foldl_cons, inductionHypothesis, here, List.append_assoc]
    rfl

/-- Code of instructions that can be read does what they are read as. -/
theorem Body.does_ofCode {pool : Pool} {parts : List (UInt8 × Bytes)} {actions : List Action}
    (read : List.Forall₂ (fun part action => Action.read? pool part.1 part.2 = some action) parts
      actions) (maxStack maxLocals : UInt16) :
    (Body.ofCode maxStack maxLocals (parts.flatMap fun part => part.1 :: part.2)).Does pool
      actions := by
  have plain : ∀ part ∈ parts, IsPlain part.1 part.2 := by
    intro part member
    obtain ⟨action, -, isAction⟩ := exists_mem_of_forall₂_right read.flip member
    exact Action.isPlain_of_read? isAction
  obtain ⟨instructions, decoded, same⟩ := Code.exists_decode_of_plain plain
  refine ⟨instructions, decoded, ?_⟩
  have told := congrArg (List.map fun pair : UInt8 × Operands =>
    Action.ofOperands? pool pair.1 pair.2) same
  simp only [List.map_map, Function.comp_def] at told ⊢
  unfold Instruction.action?
  rw [told, ← List.forall₂_eq_eq_eq, List.forall₂_map_left_iff, List.forall₂_map_right_iff]
  exact read

/-- What was written for demands decodes to instructions that do what was demanded. -/
theorem Builder.Writes.does {demands : List Demand} {before after : Builder}
    (written : Writes demands before after) (fresh : before.code = #[]) :
    after.build.Does after.pool (demands.map fun demand => demand.action.written) := by
  obtain ⟨emissions, rfl, tells, reached⟩ := written
  have code := Emission.code_foldl_addTo emissions { before with pool := after.pool }
  rw [← reached, fresh, List.nil_append] at code
  unfold build
  rw [code]
  refine Body.does_ofCode ?_ _ _
  rw [List.map_map, List.forall₂_map_left_iff, List.forall₂_map_right_iff, List.forall₂_same]
  exact tells

namespace CodeStep

/-- Whether instructions can say what a step asks for without leaving out anything: a call on an
interface, in particular, must have room for its count. -/
def Exact : CodeStep → Prop
  | .load type _ | .store type _ => type ≠ .void
  | .loadParameters _ method =>
    (∀ parameter ∈ method.parameters, parameter ≠ .void) ∧ method.parameterSlots ≤ 65534
  | .invoke .interface _ _ method => method.parameterSlots ≤ 254
  | .raw .. => False
  | _ => True

instance (step : CodeStep) : Decidable step.Exact := by
  unfold Exact
  split <;> infer_instance

theorem Exact.sayable {step : CodeStep} (exact : step.Exact) : step.Sayable := by
  cases step with
  | load | store | raw => exact exact
  | loadParameters isStatic method =>
    obtain ⟨proper, few⟩ := exact
    refine ⟨proper, ?_⟩
    unfold Builder.countLimit
    split
    · omega
    · omega
  | _ => trivial

/-- What an exact step asks for is written as it is. -/
theorem Exact.written {step : CodeStep} (exact : step.Exact) :
    ∀ demand ∈ step.demands, demand.action.written = demand.action := by
  intro demand member
  cases step with
  | load type slot | store type slot =>
    obtain ⟨kind, -, rfl⟩ := List.mem_map.mp member
    rfl
  | loadParameters isStatic method =>
    obtain ⟨type, -, slot, use, -⟩ := Demand.exists_of_mem_loads member
    obtain ⟨kind, -, rfl⟩ := List.mem_map.mp use
    rfl
  | invoke invocation owner name method =>
    obtain rfl := List.mem_singleton.mp member
    cases invocation with
    | interface =>
      have few : method.parameterSlots ≤ 254 := exact
      have small : method.parameterSlots + 1 < 256 := by omega
      exact congrArg (fun count => Action.invoke _ _ (some count)) (Nat.mod_eq_of_lt small)
    | virtual | special | static => rfl
  | pop type =>
    obtain rfl := List.mem_singleton.mp (List.mem_ite_nil_left.mp member).2
    rfl
  | loadThis | pushInteger | pushString | pushNull | create | duplicate | field | returnValue =>
    obtain rfl := List.mem_singleton.mp member
    rfl
  | raw | intern | internIntegers | refuse => cases member

end CodeStep

/-- Whatever body is built of exact steps, with success and in a pool that was used in any way, its
code decodes to the instructions that were asked for, in order: each is read, against the pool as it
then is, as the action that a step asked for, and there are no others. -/
theorem does_of_runAll {pool : Pool} {snapshots : List Pool.Snapshot} {maxLocals : UInt16}
    {steps : List CodeStep} {built : Builder} (used : Pool.Used pool snapshots)
    (exact : ∀ step ∈ steps, step.Exact)
    (ran : CodeStep.runAll steps (.start pool maxLocals) = (.ok (), built)) :
    built.build.Does built.pool (steps.flatMap CodeStep.actions) := by
  obtain ⟨earlier, -, tracked⟩ := used.exists_tracked
  have sayable : ∀ step ∈ steps, step.Sayable := fun step member => (exact step member).sayable
  have does := (CodeStep.writes_of_runAll tracked.assembled sayable ran).does rfl
  have demanded : (steps.flatMap CodeStep.demands).map (fun demand => demand.action.written) =
      steps.flatMap CodeStep.actions := by
    rw [List.map_flatMap]
    refine List.flatMap_congr fun step member => ?_
    exact List.map_congr_left (exact step member).written
  rw [demanded] at does
  exact does

theorem does_of_runAll_mixed :
    let steps : List CodeStep :=
      [.loadParameters false ⟨[.base .long, .object "A", .base .byte], .void⟩,
        .load (.base .double) 300, .store (.array (.base .int)) 9, .pushInteger 5,
        .pushInteger (-129), .pushInteger 70000, .pushString "text", .pop .void,
        .field ⟨.write, true⟩ "A" "count" (.base .long),
        .invoke .interface "I" "call" ⟨[.base .double], .base .int⟩, .returnValue (.base .int)]
    ∃ built, CodeStep.runAll steps (.start .empty 0) = (.ok (), built) ∧
      built.build.Does built.pool
        [.useLocal .read .long 1, .useLocal .read .reference 3, .useLocal .read .int 4,
          .useLocal .read .double 300, .useLocal .write .reference 9, .pushInteger 5,
          .pushInteger (-129), .pushInteger 70000, .pushString "text",
          .useField ⟨.write, true⟩ ⟨"A", "count", "J"⟩,
          .invoke .interface ⟨"I", "call", "(D)I"⟩ (some 3), .returnValue (some .int)] := by
  intro steps
  have succeeds : (CodeStep.runAll steps (.start .empty 0)).1 = .ok () := by
    decide +kernel
  obtain ⟨built, ran⟩ := Builder.exists_of_succeeds succeeds
  have does := does_of_runAll .empty (by decide +kernel) ran
  refine ⟨built, ran, (congrArg (Body.Does built.pool built.build) ?_).mp does⟩
  decide +kernel

end JavaClass
