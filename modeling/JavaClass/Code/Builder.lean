/-
Writing method bodies. A body is built from steps, each of which emits at most a few instructions,
puts the constants these need into the pool, and keeps count of the operand stack. Built code runs
straight through: there are no branches, so the greatest depth met on the way is the depth the
body needs.

Depths and slots are counted up to 65535 and no further, which is as far as a body can say. Only the
slots of parameters are added up without regard to that limit, in sixteen bits.
-/

import JavaClass.Attribute.Basic
import JavaClass.Code.FieldUse

namespace JavaClass

/-- The ways to call a method. -/
inductive Invocation
  | virtual
  | special
  | static
  | interface
  deriving DecidableEq, Repr

namespace Invocation

/-- The instruction that calls a method this way. -/
def opcode : Invocation → UInt8
  | .virtual => Opcode.invokevirtual
  | .special => Opcode.invokespecial
  | .static => Opcode.invokestatic
  | .interface => Opcode.invokeinterface

/-- The slots of the instance a method is called on. -/
def receiverSlots : Invocation → Nat
  | .static => 0
  | _ => 1

/-- Puts a reference to the called method into the pool. -/
def intern : Invocation → String → String → String → Interning UInt16
  | .interface => Pool.internInterfaceMethod
  | _ => Pool.internMethod

end Invocation

/-- A step in the making of a method body. -/
inductive CodeStep
  | load (type : FieldType) (slot : UInt16)
  | store (type : FieldType) (slot : UInt16)
  | loadThis
  /-- Every parameter of a method, in order. -/
  | loadParameters (isStatic : Bool) (method : MethodType)
  | pushInteger (value : Int32)
  | pushString (text : String)
  | pushNull
  /-- A new instance of a class, not yet initialised. -/
  | create (className : String)
  | duplicate
  /-- Drops a value of a type. -/
  | pop (type : FieldType)
  | field (use : FieldUse) (owner name : String) (type : FieldType)
  | invoke (invocation : Invocation) (owner name : String) (method : MethodType)
  /-- Returns a value of a type, or nothing if the type is `void`. -/
  | returnValue (type : FieldType)
  /-- Instructions that are encoded already, with the slots they take and leave. -/
  | raw (code : Bytes) (pops pushes : Nat)
  /-- Puts a constant into the pool and emits nothing. -/
  | intern (constant : Constant)
  /-- Puts consecutive integers into the pool and emits nothing. -/
  | internIntegers (first : Int) (count : Nat)
  /-- Gives up, for a reason. -/
  | refuse (reason : String)
  deriving DecidableEq, Repr

/-- A method body in the making, and the pool that its constants go to. -/
structure Builder where
  pool : Pool
  code : Array UInt8
  stack : Nat
  maxStack : Nat
  maxLocals : Nat

/-- What adds to a body. The body is handed on whether or not it succeeds. -/
abbrev Building (α : Type) := ExceptT Error (StateM Builder) α

namespace Builder

/-- The greatest depth or slot number that is counted. -/
def countLimit : Nat := 65535

/-- Nothing yet, with `maxLocals` local variables in use. -/
def start (pool : Pool) (maxLocals : UInt16) : Builder :=
  { pool, code := #[], stack := 0, maxStack := 0, maxLocals := maxLocals.toNat }

/-- How many local variables a method finds in use: its parameters and, unless it is static, the
instance it is called on. The slots of parameters are added up in sixteen bits: a sum that runs over
begins again at zero, and only the instance is not counted past the limit. -/
def initialLocals (isStatic : Bool) (method : MethodType) : UInt16 :=
  let parameters := (UInt16.ofNat method.parameterSlots).toNat
  UInt16.ofNat (min countLimit (parameters + if isStatic then 0 else 1))

/-- Nothing yet, with the local variables in use that a method of this type begins with. -/
def startMethod (pool : Pool) (isStatic : Bool) (method : MethodType) : Builder :=
  start pool (initialLocals isStatic method)

/-- The body as it is. -/
def build (builder : Builder) : Body :=
  .ofCode (UInt16.ofNat builder.maxStack) (UInt16.ofNat builder.maxLocals) builder.code.toList

/-! ### Emitting -/

/-- Adds code that takes `pops` slots from the stack and leaves `pushes`. -/
def emit (code : Bytes) (pops pushes : Nat) : Building Unit := fun builder =>
  let ⟨pool, written, stack, maxStack, maxLocals⟩ := builder
  let stack := min countLimit (stack - pops + pushes)
  (.ok (), ⟨pool, written ++ code, stack, max maxStack stack, maxLocals⟩)

/-- Makes sure that there are `count` local variables. -/
def reserveLocals (count : Nat) : Building Unit := fun builder =>
  (.ok (), { builder with maxLocals := max builder.maxLocals (min countLimit count) })

/-- Adds constants to the pool. -/
def intern (action : Interning α) : Building α := fun builder =>
  let ⟨pool, code, stack, maxStack, maxLocals⟩ := builder
  let (result, pool) := action pool
  (result, ⟨pool, code, stack, maxStack, maxLocals⟩)

/-- Where a type stands among the variants of an instruction: those for `int`, `long`, `float`,
`double` and references follow one another. -/
def variant : FieldType → UInt8
  | .base .long => 1
  | .base .float => 2
  | .base .double => 3
  | .object _ | .array _ => 4
  | .base _ => 0

/-- Emits an instruction on a local variable: the form without operands for one of the first four,
and otherwise the general form, widened if the slot needs two bytes. -/
def useLocal (first general : UInt8) (type : FieldType) (slot : UInt16) (pops pushes : Nat) :
    Building Unit := do
  reserveLocals (slot.toNat + type.slots)
  if slot ≤ 3 then emit [first + 4 * variant type + slot.toUInt8] pops pushes
  else if slot ≤ 255 then emit [general + variant type, slot.toUInt8] pops pushes
  else emit (Opcode.wide :: (general + variant type) :: BigEndian.word16 slot) pops pushes

/-- Loads a local variable. -/
def load (type : FieldType) (slot : UInt16) : Building Unit :=
  useLocal Opcode.iload0 Opcode.iload type slot 0 type.slots

/-- Stores into a local variable. -/
def store (type : FieldType) (slot : UInt16) : Building Unit :=
  useLocal Opcode.istore0 Opcode.istore type slot type.slots 0

/-- Loads parameters of the given types, the first of which is in `slot`. -/
def loadParametersFrom : Nat → List FieldType → Building Unit
  | _, [] => pure ()
  | slot, type :: rest => do
    load type (UInt16.ofNat slot)
    loadParametersFrom (min countLimit (slot + type.slots)) rest

/-- Pushes the constant at an index. -/
def loadConstant (index : UInt16) : Building Unit :=
  if index ≤ 255 then emit [Opcode.ldc, index.toUInt8] 0 1
  else emit (Opcode.ldcW :: BigEndian.word16 index) 0 1

/-- Pushes an integer in the shortest way there is. -/
def pushInteger (value : Int32) : Building Unit := do
  let number := value.toInt
  if -1 ≤ number && number ≤ 5 then emit [UInt8.ofInt (Opcode.iconst0.toNat + number)] 0 1
  else if -128 ≤ number && number ≤ 127 then emit [Opcode.bipush, UInt8.ofInt number] 0 1
  else if -32768 ≤ number && number ≤ 32767 then
    emit (Opcode.sipush :: BigEndian.signed16 number) 0 1
  else loadConstant (← intern (Pool.internInteger value))

/-- Uses a field. -/
def useField (use : FieldUse) (owner name : String) (type : FieldType) : Building Unit := do
  let index ← intern (Pool.internField owner name type.descriptor)
  let receiver := if use.isStatic then 0 else 1
  let code := use.opcode :: BigEndian.word16 index
  match use.direction with
  | .read => emit code receiver type.slots
  | .write => emit code (receiver + type.slots) 0

/-- Calls a method. The slots that it takes are added up in sixteen bits, and a call on an interface
says how many they are, in one byte. -/
def invoke (invocation : Invocation) (owner name : String) (method : MethodType) :
    Building Unit := do
  let index ← intern (invocation.intern owner name method.descriptor)
  let pops := UInt16.ofNat (invocation.receiverSlots + method.parameterSlots)
  let count := if invocation = .interface then [pops.toUInt8, 0] else []
  emit (invocation.opcode :: (BigEndian.word16 index ++ count)) pops.toNat method.returns.slots

end Builder

/-- Takes a step. -/
def CodeStep.run : CodeStep → Building Unit
  | .load type slot => Builder.load type slot
  | .store type slot => Builder.store type slot
  | .loadThis => Builder.emit [Opcode.aload0] 0 1
  | .loadParameters isStatic method =>
    Builder.loadParametersFrom (if isStatic then 0 else 1) method.parameters
  | .pushInteger value => Builder.pushInteger value
  | .pushString text => do Builder.loadConstant (← Builder.intern (Pool.internString text))
  | .pushNull => Builder.emit [Opcode.aconstNull] 0 1
  | .create className => do
    let index ← Builder.intern (Pool.internClass className)
    Builder.emit (Opcode.newInstance :: BigEndian.word16 index) 0 1
  | .duplicate => Builder.emit [Opcode.dup] 1 2
  | .pop type =>
    match type.slots with
    | 0 => pure ()
    | 1 => Builder.emit [Opcode.pop] 1 0
    | _ => Builder.emit [Opcode.pop2] 2 0
  | .field use owner name type => Builder.useField use owner name type
  | .invoke invocation owner name method => Builder.invoke invocation owner name method
  | .returnValue type =>
    if type.isVoid then Builder.emit [Opcode.returnVoid] 0 0
    else Builder.emit [Opcode.ireturn + Builder.variant type] type.slots 0
  | .raw code pops pushes => Builder.emit code pops pushes
  | .intern constant => discard (Builder.intern (Pool.intern constant))
  | .internIntegers first count => discard (Builder.intern (Pool.internIntegers count first none))
  | .refuse reason => throw (.unsupportedEdit (.other reason))

/-- Takes steps one after the other, up to the first that fails. -/
def CodeStep.runAll (steps : List CodeStep) : Building Unit := steps.forM CodeStep.run

end JavaClass
