/-
What instructions do. An instruction that stands in a built body is read as the action it stands
for: which local variable it loads or stores, which value it pushes, which member of which class it
uses. The reading goes by a table of the instruction set and knows nothing of how instructions are
chosen: the form without operands, the general form and the wide form of a load all come to the same
load, and an integer is the same integer whether it stands in the opcode, behind it or in the pool.

What can be read goes on to be read the same while constants are added to the pool.
-/

import JavaClass.Proofs.Code.OperandStack
import JavaClass.Proofs.Pool.Contract

namespace JavaClass

/-! ### Kinds of values -/

/-- The kinds of values that instructions tell apart. The smaller integers are handled as `int`. -/
inductive ValueKind
  | int
  | long
  | float
  | double
  | reference
  deriving DecidableEq, Repr

namespace ValueKind

/-- How many local variables or stack slots a value takes. -/
def slots : ValueKind → Nat
  | .long | .double => 2
  | .int | .float | .reference => 1

/-- Where a kind stands among the variants of an instruction. -/
def place : ValueKind → UInt8
  | .int => 0
  | .long => 1
  | .float => 2
  | .double => 3
  | .reference => 4

def all : List ValueKind := [.int, .long, .float, .double, .reference]

theorem mem_all (kind : ValueKind) : kind ∈ all := by
  cases kind <;> decide

end ValueKind

namespace FieldType

/-- The kind of the values of a type. There are none of type `void`. -/
def kind? : FieldType → Option ValueKind
  | .base .void => none
  | .base .long => some .long
  | .base .float => some .float
  | .base .double => some .double
  | .base _ => some .int
  | .object _ | .array _ => some .reference

theorem exists_kind {type : FieldType} (proper : type ≠ .void) :
    ∃ kind, type.kind? = some kind := by
  cases type with
  | base base =>
    cases base with
    | void => exact absurd rfl proper
    | _ => exact ⟨_, rfl⟩
  | object | array => exact ⟨_, rfl⟩

theorem slots_of_kind? {type : FieldType} {kind : ValueKind} (found : type.kind? = some kind) :
    type.slots = kind.slots := by
  cases type with
  | base base => cases base <;> cases found <;> rfl
  | object | array =>
    cases found
    rfl

theorem variant_of_kind? {type : FieldType} {kind : ValueKind} (found : type.kind? = some kind) :
    Builder.variant type = kind.place := by
  cases type with
  | base base => cases base <;> cases found <;> rfl
  | object | array =>
    cases found
    rfl

end FieldType

/-! ### Actions -/

/-- What an instruction does. -/
inductive Action
  /-- Pushes a local variable, or stores into it. -/
  | useLocal (direction : Direction) (kind : ValueKind) (slot : Nat)
  | pushInteger (value : Int)
  | pushString (text : String)
  | pushNull
  /-- A new instance of a class, not yet initialised. -/
  | create (className : String)
  | duplicate
  /-- Drops so many slots. -/
  | drop (slots : Nat)
  | useField (use : FieldUse) (field : MemberReference)
  /-- Calls a method. A call on an interface comes with a count of the slots that it takes. -/
  | invoke (invocation : Invocation) (method : MemberReference) (count : Option Nat)
  /-- Returns a value of a kind, or nothing. -/
  | returnValue (kind : Option ValueKind)
  deriving DecidableEq, Repr

/-- How what follows an opcode is to be understood. -/
inductive Shape
  /-- Nothing follows. -/
  | complete (action : Action)
  | onLocal (direction : Direction) (kind : ValueKind)
  | byte
  | word
  /-- A constant whose index takes one byte. -/
  | shortConstant
  | constant
  | newInstance
  | onField (use : FieldUse)
  | call (invocation : Invocation)
  /-- Another instruction follows, on a local variable whose number takes two bytes. -/
  | wide
  deriving DecidableEq, Repr

/-! ### The instructions that bodies are built of -/

/-- An instruction as the instruction set has it: its opcode, its name and what follows. -/
structure Encoding where
  opcode : UInt8
  mnemonic : String
  shape : Shape
  deriving DecidableEq, Repr

namespace Encoding

/-- The encodings of an instruction on local variables: the general form, and the forms for the
first four variables, whose opcodes follow one another. -/
def onLocal (direction : Direction) (kind : ValueKind) (general : UInt8 × String)
    (first : UInt8) (names : List String) : List Encoding :=
  ⟨general.1, general.2, .onLocal direction kind⟩ :: names.zipIdx.map fun (name, slot) =>
    ⟨first + UInt8.ofNat slot, name, .complete (.useLocal direction kind slot)⟩

def table : List Encoding :=
  [⟨1, "aconst_null", .complete .pushNull⟩, ⟨2, "iconst_m1", .complete (.pushInteger (-1))⟩,
    ⟨3, "iconst_0", .complete (.pushInteger 0)⟩, ⟨4, "iconst_1", .complete (.pushInteger 1)⟩,
    ⟨5, "iconst_2", .complete (.pushInteger 2)⟩, ⟨6, "iconst_3", .complete (.pushInteger 3)⟩,
    ⟨7, "iconst_4", .complete (.pushInteger 4)⟩, ⟨8, "iconst_5", .complete (.pushInteger 5)⟩,
    ⟨16, "bipush", .byte⟩, ⟨17, "sipush", .word⟩, ⟨18, "ldc", .shortConstant⟩,
    ⟨19, "ldc_w", .constant⟩, ⟨87, "pop", .complete (.drop 1)⟩, ⟨88, "pop2", .complete (.drop 2)⟩,
    ⟨89, "dup", .complete .duplicate⟩, ⟨172, "ireturn", .complete (.returnValue (some .int))⟩,
    ⟨173, "lreturn", .complete (.returnValue (some .long))⟩,
    ⟨174, "freturn", .complete (.returnValue (some .float))⟩,
    ⟨175, "dreturn", .complete (.returnValue (some .double))⟩,
    ⟨176, "areturn", .complete (.returnValue (some .reference))⟩,
    ⟨177, "return", .complete (.returnValue none)⟩, ⟨178, "getstatic", .onField ⟨.read, true⟩⟩,
    ⟨179, "putstatic", .onField ⟨.write, true⟩⟩, ⟨180, "getfield", .onField ⟨.read, false⟩⟩,
    ⟨181, "putfield", .onField ⟨.write, false⟩⟩, ⟨182, "invokevirtual", .call .virtual⟩,
    ⟨183, "invokespecial", .call .special⟩, ⟨184, "invokestatic", .call .static⟩,
    ⟨185, "invokeinterface", .call .interface⟩, ⟨187, "new", .newInstance⟩, ⟨196, "wide", .wide⟩] ++
  onLocal .read .int (21, "iload") 26 ["iload_0", "iload_1", "iload_2", "iload_3"] ++
  onLocal .read .long (22, "lload") 30 ["lload_0", "lload_1", "lload_2", "lload_3"] ++
  onLocal .read .float (23, "fload") 34 ["fload_0", "fload_1", "fload_2", "fload_3"] ++
  onLocal .read .double (24, "dload") 38 ["dload_0", "dload_1", "dload_2", "dload_3"] ++
  onLocal .read .reference (25, "aload") 42 ["aload_0", "aload_1", "aload_2", "aload_3"] ++
  onLocal .write .int (54, "istore") 59 ["istore_0", "istore_1", "istore_2", "istore_3"] ++
  onLocal .write .long (55, "lstore") 63 ["lstore_0", "lstore_1", "lstore_2", "lstore_3"] ++
  onLocal .write .float (56, "fstore") 67 ["fstore_0", "fstore_1", "fstore_2", "fstore_3"] ++
  onLocal .write .double (57, "dstore") 71 ["dstore_0", "dstore_1", "dstore_2", "dstore_3"] ++
  onLocal .write .reference (58, "astore") 75 ["astore_0", "astore_1", "astore_2", "astore_3"]

/-- Listings name the instructions the same. -/
example : ∀ encoding ∈ table, Opcode.mnemonic? encoding.opcode = some encoding.mnemonic := by
  decide +kernel

end Encoding

/-- The shape of the instruction with an opcode. -/
def Shape.ofOpcode? (opcode : UInt8) : Option Shape :=
  (Encoding.table.find? fun encoding => encoding.opcode.toNat.beq opcode.toNat).map Encoding.shape

/-! ### Reading -/

namespace Action

variable (pool : Pool)

/-- What pushing a constant comes to. -/
def ofConstant? (index : UInt16) : Option Action :=
  match pool.get index with
  | .ok (.integer bits) => some (.pushInteger bits.toInt32.toInt)
  | .ok (.string text) => (pool.text text).toOption.map .pushString
  | _ => none

/-- The member that a constant of the given kind names. -/
def member? (kind : ConstantKind) (index : UInt16) : Option MemberReference :=
  match pool.get index with
  | .ok constant =>
    if constant.kind = kind then (pool.memberReference index).toOption else none
  | .error _ => none

/-- What follows the index in a call: the count of a call on an interface and a byte of zero, and
nothing otherwise. -/
def count? : Invocation → Bytes → Option (Option Nat)
  | .interface, [count, last] => if last = 0 then some (some count.toNat) else none
  | .interface, _ => none
  | _, [] => some none
  | _, _ => none

end Action

/-- The kind of constant by which a method is named that is called this way. -/
def Invocation.constantKind : Invocation → ConstantKind
  | .interface => .interfaceMethod
  | .virtual | .special | .static => .method

/-- What an instruction does to the local variable in a slot, if it is on one. -/
def Shape.onSlot? (slot : Nat) : Shape → Option Action
  | .onLocal direction kind => some (.useLocal direction kind slot)
  | _ => none

/-- What an instruction of a shape does that has the given bytes behind its opcode. -/
def Shape.read? (pool : Pool) : Shape → Bytes → Option Action
  | .complete action, [] => some action
  | .onLocal direction kind, [slot] => some (.useLocal direction kind slot.toNat)
  | .byte, [value] => some (.pushInteger value.toInt8.toInt)
  | .word, [high, low] => some (.pushInteger (BigEndian.ofBytes16 high low).toInt16.toInt)
  | .shortConstant, [index] => Action.ofConstant? pool index.toUInt16
  | .constant, [high, low] => Action.ofConstant? pool (BigEndian.ofBytes16 high low)
  | .newInstance, [high, low] =>
    (pool.className (BigEndian.ofBytes16 high low)).toOption.map .create
  | .onField use, [high, low] =>
    (Action.member? pool .field (BigEndian.ofBytes16 high low)).map (.useField use)
  | .call invocation, high :: low :: rest =>
    (Action.member? pool invocation.constantKind (BigEndian.ofBytes16 high low)).bind fun method =>
      (Action.count? invocation rest).map (.invoke invocation method)
  | .wide, [opcode, high, low] =>
    (Shape.ofOpcode? opcode).bind (Shape.onSlot? (BigEndian.ofBytes16 high low).toNat)
  | _, _ => none

/-- What an instruction does that has the given bytes behind its opcode. -/
def Action.read? (pool : Pool) (opcode : UInt8) (operands : Bytes) : Option Action :=
  (Shape.ofOpcode? opcode).bind fun shape => shape.read? pool operands

/-- What an instruction with the given operands does. A branch or a switch is not told apart. -/
def Action.ofOperands? (pool : Pool) (opcode : UInt8) : Operands → Option Action
  | .plain operands => Action.read? pool opcode operands
  | _ => none

/-- What an instruction does, by the constants of a pool. -/
def Instruction.action? (pool : Pool) (instruction : Instruction) : Option Action :=
  Action.ofOperands? pool instruction.opcode instruction.operands

/-- Whether the code of a body decodes to instructions that do this, one after the other, by the
constants of a pool. -/
def Body.Does (pool : Pool) (body : Body) (actions : List Action) : Prop :=
  ∃ instructions, body.instructions = .ok instructions ∧
    instructions.map (Instruction.action? pool) = actions.map some

namespace Action

theorem read?_of_shape {pool : Pool} {opcode : UInt8} {shape : Shape} {operands : Bytes}
    (shaped : Shape.ofOpcode? opcode = some shape) :
    read? pool opcode operands = shape.read? pool operands := by
  rw [read?, shaped, Option.bind_some]

end Action

/-! ### Shapes fit their opcodes -/

namespace Shape

/-- How many bytes follow, unless a whole instruction does. -/
def count? : Shape → Option Nat
  | .complete _ => some 0
  | .onLocal .. | .byte | .shortConstant => some 1
  | .word | .constant | .newInstance | .onField _ => some 2
  | .call .interface => some 4
  | .call _ => some 2
  | .wide => none

/-- Whether a local variable is named behind the opcode. -/
def namesLocal : Shape → Bool
  | .onLocal .. => true
  | _ => false

/-- Whether an opcode is decoded the way its shape is read. -/
def Fits (opcode : UInt8) (shape : Shape) : Prop :=
  Opcode.isShortBranch opcode = false ∧ Opcode.isWideBranch opcode = false ∧
    opcode ≠ Opcode.tableswitch ∧ opcode ≠ Opcode.lookupswitch ∧
    (opcode = Opcode.wide ↔ shape = .wide) ∧
    (shape ≠ .wide → Opcode.operandLength? opcode = shape.count?) ∧
    (shape.namesLocal = true → Opcode.isWidenable opcode = true ∧ opcode ≠ Opcode.iinc)

instance (opcode : UInt8) (shape : Shape) : Decidable (shape.Fits opcode) :=
  inferInstanceAs (Decidable (_ ∧ _))

theorem fits_of_mem_table :
    ∀ encoding ∈ Encoding.table, encoding.shape.Fits encoding.opcode := by
  decide +kernel

theorem fits_of_ofOpcode? {opcode : UInt8} {shape : Shape}
    (shaped : ofOpcode? opcode = some shape) : shape.Fits opcode := by
  obtain ⟨encoding, found, rfl⟩ := Option.map_eq_some_iff.mp shaped
  have same := List.find?_some found
  obtain rfl := UInt8.toNat_inj.mp (Nat.eq_of_beq_eq_true same)
  exact fits_of_mem_table encoding (List.mem_of_find?_eq_some found)

/-- What can be read of a shape has as many bytes as go with the shape. -/
theorem count?_of_read? {pool : Pool} {shape : Shape} {operands : Bytes} {action : Action}
    (known : shape.read? pool operands = some action) (narrow : shape ≠ .wide) :
    shape.count? = some operands.length := by
  unfold read? at known
  split at known
  case h_9 invocation high low rest =>
    obtain ⟨method, -, counted⟩ := Option.bind_eq_some_iff.mp known
    obtain ⟨count, found, -⟩ := Option.map_eq_some_iff.mp counted
    unfold Action.count? at found
    split at found
    · rfl
    · cases found
    · cases invocation <;> first | rfl | contradiction
    · cases found
  case h_10 => exact absurd rfl narrow
  case h_11 => cases known
  all_goals rfl

/-- What can be read of a wide form is an instruction on a local variable. -/
theorem exists_of_read?_wide {pool : Pool} {operands : Bytes} {action : Action}
    (known : Shape.wide.read? pool operands = some action) :
    ∃ opcode high low direction kind, operands = [opcode, high, low] ∧
      ofOpcode? opcode = some (.onLocal direction kind) ∧
        action = .useLocal direction kind (BigEndian.ofBytes16 high low).toNat := by
  generalize widening : Shape.wide = shape at known
  unfold read? at known
  split at known
  case h_10 opcode high low =>
    obtain ⟨widened, shaped, known⟩ := Option.bind_eq_some_iff.mp known
    cases widened with
    | onLocal direction kind =>
      exact ⟨opcode, high, low, direction, kind, rfl, shaped, (Option.some.inj known).symm⟩
    | _ => cases known
  case h_11 => cases known
  all_goals cases widening

end Shape

/-- What can be read as an action is decoded as it stands. -/
theorem Action.isPlain_of_read? {pool : Pool} {opcode : UInt8} {operands : Bytes} {action : Action}
    (known : read? pool opcode operands = some action) : IsPlain opcode operands := by
  obtain ⟨shape, shaped, known⟩ := Option.bind_eq_some_iff.mp known
  obtain ⟨short, far, table, lookup, widens, counted, -⟩ := Shape.fits_of_ofOpcode? shaped
  refine ⟨short, far, table, lookup, ?_⟩
  by_cases wide : shape = .wide
  · subst wide
    obtain ⟨widened, high, low, direction, kind, rfl, shapedBehind, -⟩ :=
      Shape.exists_of_read?_wide known
    obtain ⟨-, -, -, -, -, -, names⟩ := Shape.fits_of_ofOpcode? shapedBehind
    obtain ⟨widenable, other⟩ := names rfl
    rw [if_pos (widens.mpr rfl)]
    refine ⟨widened, [high, low], rfl, widenable, ?_⟩
    rw [if_neg other]
    rfl
  · rw [if_neg (wide ∘ widens.mp), counted wide]
    exact Shape.count?_of_read? known wide

/-! ### Growing pools -/

section growing

variable {pool after : Pool} (grown : pool.Extends after) {index : UInt16} {action : Action}

include grown

namespace Action

theorem ofConstant?_extends (known : ofConstant? pool index = some action) :
    ofConstant? after index = some action := by
  unfold ofConstant? at known ⊢
  split at known
  · rename_i bits got
    rw [grown.get got]
    exact known
  · rename_i text got
    obtain ⟨value, found, rfl⟩ := Option.map_eq_some_iff.mp known
    rw [grown.get got]
    refine Option.map_eq_some_iff.mpr ⟨value, ?_, rfl⟩
    exact Outcome.toOption_eq_some_iff.mpr (grown.text (Outcome.toOption_eq_some_iff.mp found))
  · cases known

theorem member?_extends {kind : ConstantKind} {reference : MemberReference}
    (known : member? pool kind index = some reference) :
    member? after kind index = some reference := by
  unfold member? at known ⊢
  split at known
  · rename_i constant got
    rw [grown.get got]
    split at known
    · rename_i same
      refine (if_pos same).trans (Outcome.toOption_eq_some_iff.mpr ?_)
      exact grown.memberReference (Outcome.toOption_eq_some_iff.mp known)
    · cases known
  · cases known

end Action

theorem Shape.read?_extends {shape : Shape} {operands : Bytes}
    (known : shape.read? pool operands = some action) :
    shape.read? after operands = some action := by
  unfold read? at known ⊢
  split at known
  case h_5 | h_6 => exact Action.ofConstant?_extends grown known
  case h_7 high low =>
    obtain ⟨name, found, rfl⟩ := Option.map_eq_some_iff.mp known
    refine Option.map_eq_some_iff.mpr ⟨name, Outcome.toOption_eq_some_iff.mpr ?_, rfl⟩
    exact grown.className (Outcome.toOption_eq_some_iff.mp found)
  case h_8 use high low =>
    obtain ⟨field, found, rfl⟩ := Option.map_eq_some_iff.mp known
    exact Option.map_eq_some_iff.mpr ⟨field, Action.member?_extends grown found, rfl⟩
  case h_9 invocation high low rest =>
    obtain ⟨method, found, counted⟩ := Option.bind_eq_some_iff.mp known
    exact Option.bind_eq_some_iff.mpr ⟨method, Action.member?_extends grown found, counted⟩
  case h_11 => cases known
  all_goals exact known

/-- What an instruction does stays what it does when constants are added. -/
theorem Action.read?_extends {opcode : UInt8} {operands : Bytes}
    (known : read? pool opcode operands = some action) :
    read? after opcode operands = some action := by
  obtain ⟨shape, shaped, known⟩ := Option.bind_eq_some_iff.mp known
  exact Option.bind_eq_some_iff.mpr ⟨shape, shaped, Shape.read?_extends grown known⟩

end growing

end JavaClass
