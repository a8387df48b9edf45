/-
The constant pool: slots that are only ever added at the end, so that an index once handed out
stays good. Beside the slots a pool keeps, for every constant in it, the first slot that holds
it, under the bytes the constant is written as. Interning asks there first and adds a slot only
if the constant is new, whereas a pool that was read keeps its duplicates.

Operations that may fail half way, with some slots already added, are `Interning` actions: a
failure leaves the pool as it then is, and a caller who wants the old one back rolls back to a
snapshot.
-/

import Std.Data.ExtTreeMap
import JavaClass.Pool.Constant

namespace JavaClass

/-- A pool of constants. -/
structure Pool where
  slots : Array Constant
  firstSlots : Std.ExtTreeMap Bytes UInt16

namespace Pool

/-- More slots than this cannot be counted in a file. -/
def mostSlots : Nat := 65535

/-- The longest text that fits into one constant. -/
def longestText : Nat := 65535

/-- The pool without constants: slot zero is there, and reserved. -/
def empty : Pool := ⟨#[.reserved], ∅⟩

instance : Inhabited Pool := ⟨empty⟩

/-- The number of slots, slot zero included. -/
def size (pool : Pool) : Nat := pool.slots.size

/-- Whether the pool holds no constant. -/
def isEmpty (pool : Pool) : Bool := pool.size ≤ 1

/-- The constants with their indices. -/
def constants (pool : Pool) : List (UInt16 × Constant) :=
  (pool.slots.toList.zipIdx.filter fun slot => slot.1 != .reserved).map fun slot =>
    (UInt16.ofNat slot.2, slot.1)

/-- The constant at an index. -/
def get (pool : Pool) (index : UInt16) : Except Error Constant :=
  match pool.slots[index.toNat]? with
  | none | some .reserved => .error (.indexOutOfRange index pool.size)
  | some constant => .ok constant

/-- The first index at which the pool holds a constant. -/
def find? (pool : Pool) (constant : Constant) : Option UInt16 :=
  pool.firstSlots[constant.write]?

/-! ### Adding constants -/

/-- Why a constant cannot be added. -/
def refusal? (pool : Pool) : Constant → Option Error
  | .reserved => some (.malformed .reservedConstant)
  | constant@(.utf8 bytes) =>
    if longestText < bytes.length then some (.constantTooLong bytes.length)
    else if mostSlots < pool.size + constant.width then some .poolOverflow
    else none
  | constant => if mostSlots < pool.size + constant.width then some .poolOverflow else none

/-- The pool with a constant added at the end, and a reserved slot behind it if it takes two. -/
def add (pool : Pool) (constant : Constant) : Pool :=
  let ⟨slots, firstSlots⟩ := pool
  let index := UInt16.ofNat slots.size
  let slots := slots.push constant
  ⟨if constant.width = 2 then slots.push .reserved else slots,
    firstSlots.insertIfNew constant.write index⟩

end Pool

/-- What adds constants to a pool to produce an `α`. The pool is handed on whether or not it
succeeds. -/
abbrev Interning (α : Type) := ExceptT Error (StateM Pool) α

namespace Pool

/-- Adds a constant without asking whether it is there already. The value is its index. -/
def push (constant : Constant) : Interning UInt16 := fun pool =>
  match pool.refusal? constant with
  | some error => (.error error, pool)
  | none =>
    let index := UInt16.ofNat pool.size
    (.ok index, pool.add constant)

/-- The index of a constant, which is added if the pool does not hold it. -/
def intern (constant : Constant) : Interning UInt16 := fun pool =>
  match pool.find? constant with
  | some index => (.ok index, pool)
  | none => push constant pool

/-- A text. -/
def internText (text : String) : Interning UInt16 :=
  intern (.utf8 (Text.ModifiedUtf8.encode text))

/-- A class, by its name. -/
def internClass (name : String) : Interning UInt16 := do
  let name ← internText name
  intern (.className name)

/-- A string constant. -/
def internString (text : String) : Interning UInt16 := do
  let text ← internText text
  intern (.string text)

/-- A name and a descriptor together. -/
def internNameAndType (name descriptor : String) : Interning UInt16 := do
  let name ← internText name
  let descriptor ← internText descriptor
  intern (.nameAndType name descriptor)

/-- A reference to a member, of the sort that `make` makes of the owner and the member. -/
def internMember (make : UInt16 → UInt16 → Constant) (owner name descriptor : String) :
    Interning UInt16 := do
  let owner ← internClass owner
  let nameAndType ← internNameAndType name descriptor
  intern (make owner nameAndType)

/-- A field. -/
def internField : String → String → String → Interning UInt16 := internMember .field

/-- A method of a class. -/
def internMethod : String → String → String → Interning UInt16 := internMember .method

/-- A method of an interface. -/
def internInterfaceMethod : String → String → String → Interning UInt16 :=
  internMember .interfaceMethod

/-- An integer. -/
def internInteger (value : Int32) : Interning UInt16 := intern (.integer value.toUInt32)

/-- As many consecutive integers as `count` says, from `first` on. The value is the index of the
last, or `found` if there are none. -/
def internIntegers : Nat → Int → Option UInt16 → Interning (Option UInt16)
  | 0, _, found => return found
  | count + 1, first, _ => do
    let index ← internInteger (Int32.ofInt first)
    internIntegers count (first + 1) (some index)

/-! ### Going back -/

/-- A size to which a pool can be taken back. -/
structure Snapshot where
  size : Nat

/-- The state of a pool, to be taken back to. -/
def snapshot (pool : Pool) : Snapshot := ⟨pool.size⟩

/-- The pool without the slots that were added since the snapshot. -/
def rollback (pool : Pool) (snapshot : Snapshot) : Pool :=
  if pool.size ≤ snapshot.size then pool
  else
    ⟨pool.slots.take snapshot.size,
      pool.firstSlots.filter fun _ index => index.toNat < snapshot.size⟩

end Pool

end JavaClass
