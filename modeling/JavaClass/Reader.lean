/-
Reading a byte string from front to back. A reader takes what it needs off the front and passes
on the rest; if there is not enough it fails and says how much was wanted and how much was there.
Since a reader is a function of the bytes still unread, a failed one has touched nothing.
-/

import JavaClass.Error

namespace JavaClass

/-- What reads an `α` off the front of a byte string. -/
abbrev Reader (α : Type) := StateT Bytes (Except Error) α

namespace Reader

/-- Fails for want of bytes. -/
def short (wanted : Nat) (bytes : Bytes) : Except Error α :=
  .error (.truncated ⟨wanted, bytes.length⟩)

/-! ### Words -/

/-- One byte. -/
def u8 : Reader UInt8
  | byte :: rest => .ok (byte, rest)
  | bytes => short 1 bytes

/-- Two bytes as an unsigned number. -/
def u16 : Reader UInt16
  | high :: low :: rest => .ok (BigEndian.ofBytes16 high low, rest)
  | bytes => short 2 bytes

/-- Four bytes as an unsigned number. -/
def u32 : Reader UInt32
  | first :: second :: third :: fourth :: rest =>
    .ok (BigEndian.ofBytes32 first second third fourth, rest)
  | bytes => short 4 bytes

/-- Eight bytes as an unsigned number. -/
def u64 : Reader UInt64
  | first :: second :: third :: fourth :: fifth :: sixth :: seventh :: eighth :: rest =>
    .ok (BigEndian.ofHalves (BigEndian.ofBytes32 first second third fourth)
      (BigEndian.ofBytes32 fifth sixth seventh eighth), rest)
  | bytes => short 8 bytes

/-- One byte in two's complement. -/
def i8 : Reader Int8 := do return (← u8).toInt8

/-- Two bytes in two's complement. -/
def i16 : Reader Int16 := do return (← u16).toInt16

/-- Four bytes in two's complement. -/
def i32 : Reader Int32 := do return (← u32).toInt32

/-- Eight bytes in two's complement. -/
def i64 : Reader Int64 := do return (← u64).toInt64

/-! ### Stretches of bytes -/

/-- Nothing, provided that `count` bytes are there. -/
def ensure (count : Nat) : Reader Unit := fun bytes =>
  if Bytes.atLeast count bytes then .ok ((), bytes) else short count bytes

/-- The next `count` bytes as they are. -/
def take (count : Nat) : Reader Bytes := fun bytes =>
  if Bytes.atLeast count bytes then .ok (bytes.splitAt count) else short count bytes

/-- All that is left. -/
def remaining : Reader Bytes := fun bytes => .ok (bytes, [])

/-! ### Sequences -/

/-- `count` items in a row. -/
def many (item : Reader α) (count : Nat) : Reader (List α) := go count []
where
  /-- Reads on, with the items read so far in reverse order. -/
  go : Nat → List α → Reader (List α)
    | 0, seen => fun bytes => .ok (seen.reverse, bytes)
    | count + 1, seen => fun bytes =>
      match item bytes with
      | .error error => .error error
      | .ok (next, rest) => go count (next :: seen) rest

/-- A list that is preceded by the number of its items, in two bytes. -/
def counted (item : Reader α) : Reader (List α) := do
  let count ← u16
  many item count.toNat

end Reader

/-- Writes a list and, before it, the number of its items in two bytes. -/
def writeCounted (item : α → Bytes) (items : List α) : Bytes :=
  BigEndian.word16 (UInt16.ofNat items.length) ++ items.flatMap item

end JavaClass
