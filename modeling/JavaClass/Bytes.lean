/-
Byte strings and the big-endian words they are made of. Every number of a class file is stored
most significant byte first, so the four writers below are the only places where a number
becomes bytes; the readers that take them apart again are in `JavaClass.Reader`.

A byte string is a list. The format is read strictly from front to back and written strictly
from front to back, so nothing here ever asks for the byte at a position.
-/

namespace JavaClass

/-- A byte string, in file order. -/
abbrev Bytes := List UInt8

/-- A read asked for more bytes than are left. -/
structure OutOfBytes where
  wanted : Nat
  remaining : Nat
  deriving DecidableEq, Repr

/-- What a refused read says about itself. -/
def OutOfBytes.message (shortage : OutOfBytes) : String :=
  s!"out of bytes (wanted {shortage.wanted}, {shortage.remaining} remaining)"

namespace Bytes

/-- Whether at least `count` bytes are there. Only the first `count` of them are looked at, so
the question stays cheap on a long tail. -/
def atLeast : Nat → Bytes → Bool
  | 0, _ => true
  | _ + 1, [] => false
  | count + 1, _ :: rest => atLeast count rest

theorem atLeast_eq (count : Nat) (bytes : Bytes) :
    atLeast count bytes = decide (count ≤ bytes.length) := by
  induction bytes generalizing count with
  | nil => cases count <;> simp [atLeast]
  | cons byte rest inductionHypothesis =>
    cases count with
    | zero => simp [atLeast]
    | succ count => simp [atLeast, inductionHypothesis]

end Bytes

/-! ### Big-endian words -/

namespace BigEndian

/-- Two bytes, the high one first. -/
def word16 (value : UInt16) : Bytes :=
  [UInt8.ofNat (value.toNat / 256), UInt8.ofNat value.toNat]

/-- Four bytes, the highest one first. -/
def word32 (value : UInt32) : Bytes :=
  [UInt8.ofNat (value.toNat / 16777216), UInt8.ofNat (value.toNat / 65536),
    UInt8.ofNat (value.toNat / 256), UInt8.ofNat value.toNat]

/-- Eight bytes: the high half, then the low half. -/
def word64 (value : UInt64) : Bytes :=
  word32 (UInt32.ofNat (value.toNat / 4294967296)) ++ word32 (UInt32.ofNat value.toNat)

/-- The low sixteen bits of an integer, which is the integer itself, in two's complement, if it
lies between `-2 ^ 15` and `2 ^ 15 - 1`. -/
def signed16 (value : Int) : Bytes := word16 (UInt16.ofInt value)

/-- The low thirty-two bits of an integer, in two's complement. -/
def signed32 (value : Int) : Bytes := word32 (UInt32.ofInt value)

/-- The number two bytes stand for. -/
def ofBytes16 (high low : UInt8) : UInt16 :=
  UInt16.ofNat (high.toNat * 256 + low.toNat)

/-- The number four bytes stand for. -/
def ofBytes32 (first second third fourth : UInt8) : UInt32 :=
  UInt32.ofNat
    (((first.toNat * 256 + second.toNat) * 256 + third.toNat) * 256 + fourth.toNat)

/-- The number two halves stand for. -/
def ofHalves (high low : UInt32) : UInt64 :=
  UInt64.ofNat (high.toNat * 4294967296 + low.toNat)

end BigEndian

end JavaClass
