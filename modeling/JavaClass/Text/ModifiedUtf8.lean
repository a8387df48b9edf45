/-
The encoding of text inside a constant pool. Each sixteen-bit unit of the text is written on its
own, in one, two or three bytes, so a character outside the basic plane takes two groups of three
bytes, and the unit zero takes two bytes so that no byte of the result is zero.

The reader takes the bytes apart into groups, which fails at a byte that cannot stand where it
stands, and then reads the groups' units as UTF-16. It does not ask that a unit be written in its
shortest group. The lenient reader replaces what it cannot read: lone surrogates one by one if
the groups were sound, and otherwise whatever the raw bytes have that is not UTF-8.
-/

import JavaClass.Bytes
import JavaClass.Text.Hexadecimal
import JavaClass.Text.Utf16
import JavaClass.Text.Utf8

namespace JavaClass.Text.ModifiedUtf8

/-- Why bytes are no text. -/
inductive DecodeError
  | truncated (position : Nat)
  | badContinuation (byte : UInt8) (position : Nat)
  | badLeading (byte : UInt8) (position : Nat)
  | loneSurrogate
  deriving DecidableEq, Repr

/-- The wording of a reading failure. -/
def DecodeError.message : DecodeError → String
  | .truncated position => s!"truncated sequence at byte {position}"
  | .badContinuation byte position =>
    s!"invalid continuation byte {quotedByte byte} at {position}"
  | .badLeading byte position => s!"invalid leading byte {quotedByte byte} at {position}"
  | .loneSurrogate => "invalid utf-16: lone surrogate found"

/-! ### Writing -/

/-- The group of one unit: the shortest that holds it, except that zero is written in two
bytes. -/
def encodeUnit (unit : UInt16) : Bytes :=
  let code := unit.toNat
  if 0 < code && code < 0x80 then [UInt8.ofNat code]
  else if code < 0x800 then [UInt8.ofNat (0xC0 + code / 64), UInt8.ofNat (0x80 + code % 64)]
  else
    [UInt8.ofNat (0xE0 + code / 4096), UInt8.ofNat (0x80 + code / 64 % 64),
      UInt8.ofNat (0x80 + code % 64)]

/-- The bytes of a text. -/
def encode (text : String) : Bytes := (Utf16.units text).flatMap encodeUnit

/-! ### Reading -/

/-- The six bits of the continuation byte that must come first in `bytes`, which is at
`position`. -/
def continuation (position : Nat) : Bytes → Except DecodeError Nat
  | [] => .error (.truncated position)
  | byte :: _ =>
    if 0x80 ≤ byte && byte < 0xC0 then .ok (byte.toNat - 0x80)
    else .error (.badContinuation byte position)

/-- The units of the groups in `bytes`, the first of which is at `position`, after those already
`seen` in reverse order. -/
def decodeUnitsFrom (position : Nat) (seen : List UInt16) :
    Bytes → Except DecodeError (List UInt16)
  | [] => .ok seen.reverse
  | byte :: rest =>
    if byte == 0 || 0xF0 ≤ byte then .error (.badLeading byte position)
    else if byte < 0x80 then
      decodeUnitsFrom (position + 1) (UInt16.ofNat byte.toNat :: seen) rest
    else if byte < 0xC0 then .error (.badLeading byte position)
    else if byte < 0xE0 then
      match continuation (position + 1) rest, rest with
      | .error error, _ => .error error
      | .ok low, _ :: rest =>
        decodeUnitsFrom (position + 2)
          (UInt16.ofNat ((byte.toNat - 0xC0) * 64 + low) :: seen) rest
      | .ok _, [] => .error (.truncated (position + 1))
    else
      match continuation (position + 1) rest, rest with
      | .error error, _ => .error error
      | .ok middle, _ :: rest =>
        match continuation (position + 2) rest, rest with
        | .error error, _ => .error error
        | .ok low, _ :: rest =>
          decodeUnitsFrom (position + 3)
            (UInt16.ofNat ((byte.toNat - 0xE0) * 4096 + middle * 64 + low) :: seen) rest
        | .ok _, [] => .error (.truncated (position + 2))
      | .ok _, [] => .error (.truncated (position + 1))

/-- The units that the bytes are groups of. -/
def decodeUnits (bytes : Bytes) : Except DecodeError (List UInt16) := decodeUnitsFrom 0 [] bytes

/-- The text of the bytes. -/
def decode (bytes : Bytes) : Except DecodeError String :=
  match decodeUnits bytes with
  | .error error => .error error
  | .ok units =>
    match Utf16.decode? units with
    | some text => .ok text
    | none => .error .loneSurrogate

/-- A text for any bytes, meant to be shown and not to be compared. -/
def decodeLossy (bytes : Bytes) : String :=
  match decodeUnits bytes with
  | .ok units => Utf16.decodeLossy units
  | .error _ => Utf8.decodeLossy bytes

end JavaClass.Text.ModifiedUtf8
