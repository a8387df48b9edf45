/-
Reading bytes as UTF-8 when they may be anything. Where a character cannot be completed, the
longest part of it that could have begun one is replaced, as a whole, by a single replacement
character, and reading goes on with the byte that did not fit. So a stray byte costs one
replacement, and a truncated character costs one, however many of its bytes were there.
-/

namespace JavaClass.Text.Utf8

/-- A character that has begun: how many more bytes it needs, what the next of them may be, and
the bits collected so far. Only the first continuation byte is ever narrowed, to keep out
overlong forms, surrogates and codes past the last plane. -/
structure Pending where
  missing : Nat
  least : UInt8
  greatest : UInt8
  bits : Nat

/-- What a byte begins when no character is pending. -/
inductive Beginning
  | whole (character : Char)
  | part (pending : Pending)
  | invalid

/-- Reads a first byte. -/
def Beginning.ofByte (byte : UInt8) : Beginning :=
  if byte < 0x80 then .whole (Char.ofNat byte.toNat)
  else if byte < 0xC2 then .invalid
  else if byte < 0xE0 then .part ⟨1, 0x80, 0xBF, byte.toNat - 0xC0⟩
  else if byte < 0xF0 then
    .part ⟨2, if byte == 0xE0 then 0xA0 else 0x80, if byte == 0xED then 0x9F else 0xBF,
      byte.toNat - 0xE0⟩
  else if byte < 0xF5 then
    .part ⟨3, if byte == 0xF0 then 0x90 else 0x80, if byte == 0xF4 then 0x8F else 0xBF,
      byte.toNat - 0xF0⟩
  else .invalid

/-- The reader between two bytes: what it has read, in reverse order, and what is pending. -/
structure State where
  seen : List Char
  pending : Option Pending

/-- The character that stands for what could not be read. -/
def replacement : Char := Char.ofNat 0xFFFD

/-- Takes a byte as the first of a character. -/
def State.begin (seen : List Char) (byte : UInt8) : State :=
  match Beginning.ofByte byte with
  | .whole character => ⟨character :: seen, none⟩
  | .part pending => ⟨seen, some pending⟩
  | .invalid => ⟨replacement :: seen, none⟩

/-- Takes the next byte. -/
def State.step (state : State) (byte : UInt8) : State :=
  match state.pending with
  | none => .begin state.seen byte
  | some pending =>
    if pending.least ≤ byte && byte ≤ pending.greatest then
      let bits := pending.bits * 64 + (byte.toNat - 0x80)
      if pending.missing ≤ 1 then ⟨Char.ofNat bits :: state.seen, none⟩
      else ⟨state.seen, some ⟨pending.missing - 1, 0x80, 0xBF, bits⟩⟩
    else .begin (replacement :: state.seen) byte

/-- What was read once the bytes have ended. -/
def State.finish (state : State) : List Char :=
  match state.pending with
  | none => state.seen.reverse
  | some _ => (replacement :: state.seen).reverse

/-- The text of any bytes, with the replacement character for what is not UTF-8. -/
def decodeLossy (bytes : List UInt8) : String :=
  String.ofList (bytes.foldl State.step ⟨[], none⟩).finish

end JavaClass.Text.Utf8
