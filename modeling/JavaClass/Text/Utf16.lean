/-
Text as a sequence of sixteen-bit units. A character of the basic plane is one unit; any other
is a pair, a high surrogate and then a low one. Going from text to units never fails. Going back
does when a surrogate stands alone: the strict reading refuses such a sequence, the lenient one
puts the replacement character where the lone surrogate stood.
-/

namespace JavaClass.Text.Utf16

/-- The units of one character. -/
def unitsOfChar (character : Char) : List UInt16 :=
  let code := character.toNat
  if code < 0x10000 then [UInt16.ofNat code]
  else
    [UInt16.ofNat (0xD800 + (code - 0x10000) / 0x400),
      UInt16.ofNat (0xDC00 + (code - 0x10000) % 0x400)]

/-- The units of a text. -/
def units (text : String) : List UInt16 := text.toList.flatMap unitsOfChar

/-- The first half of a pair. -/
def isHighSurrogate (unit : UInt16) : Bool := 0xD800 ≤ unit && unit < 0xDC00

/-- The second half of a pair. -/
def isLowSurrogate (unit : UInt16) : Bool := 0xDC00 ≤ unit && unit < 0xE000

/-- The character a pair stands for. -/
def ofPair (high low : UInt16) : Char :=
  Char.ofNat (0x10000 + (high.toNat - 0xD800) * 0x400 + (low.toNat - 0xDC00))

/-- The character that stands for what could not be read. -/
def replacement : Char := Char.ofNat 0xFFFD

/-- The characters the units stand for, each lone surrogate as `none`. -/
def characters (units : List UInt16) : List (Option Char) :=
  go units []
where
  /-- Reads on, with the characters read so far in reverse order. -/
  go : List UInt16 → List (Option Char) → List (Option Char)
    | [], seen => seen.reverse
    | [unit], seen => (single unit :: seen).reverse
    | high :: low :: rest, seen =>
      if isHighSurrogate high && isLowSurrogate low then
        go rest (some (ofPair high low) :: seen)
      else
        go (low :: rest) (single high :: seen)
  /-- A unit outside a pair. -/
  single (unit : UInt16) : Option Char :=
    if isHighSurrogate unit || isLowSurrogate unit then none else some (Char.ofNat unit.toNat)

/-- The text of well-formed units; nothing if a surrogate stands alone. -/
def decode? (units : List UInt16) : Option String :=
  let read := characters units
  if read.all Option.isSome then some (String.ofList (read.filterMap id)) else none

/-- The text of any units, with the replacement character for each lone surrogate. -/
def decodeLossy (units : List UInt16) : String :=
  String.ofList ((characters units).map fun character => character.getD replacement)

end JavaClass.Text.Utf16
