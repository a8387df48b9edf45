/-
Numbers in hexadecimal, as messages quote them: lower case digits after `0x`, filled up with
zeros to the width of the word they come from.
-/

namespace JavaClass.Text

/-- The hexadecimal digits of a number, at least `width` of them. -/
def hexadecimal (width value : Nat) : String :=
  let digits := Nat.toDigits 16 value
  String.ofList (List.replicate (width - digits.length) '0' ++ digits)

/-- A byte as messages quote it. -/
def quotedByte (byte : UInt8) : String := "0x" ++ hexadecimal 2 byte.toNat

end JavaClass.Text
