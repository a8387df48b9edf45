/-
Text and bytes between quotes, as reports show values. A quote and a backslash inside are written
behind a backslash, and so are line ends, tabs and zeros, by a letter or digit. What is left and
cannot be seen is written as its code in hexadecimal.
-/

import JavaClass.Bytes
import JavaClass.Text.Hexadecimal
import JavaClass.Text.Visible

namespace JavaClass.Text.Quoted

/-- The short form of a character that has one. -/
def short? : Char → Option String
  | '\x00' => some "\\0"
  | '\t' => some "\\t"
  | '\n' => some "\\n"
  | '\r' => some "\\r"
  | '"' => some "\\\""
  | '\\' => some "\\\\"
  | _ => none

/-- A character inside a quoted text. -/
def character (character : Char) : String :=
  match short? character with
  | some form => form
  | none =>
    if isVisible character then character.toString
    else "\\u\x7b" ++ hexadecimal 1 character.toNat ++ "\x7d"

/-- A text between quotes. -/
def text (text : String) : String := "\"" ++ String.join (text.toList.map character) ++ "\""

/-- A byte inside a quoted byte string. -/
def byte (byte : UInt8) : String :=
  match short? (Char.ofNat byte.toNat) with
  | some form => form
  | none =>
    if 0x20 ≤ byte && byte < 0x7F then (Char.ofNat byte.toNat).toString
    else "\\x" ++ hexadecimal 2 byte.toNat

/-- A byte string between quotes. -/
def bytes (bytes : Bytes) : String := "b\"" ++ String.join (bytes.map byte) ++ "\""

end JavaClass.Text.Quoted
