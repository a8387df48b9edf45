/-
Text that is told at a terminal. Names come from files that anyone may have written, and some
characters in them would be commands to the terminal: these are told by their codes. Line ends and
tabs stay as they are.
-/

import JavaClass.Text.Hexadecimal

namespace JavaClass.Text.Terminal

/-- The characters below 128 that a terminal takes for commands: bell, backspace, form feed, escape
and delete. -/
def commands : List Char := ['\x07', '\x08', '\x0c', '\x1b', '\x7f']

/-- Whether a character is one of the controls from 128 on. -/
def isHighControl (character : Char) : Bool :=
  0x80 ≤ character.toNat && character.toNat ≤ 0x9f

/-- A character as it is told. -/
def character (character : Char) : String :=
  if commands.contains character then "\\x" ++ hexadecimal 2 character.toNat
  else if isHighControl character then "\\u\x7b" ++ hexadecimal 1 character.toNat ++ "\x7d"
  else character.toString

/-- A text as it is told. -/
def text (text : String) : String := String.join (text.toList.map character)

end JavaClass.Text.Terminal
