/-
Uses of fields. There are four instructions for them: a field is read or written, and it belongs
to an instance or to its class.
-/

import JavaClass.Code.Opcode

namespace JavaClass

/-- Which way a value goes. -/
inductive Direction
  | read
  | write
  deriving DecidableEq, Repr

/-- A way of using a field. -/
structure FieldUse where
  direction : Direction
  isStatic : Bool
  deriving DecidableEq, Repr

namespace FieldUse

/-- The instruction that uses a field this way. -/
def opcode : FieldUse → UInt8
  | ⟨.read, false⟩ => Opcode.getfield
  | ⟨.read, true⟩ => Opcode.getstatic
  | ⟨.write, false⟩ => Opcode.putfield
  | ⟨.write, true⟩ => Opcode.putstatic

/-- The way in which an instruction uses a field, if it does. -/
def ofOpcode? (opcode : UInt8) : Option FieldUse :=
  [⟨.read, false⟩, ⟨.read, true⟩, ⟨.write, false⟩, ⟨.write, true⟩].find? fun use =>
    FieldUse.opcode use == opcode

theorem ofOpcode?_opcode (use : FieldUse) : ofOpcode? use.opcode = some use := by
  obtain ⟨direction, isStatic⟩ := use
  cases direction <;> cases isStatic <;> rfl

end FieldUse

end JavaClass
