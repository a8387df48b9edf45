/-
The constant pool, constant by constant.
-/

import JavaClass.Listing.Line
import JavaClass.Pool.Description

namespace JavaClass.Pool

/-- The lines of a pool. -/
def lines (pool : Pool) (indent : Nat) : List String :=
  Listing.line indent s!"Constant Pool ({pool.size} slots):" ::
    pool.constants.map fun (index, constant) =>
      Listing.line (indent + 2)
        (s!"#{index.toNat} = " ++ constant.kind.label ++ " " ++ pool.describe index)

end JavaClass.Pool
