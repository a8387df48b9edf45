/-
Constants as a reader wants to see them: every reference replaced by what it leads to, down to
texts and numbers. An index that leads nowhere is shown as such, so a description always exists.

In a pool whose references are sound, only method handles can lead to constants of any kind, so
a chain of references is never longer than the pool unless it comes back to where it was. The
number of slots therefore bounds how deep a description has to go.
-/

import JavaClass.Pool.Resolution
import JavaClass.Text.Decimal

namespace JavaClass

/-- What is shown for a constant if `follow` says what is shown for the constants it refers to. -/
def Constant.describeBy (follow : UInt16 → String) : Constant → String
  | .utf8 bytes => Text.ModifiedUtf8.decodeLossy bytes
  | .integer bits => toString bits.toInt32.toInt
  | .float bits => Text.Decimal.single.render bits.toNat ++ "f"
  | .long bits => toString bits.toInt64.toInt ++ "L"
  | .double bits => Text.Decimal.double.render bits.toNat ++ "d"
  | .string text => "\"" ++ follow text ++ "\""
  | .className name | .methodType name | .module name | .package name => follow name
  | .field owner pair | .method owner pair | .interfaceMethod owner pair =>
    follow owner ++ "." ++ follow pair
  | .nameAndType name descriptor => follow name ++ ":" ++ follow descriptor
  | .methodHandle use reference => s!"kind {use.toNat} " ++ follow reference
  | .dynamic bootstrap pair | .invokeDynamic bootstrap pair =>
    s!"bootstrap {bootstrap.toNat} " ++ follow pair
  | .reserved => ""

namespace Pool

/-- What is shown at an index if `follow` says what is shown at the indices that the constant there
refers to. -/
def describeBy (pool : Pool) (follow : UInt16 → String) (index : UInt16) : String :=
  match pool.get index with
  | .error _ => s!"<invalid #{index.toNat}>"
  | .ok constant => constant.describeBy follow

/-- A description that follows at most `depth` references one behind the other. -/
def describeWithin (pool : Pool) : Nat → UInt16 → String
  | 0, _ => ""
  | depth + 1, index => pool.describeBy (describeWithin pool depth) index

/-- The constant at an index as listings show it. -/
def describe (pool : Pool) (index : UInt16) : String :=
  describeWithin pool (pool.size + 1) index

end Pool

end JavaClass
