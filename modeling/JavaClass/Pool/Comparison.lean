/-
Comparing constant pools, slot by slot. Reserved slots count as slots, and references are compared
as the indices they are.
-/

import JavaClass.Comparison.Mismatch
import JavaClass.Comparison.Shown
import JavaClass.Pool.Basic

namespace JavaClass

/-- A constant as a comparison shows it. -/
def Constant.shown : Constant → String
  | .utf8 bytes =>
    let bytes := Shown.list (fun byte : UInt8 => toString byte.toNat) bytes
    Shown.tagged "Utf8" (Shown.record "ConstantUtf8" [("bytes", bytes)])
  | .integer bits => number "Integer" "bytes" bits.toNat
  | .float bits => number "Float" "bits" bits.toNat
  | .long bits => number "Long" "bytes" bits.toNat
  | .double bits => number "Double" "bits" bits.toNat
  | .className name =>
    Shown.tagged "Class" (Shown.record "ConstantClass" [("name", Shown.word name)])
  | .string text =>
    Shown.tagged "String" (Shown.record "ConstantString" [("string", Shown.word text)])
  | .field owner pair => member "Field" owner pair
  | .method owner pair => member "Method" owner pair
  | .interfaceMethod owner pair => member "InterfaceMethod" owner pair
  | .nameAndType name descriptor =>
    Shown.tagged "NameAndType" (Shown.record "ConstantNameAndType"
      [("name", Shown.word name), ("descriptor", Shown.word descriptor)])
  | .methodHandle use reference =>
    Shown.tagged "MethodHandle" (Shown.record "ConstantMethodHandle"
      [("kind", toString use.toNat), ("index", Shown.word reference)])
  | .methodType descriptor =>
    Shown.tagged "MethodType"
      (Shown.record "ConstantMethodType" [("descriptor", Shown.word descriptor)])
  | .dynamic bootstrap pair => dynamic "Dynamic" bootstrap pair
  | .invokeDynamic bootstrap pair => dynamic "InvokeDynamic" bootstrap pair
  | .module name => named "Module" name
  | .package name => named "Package" name
  | .reserved => "Reserved"
where
  /-- A number, by its bits. -/
  number (name label : String) (bits : Nat) : String :=
    Shown.tagged name (Shown.record ("Constant" ++ name) [(label, toString bits)])
  /-- A reference to a member. -/
  member (name : String) (owner pair : UInt16) : String :=
    Shown.tagged name (Shown.record "ConstantMemberRef"
      [("class", Shown.word owner), ("name_and_type", Shown.word pair)])
  /-- A constant or call that is computed. -/
  dynamic (name : String) (bootstrap pair : UInt16) : String :=
    Shown.tagged name (Shown.record "ConstantDynamic"
      [("bootstrap_method", Shown.word bootstrap), ("name_and_type", Shown.word pair)])
  /-- A module or package. -/
  named (name : String) (index : UInt16) : String :=
    Shown.tagged name (Shown.record "ConstantNamed" [("name", Shown.word index)])

/-- Compares two constants. -/
def Constant.compare (left right : Constant) : Comparison :=
  Comparison.values left.kind.label Constant.shown left right

/-- Compares two pools. -/
def Pool.compare (left right : Pool) : Comparison :=
  Comparison.sequences "entries" Constant.compare left.slots.toList right.slots.toList

end JavaClass
