/-
The kinds of constants a pool can hold, with the byte that announces each in a file and the
label it has in listings and messages. `reserved` is no constant of a file: it marks the slots
that hold none.
-/

namespace JavaClass

/-- What sort of thing a slot of the constant pool holds. -/
inductive ConstantKind
  | utf8
  | integer
  | float
  | long
  | double
  | className
  | string
  | field
  | method
  | interfaceMethod
  | nameAndType
  | methodHandle
  | methodType
  | dynamic
  | invokeDynamic
  | module
  | package
  | reserved
  deriving DecidableEq, Repr

namespace ConstantKind

/-- The byte that announces a constant of this kind. -/
def tag? : ConstantKind → Option UInt8
  | .utf8 => some 1
  | .integer => some 3
  | .float => some 4
  | .long => some 5
  | .double => some 6
  | .className => some 7
  | .string => some 8
  | .field => some 9
  | .method => some 10
  | .interfaceMethod => some 11
  | .nameAndType => some 12
  | .methodHandle => some 15
  | .methodType => some 16
  | .dynamic => some 17
  | .invokeDynamic => some 18
  | .module => some 19
  | .package => some 20
  | .reserved => none

/-- The kind a byte announces. -/
def ofTag? (tag : UInt8) : Option ConstantKind :=
  match tag.toNat with
  | 1 => some .utf8
  | 3 => some .integer
  | 4 => some .float
  | 5 => some .long
  | 6 => some .double
  | 7 => some .className
  | 8 => some .string
  | 9 => some .field
  | 10 => some .method
  | 11 => some .interfaceMethod
  | 12 => some .nameAndType
  | 15 => some .methodHandle
  | 16 => some .methodType
  | 17 => some .dynamic
  | 18 => some .invokeDynamic
  | 19 => some .module
  | 20 => some .package
  | _ => none

theorem ofTag?_of_tag? (kind : ConstantKind) (tag : UInt8) (tagged : kind.tag? = some tag) :
    ofTag? tag = some kind := by
  cases kind <;> simp only [tag?, Option.some.injEq, reduceCtorEq] at tagged <;>
    subst tagged <;> rfl

/-- How listings and messages call the kind. -/
def label : ConstantKind → String
  | .utf8 => "Utf8"
  | .integer => "Integer"
  | .float => "Float"
  | .long => "Long"
  | .double => "Double"
  | .className => "Class"
  | .string => "String"
  | .field => "Fieldref"
  | .method => "Methodref"
  | .interfaceMethod => "InterfaceMethodref"
  | .nameAndType => "NameAndType"
  | .methodHandle => "MethodHandle"
  | .methodType => "MethodType"
  | .dynamic => "Dynamic"
  | .invokeDynamic => "InvokeDynamic"
  | .module => "Module"
  | .package => "Package"
  | .reserved => "Reserved"

end ConstantKind

/-- What a use of a constant needs it to be. -/
inductive ExpectedConstant
  | only (kind : ConstantKind)
  | member
  deriving DecidableEq, Repr

/-- How messages call what was needed. -/
def ExpectedConstant.label : ExpectedConstant → String
  | .only kind => kind.label
  | .member => "Fieldref, Methodref or InterfaceMethodref"

end JavaClass
