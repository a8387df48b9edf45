/-
Descriptors: the types of fields and methods as class files spell them. A base type is a letter,
a class is its name between `L` and `;`, an array is its element type behind `[`, and a method
lists its parameters between parentheses and then what it returns.

The types are kept apart from their spelling, and `Valid` says which of them have one that reads
back. Parsing and printing stand side by side: the parser takes a type off the front of a list of
characters and hands back the rest.
-/

namespace JavaClass

/-! ### Types -/

/-- The types that are not made of others. `void` is only ever returned. -/
inductive BaseType
  | boolean
  | char
  | float
  | double
  | byte
  | short
  | int
  | long
  | void
  deriving DecidableEq, Repr

/-- The letter of a base type. -/
def BaseType.letter : BaseType → Char
  | .boolean => 'Z'
  | .char => 'C'
  | .float => 'F'
  | .double => 'D'
  | .byte => 'B'
  | .short => 'S'
  | .int => 'I'
  | .long => 'J'
  | .void => 'V'

/-- The keyword of a base type in source code. -/
def BaseType.keyword : BaseType → String
  | .boolean => "boolean"
  | .char => "char"
  | .float => "float"
  | .double => "double"
  | .byte => "byte"
  | .short => "short"
  | .int => "int"
  | .long => "long"
  | .void => "void"

/-- The base type of a letter. -/
def BaseType.ofLetter? : Char → Option BaseType
  | 'Z' => some .boolean
  | 'C' => some .char
  | 'F' => some .float
  | 'D' => some .double
  | 'B' => some .byte
  | 'S' => some .short
  | 'I' => some .int
  | 'J' => some .long
  | 'V' => some .void
  | _ => none

/-- The type of a field, a parameter or a returned value. -/
inductive FieldType
  | base (type : BaseType)
  | object (className : String)
  | array (element : FieldType)
  deriving DecidableEq, Repr

namespace FieldType

/-- Nothing at all, as the return type of a method. -/
def void : FieldType := .base .void

/-- Whether this is `void`. -/
def isVoid : FieldType → Bool
  | .base .void => true
  | _ => false

/-- Whether values of this type are references. -/
def isReference : FieldType → Bool
  | .base _ => false
  | .object _ | .array _ => true

/-- How many local variables or stack slots a value takes. -/
def slots : FieldType → Nat
  | .base .void => 0
  | .base .long | .base .double => 2
  | _ => 1

/-- The types a field can have: `void` occurs nowhere, and class names are neither empty nor cut
short by a semicolon of their own. -/
def Valid : FieldType → Prop
  | .base type => type ≠ .void
  | .object className => className ≠ "" ∧ ';' ∉ className.toList
  | .array element => element.Valid

/-- The spelling of a type. -/
def characters : FieldType → List Char
  | .base type => [type.letter]
  | .object className => 'L' :: (className.toList ++ [';'])
  | .array element => '[' :: element.characters

/-- The descriptor of a type. -/
def descriptor (type : FieldType) : String := String.ofList type.characters

end FieldType

/-- The type of a method. -/
structure MethodType where
  parameters : List FieldType
  returns : FieldType
  deriving DecidableEq, Repr

namespace MethodType

/-- The slots of all parameters together, without a receiver. -/
def parameterSlots (type : MethodType) : Nat :=
  type.parameters.foldl (fun slots parameter => slots + parameter.slots) 0

/-- The types a method can have. -/
def Valid (type : MethodType) : Prop :=
  (∀ parameter ∈ type.parameters, parameter.Valid) ∧
    (type.returns.Valid ∨ type.returns = .void)

/-- The descriptor of a method. -/
def descriptor (type : MethodType) : String :=
  String.ofList
    ('(' :: (type.parameters.flatMap FieldType.characters ++ ')' :: type.returns.characters))

end MethodType

/-! ### Parsing -/

/-- Why a text is no descriptor. -/
inductive DescriptorError
  | nothingLeft
  | arrayOfVoid
  | unterminatedName (name : String)
  | emptyName
  | unknownType (letter : Char)
  | voidField
  | trailingField (text : String)
  | unopened
  | unclosed (text : String)
  | voidParameter (text : String)
  | trailingMethod (text : String)
  deriving DecidableEq, Repr

/-- The wording of a refused descriptor. -/
def DescriptorError.message : DescriptorError → String
  | .nothingLeft => "no more chars"
  | .arrayOfVoid => "array of void"
  | .unterminatedName name => s!"unterminated class name {name}"
  | .emptyName => "empty class name"
  | .unknownType letter => s!"unknown type {letter}"
  | .voidField => "void is not a field type"
  | .trailingField text => s!"trailing characters in field descriptor {text}"
  | .unopened => "descriptor did not start with ("
  | .unclosed text => s!"descriptor {text} has no closing )"
  | .voidParameter text => s!"void parameter in {text}"
  | .trailingMethod text => s!"trailing characters in method descriptor {text}"

/-- Takes one type, or `void`, off the front. -/
def FieldType.parseFront : List Char → Except DescriptorError (FieldType × List Char)
  | [] => .error .nothingLeft
  | first :: rest =>
    if first = '[' then
      match parseFront rest with
      | .error error => .error error
      | .ok (element, rest) =>
        if element.isVoid then .error .arrayOfVoid else .ok (.array element, rest)
    else if first = 'L' then
      let name := rest.takeWhile (· != ';')
      match rest.dropWhile (· != ';') with
      | [] => .error (.unterminatedName (String.ofList name))
      | _ :: rest =>
        if name.isEmpty then .error .emptyName else .ok (.object (String.ofList name), rest)
    else
      match BaseType.ofLetter? first with
      | some type => .ok (.base type, rest)
      | none => .error (.unknownType first)

/-- The type whose descriptor is `text`. -/
def FieldType.parse (text : String) : Except DescriptorError FieldType :=
  match parseFront text.toList with
  | .error error => .error error
  | .ok (type, rest) =>
    if type.isVoid then .error .voidField
    else if rest.isEmpty then .ok type
    else .error (.trailingField text)

/-- Takes parameters off the front until the closing parenthesis, which goes too. Each takes at
least one character, so as many rounds as there are characters are enough. -/
def MethodType.parseParameters (text : String) :
    Nat → List FieldType → List Char → Except DescriptorError (List FieldType × List Char)
  | 0, _, _ => .error (.unclosed text)
  | _ + 1, _, [] => .error (.unclosed text)
  | rounds + 1, seen, first :: rest =>
    if first = ')' then .ok (seen.reverse, rest)
    else
      match FieldType.parseFront (first :: rest) with
      | .error error => .error error
      | .ok (parameter, rest) =>
        if parameter.isVoid then .error (.voidParameter text)
        else parseParameters text rounds (parameter :: seen) rest

/-- The method type whose descriptor is `text`. -/
def MethodType.parse (text : String) : Except DescriptorError MethodType :=
  match text.toList with
  | '(' :: characters =>
    match parseParameters text characters.length [] characters with
    | .error error => .error error
    | .ok (parameters, rest) =>
      match FieldType.parseFront rest with
      | .error error => .error error
      | .ok (returns, rest) =>
        if rest.isEmpty then .ok ⟨parameters, returns⟩ else .error (.trailingMethod text)
  | _ => .error .unopened

end JavaClass
