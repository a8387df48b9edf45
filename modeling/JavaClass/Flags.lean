/-
Access flags. Each of a class, a method and a field gives its own meaning to the sixteen bits,
and a bit without a meaning is kept: what is read is what is written.
-/

namespace JavaClass

/-- What a set of access flags belongs to. -/
inductive FlagHolder
  | classFile
  | method
  | field
  deriving DecidableEq, Repr

namespace FlagHolder

/-- The bits with a meaning, lowest first, and their names. -/
def names : FlagHolder → List (UInt16 × String)
  | .classFile =>
    [(0x0001, "PUBLIC"), (0x0010, "FINAL"), (0x0020, "SUPER"), (0x0200, "INTERFACE"),
      (0x0400, "ABSTRACT"), (0x1000, "SYNTHETIC"), (0x2000, "ANNOTATION"), (0x4000, "ENUM"),
      (0x8000, "MODULE")]
  | .method =>
    [(0x0001, "PUBLIC"), (0x0002, "PRIVATE"), (0x0004, "PROTECTED"), (0x0008, "STATIC"),
      (0x0010, "FINAL"), (0x0020, "SYNCHRONIZED"), (0x0040, "BRIDGE"), (0x0080, "VARARGS"),
      (0x0100, "NATIVE"), (0x0400, "ABSTRACT"), (0x0800, "STRICT_FP"), (0x1000, "SYNTHETIC")]
  | .field =>
    [(0x0001, "PUBLIC"), (0x0002, "PRIVATE"), (0x0004, "PROTECTED"), (0x0008, "STATIC"),
      (0x0010, "FINAL"), (0x0040, "VOLATILE"), (0x0080, "TRANSIENT"), (0x1000, "SYNTHETIC"),
      (0x4000, "ENUM")]

/-- How listings call a set of flags. -/
def label : FlagHolder → String
  | .classFile => "ClassAccessFlags"
  | .method => "MethodAccessFlags"
  | .field => "FieldAccessFlags"

end FlagHolder

/-- The access flags of something. -/
structure Flags (holder : FlagHolder) where
  bits : UInt16
  deriving DecidableEq, Repr

/-- The access flags of a class. -/
abbrev ClassFlags := Flags .classFile

/-- The access flags of a method. -/
abbrev MethodFlags := Flags .method

/-- The access flags of a field. -/
abbrev FieldFlags := Flags .field

namespace Flags

variable {holder : FlagHolder}

/-- Whether every bit of `other` is set. -/
def has (flags other : Flags holder) : Bool := flags.bits &&& other.bits == other.bits

/-- The bits of both. -/
def union (flags other : Flags holder) : Flags holder := ⟨flags.bits ||| other.bits⟩

/-- The bits that `names` gives no meaning. -/
def unnamed (flags : Flags holder) : UInt16 :=
  holder.names.foldl (fun rest (bit, _) => rest &&& ~~~bit) flags.bits

/-- The flags as listings show them: the names of the bits that are set, the others in
hexadecimal behind them, and a plain zero if no bit is set. -/
def render (flags : Flags holder) : String :=
  let named := holder.names.filterMap fun (bit, name) =>
    if flags.bits &&& bit == bit then some name else none
  let rest := flags.unnamed
  let parts :=
    if rest == 0 then named
    else named ++ ["0x" ++ String.ofList (Nat.toDigits 16 rest.toNat)]
  let body := if parts.isEmpty then "0x0" else String.intercalate " | " parts
  holder.label ++ "(" ++ body ++ ")"

end Flags

/-! ### The flags that mean something here -/

namespace ClassFlags

def accPublic : ClassFlags := ⟨0x0001⟩
def accSuper : ClassFlags := ⟨0x0020⟩
def accInterface : ClassFlags := ⟨0x0200⟩

end ClassFlags

namespace MethodFlags

def accStatic : MethodFlags := ⟨0x0008⟩
def accFinal : MethodFlags := ⟨0x0010⟩
def accAbstract : MethodFlags := ⟨0x0400⟩
def accSynthetic : MethodFlags := ⟨0x1000⟩

end MethodFlags

namespace FieldFlags

def accPrivate : FieldFlags := ⟨0x0002⟩
def accStatic : FieldFlags := ⟨0x0008⟩

/-- The part of a field's flags that says who may use it, as a method carries it: the bits of
`PUBLIC`, `PRIVATE` and `PROTECTED` are the same for both. -/
def visibility (flags : FieldFlags) : MethodFlags := ⟨flags.bits &&& 0x0007⟩

end FieldFlags

end JavaClass
