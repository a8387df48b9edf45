/-
A whole class in words: its name and what it extends and implements, its constants, its members and
its attributes.
-/

import JavaClass.ClassFile.Basic
import JavaClass.Listing.Attribute
import JavaClass.Listing.Pool

namespace JavaClass.ClassFile

/-- The line that says what a class is. -/
def headline (file : ClassFile) : String :=
  let extending := match file.superClass with
    | some superClass => " extends " ++ file.pool.describe superClass
    | none => ""
  let implementing :=
    if file.interfaces.isEmpty then ""
    else " implements " ++ String.intercalate ", " (file.interfaces.map file.pool.describe)
  "class " ++ file.pool.describe file.thisClass ++ extending ++ implementing

/-- The lines of a member, whose name and descriptor are joined by `joint`. -/
def memberLines {holder : FlagHolder} (pool : Pool) (joint : String) (member : Member holder) :
    List String :=
  Listing.line 4 (pool.describe member.name ++ joint ++ pool.describe member.descriptor ++ " " ++
    member.flags.render) :: Attributes.lines pool 6 member.attributes

/-- The lines of a class. -/
def lines (file : ClassFile) : List String :=
  [file.headline,
    Listing.line 2 (s!"version {file.version.major.toNat}.{file.version.minor.toNat}, flags " ++
      file.flags.render)] ++
    file.pool.lines 2 ++
    Listing.line 2 s!"Fields ({file.fields.length}):" ::
      file.fields.flatMap (memberLines file.pool ":") ++
    Listing.line 2 s!"Methods ({file.methods.length}):" ::
      file.methods.flatMap (memberLines file.pool "") ++
    Attributes.lines file.pool 2 file.attributes

/-- The listing of a class. -/
def listing (file : ClassFile) : String := Listing.text file.lines

end JavaClass.ClassFile
