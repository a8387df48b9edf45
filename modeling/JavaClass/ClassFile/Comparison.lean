/-
Comparing classes, component by component in the order in which a file has them.
-/

import JavaClass.Attribute.Comparison
import JavaClass.ClassFile.Basic
import JavaClass.Pool.Comparison

namespace JavaClass

/-- A version as a comparison shows it. -/
def Version.shown (version : Version) : String :=
  Shown.record "MetaData" [("minor_version", Shown.word version.minor),
    ("major_version", Shown.word version.major)]

/-- Compares two members. -/
def Member.compare {holder : FlagHolder} (left right : Member holder) : Comparison := do
  Comparison.values "flags" Flags.render left.flags right.flags
  Comparison.words "name" left.name right.name
  Comparison.words "descriptor" left.descriptor right.descriptor
  Attributes.compare left.attributes right.attributes

namespace ClassFile

/-- Compares two classes. -/
def compare (left right : ClassFile) : Comparison := do
  Comparison.values "meta_data" Version.shown left.version right.version
  (left.pool.compare right.pool).within "constant_pool"
  Comparison.values "access_flags" Flags.render left.flags right.flags
  Comparison.words "this_class" left.thisClass right.thisClass
  Comparison.values "super_class" (Shown.optional Shown.word) left.superClass right.superClass
  Comparison.values "interfaces" (Shown.list Shown.word) left.interfaces right.interfaces
  Comparison.sequences "fields" Member.compare left.fields right.fields
  Comparison.sequences "methods" Member.compare left.methods right.methods
  Attributes.compare left.attributes right.attributes

/-- Whether two classes are the same in every respect, down to the indices at which their pools
find constants. -/
def isIdentical (left right : ClassFile) : Bool :=
  (compare left right).isOk && left.pool.firstSlots.toList == right.pool.firstSlots.toList

end ClassFile

end JavaClass
