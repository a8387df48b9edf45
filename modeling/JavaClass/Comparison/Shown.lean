/-
Values as a comparison shows them: a list between brackets, a record by the names of its fields, a
value that may be missing as such.
-/

namespace JavaClass.Shown

/-- A list of items. -/
def list (item : α → String) (items : List α) : String :=
  "[" ++ String.intercalate ", " (items.map item) ++ "]"

/-- A value that may be missing. -/
def optional (item : α → String) : Option α → String
  | none => "None"
  | some value => "Some(" ++ item value ++ ")"

/-- A record. -/
def record (name : String) (fields : List (String × String)) : String :=
  let parts := fields.map fun (label, value) => label ++ ": " ++ value
  name ++ " \x7b " ++ String.intercalate ", " parts ++ " \x7d"

/-- A value behind the name of its kind. -/
def tagged (name value : String) : String := name ++ "(" ++ value ++ ")"

/-- A word of sixteen bits. -/
def word (value : UInt16) : String := toString value.toNat

end JavaClass.Shown
