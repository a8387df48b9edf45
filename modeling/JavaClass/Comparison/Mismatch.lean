/-
Comparing structures part by part. A comparison goes through the parts in a fixed order and stops
at the first that differs; it then tells where that part is, by the names of what it is inside, and
what stands there on either side.
-/

namespace JavaClass

/-- The first difference between two structures. -/
structure Mismatch where
  /-- The way to the part that differs, from the outside in. -/
  path : List String
  left : String
  right : String
  deriving DecidableEq, Repr

/-- What two structures are found to be: alike, or different somewhere. -/
abbrev Comparison := Except Mismatch Unit

namespace Mismatch

/-- The difference seen from outside the part called `segment`. -/
def within (segment : String) (mismatch : Mismatch) : Mismatch :=
  { mismatch with path := segment :: mismatch.path }

/-- The path as one text: a point stands before every segment but the first and those that are
positions in brackets. -/
def pathText (mismatch : Mismatch) : String :=
  mismatch.path.foldl (fun path segment =>
    if path.isEmpty || segment.startsWith "[" then path ++ segment
    else path ++ "." ++ segment) ""

/-- The difference as one text. -/
def message (mismatch : Mismatch) : String :=
  mismatch.pathText ++ ": " ++ mismatch.left ++ " != " ++ mismatch.right

end Mismatch

namespace Comparison

/-- A comparison seen from outside the part called `segment`. -/
def within (segment : String) : Comparison → Comparison
  | .ok () => .ok ()
  | .error mismatch => .error (mismatch.within segment)

/-- Compares two values that have no parts. -/
def values [BEq α] (segment : String) (shown : α → String) (left right : α) : Comparison :=
  if left == right then .ok () else .error ⟨[segment], shown left, shown right⟩

/-- Compares the lengths of two sequences. -/
def lengths (left right : Nat) : Comparison := values "len()" toString left right

/-- How paths name a position. -/
def position (index : Nat) : String := s!"[{index}]"

/-- Compares the items of two sequences in pairs, the first of which are at `index`. -/
def pairs (compare : α → α → Comparison) (index : Nat) : List α → List α → Comparison
  | left :: lefts, right :: rights =>
    match compare left right with
    | .error mismatch => .error (mismatch.within (position index))
    | .ok () => pairs compare (index + 1) lefts rights
  | _, _ => .ok ()

/-- Compares two sequences: their lengths, and then item by item. -/
def sequences (segment : String) (compare : α → α → Comparison) (left right : List α) :
    Comparison :=
  within segment do
    lengths left.length right.length
    pairs compare 0 left right

end Comparison

end JavaClass
