/-
Listings are lines of text, each of them indented by a number of blanks. Every line ends with a
line end, the last one too.
-/

namespace JavaClass.Listing

/-- A line behind a number of blanks. -/
def line (indent : Nat) (text : String) : String :=
  String.ofList (List.replicate indent ' ') ++ text

/-- A number, moved to the right until it ends in column five. -/
def column (number : Nat) : String :=
  let digits := toString number
  line (5 - digits.length) digits

/-- Lines as one text. -/
def text (lines : List String) : String := String.join (lines.map (· ++ "\n"))

end JavaClass.Listing
