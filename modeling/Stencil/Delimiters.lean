/-!
# Delimiters

Every tag stands between a left and a right delimiter, neither of which is empty.

## Main definitions

* `Delimiters`: the two delimiters.
* `Delimiters.standard`: a brace on each side.
* `Delimiters.make`: delimiters from two texts, or the side that is empty.
-/

namespace Stencil

/-- The markers around every tag. -/
structure Delimiters where
  left : String
  right : String
  left_ne_empty : left ≠ ""
  right_ne_empty : right ≠ ""

namespace Delimiters

/-- A brace on each side. -/
def standard : Delimiters where
  left := "\x7b"
  right := "\x7d"
  left_ne_empty := by decide
  right_ne_empty := by decide

/-- The side of a delimiter. -/
inductive Side
  | left
  | right
  deriving DecidableEq, Repr

/-- What is wrong with an empty delimiter. -/
def Side.emptyMessage : Side → String
  | left => "left delimiter must not be empty"
  | right => "right delimiter must not be empty"

/-- Delimiters from two texts. When both are empty the left one is named. -/
def make (left right : String) : Except Side Delimiters :=
  if hl : left = "" then .error .left
  else if hr : right = "" then .error .right
  else .ok ⟨left, right, hl, hr⟩

/-- Delimiters with one or both sides replaced. -/
def override (d : Delimiters) (left right : Option String) : Except Side Delimiters :=
  make (left.getD d.left) (right.getD d.right)

end Delimiters

end Stencil
