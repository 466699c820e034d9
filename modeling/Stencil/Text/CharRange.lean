/-!
# Ranges of characters

Classes of characters beyond ASCII are given as lists of code point ranges.

## Main definitions

* `Text.CharRange`: an inclusive range of code points.
* `Text.inRanges`: membership in a list of ranges.
-/

namespace Stencil.Text

/-- The first and the last code point of a range. -/
abbrev CharRange := Nat × Nat

/-- Whether a character lies in one of the ranges. -/
def inRanges (ranges : List CharRange) (c : Char) : Bool :=
  ranges.any fun r ↦ r.1 ≤ c.toNat && c.toNat ≤ r.2

end Stencil.Text
