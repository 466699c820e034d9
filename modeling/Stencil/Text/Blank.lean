/-!
# Blank characters

Blanks separate the tokens of a tag and may stand around a number written in text. They are the
characters with the property `White_Space`.

## Main definitions

* `Text.isBlank`: the class.
* `Text.trimStart`, `Text.trim`: a text without the blanks at its start, or at both ends.
-/

namespace Stencil.Text

/-- The property `White_Space`: the ASCII blanks and the separators beyond them. -/
def isBlank (c : Char) : Bool :=
  let n := c.toNat
  (0x09 ≤ n && n ≤ 0x0d) || n == 0x20 || n == 0x85 || n == 0xa0 || n == 0x1680 ||
    (0x2000 ≤ n && n ≤ 0x200a) || n == 0x2028 || n == 0x2029 || n == 0x202f || n == 0x205f ||
    n == 0x3000

/-- A text without the blanks at its start. -/
def trimStart (cs : List Char) : List Char :=
  cs.dropWhile isBlank

/-- A text without the blanks at its two ends. -/
def trim (cs : List Char) : List Char :=
  (trimStart (trimStart cs).reverse).reverse

end Stencil.Text
