import Stencil.Value.Number

/-!
# Comparing values

Two values compare as numbers when both are numbers or spell one. Next to a truth value or the null
value only truth counts. Everything else compares by its text, lists and maps being equal only to
their likes.

## Main definitions

* `Value.looseEq`: the equality of `==`.
* `Value.compare?`: the order of `<` and its kin, undefined next to a number that is none.
* `Number.compare?`: the order of numbers.
-/

namespace Stencil

/-- The order of floating-point numbers, undefined next to a number that is none. -/
def compareFloats? (x y : Float) : Option Ordering :=
  match decide (x ≤ y), decide (y ≤ x) with
  | true, true => some .eq
  | true, false => some .lt
  | false, true => some .gt
  | false, false => none

/-- The order of numbers: of two integers exactly, else in floating point. -/
def Number.compare? : Number → Number → Option Ordering
  | .int m, .int n => some (compare m.toInt n.toInt)
  | a, b => compareFloats? a.toFloat b.toFloat

/-- The order of texts by code points. -/
def compareTexts (s t : String) : Ordering :=
  if s < t then .lt else if s = t then .eq else .gt

namespace Value

/-- Whether only the truth of a value counts in a comparison. -/
def isTruth : Value → Bool
  | null | bool _ => true
  | _ => false

/-- Whether a value holds other values. -/
def isCollection : Value → Bool
  | list _ | map _ => true
  | _ => false

/-- The order of two values, if they have one. -/
def compare? (a b : Value) : Option Ordering :=
  if a.isNumeric && b.isNumeric then do
    (← a.number?).compare? (← b.number?)
  else if a.isTruth || b.isTruth then
    some (compare a.truthy.toNat b.truthy.toNat)
  else
    some (compareTexts a.display b.display)

/-- The equality of values across kinds. -/
def looseEq (a b : Value) : Bool :=
  if a.isTruth || b.isTruth then a.truthy == b.truthy
  else if a.isCollection || b.isCollection then a.same b
  else if a.isNumeric && b.isNumeric then a.compare? b == some .eq
  else a.display == b.display

end Value

end Stencil
