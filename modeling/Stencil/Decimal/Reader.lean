import Stencil.Decimal.Shortest

/-!
# Reading decimals

The text of a floating-point number is an optional sign and then digits with an optional point and
an optional exponent, or one of the words for infinity and for no number. What is read is the
floating-point number nearest to what the digits say.

## Main definitions

* `Decimal.Scaled.toFloat`: the nearest floating-point number.
* `Decimal.scaled?`: digits with a point and an exponent.
* `Decimal.read?`: the text of a floating-point number.
-/

namespace Stencil.Decimal

/-- The floating-point number nearest to a decimal. Past four hundred places on either side of the
point the answer no longer depends on the digits. -/
def Scaled.toFloat (d : Scaled) : Float :=
  let top := (Numeral.digits 10 d.digits).length + d.exponent
  if d.digits = 0 ∨ top < -400 then Float.ofNat 0
  else if 400 < top then infinity
  else Float.ofScientific d.digits (d.exponent < 0) d.exponent.natAbs

/-- The digits at the start of a text and what follows them. -/
def splitDigits (cs : List Char) : List Char × List Char :=
  (cs.takeWhile Char.isDigit, cs.dropWhile Char.isDigit)

/-- The exponent at the end of a number: nothing, or `e`, an optional sign and digits. -/
def exponent? : List Char → Option Int
  | [] => some 0
  | c :: cs =>
    if c = 'e' ∨ c = 'E' then
      match cs with
      | '-' :: ds => (Numeral.natural? Char.isDigit 10 ds).map fun n ↦ -(n : Int)
      | '+' :: ds => (Numeral.natural? Char.isDigit 10 ds).map Int.ofNat
      | ds => (Numeral.natural? Char.isDigit 10 ds).map Int.ofNat
    else none

/-- Digits with an optional point and an optional exponent; a digit stands on one side of the point
at least. -/
def scaled? (cs : List Char) : Option Scaled :=
  let (whole, rest) := splitDigits cs
  let (fraction, rest) := match rest with
    | '.' :: rest => splitDigits rest
    | _ => ([], rest)
  if whole = [] ∧ fraction = [] then none
  else (exponent? rest).map fun e ↦ ⟨Numeral.value 10 (whole ++ fraction), e - fraction.length⟩

/-- A number without its sign: digits, or a word in any letter case. -/
def magnitude? (cs : List Char) : Option Float :=
  let word := String.ofList (cs.map Char.toLower)
  if word = "inf" ∨ word = "infinity" then some infinity
  else if word = "nan" then some nan
  else (scaled? cs).map Scaled.toFloat

/-- The text of a floating-point number. -/
def read? : List Char → Option Float
  | '-' :: cs => (magnitude? cs).map (-·)
  | '+' :: cs => magnitude? cs
  | cs => magnitude? cs

end Stencil.Decimal
