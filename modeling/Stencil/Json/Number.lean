import Stencil.Json.Basic

/-!
# Reading JSON numbers

Digits are collected in a significand as long as it fits a word of 64 bits; further digits count
only by their place. The significand is then scaled by powers of ten in floating point, so that the
last bit of a long number may differ from the nearest one.

## Main definitions

* `Json.Significand`: the digits collected so far and their place.
* `Json.scale?`: a number times a power of ten, if it is finite.
* `Json.number?`: the number at the start of a text, and what follows it.
-/

namespace Stencil.Json

/-- The digits collected so far, the power of ten of their last place, and whether a digit was left
out. -/
structure Significand where
  digits : Nat
  exponent : Int
  full : Bool

namespace Significand

/-- No digits. -/
def zero : Significand :=
  ⟨0, 0, false⟩

/-- Whether one more digit fits. -/
def fits (s : Significand) (d : Nat) : Bool :=
  !s.full && s.digits * 10 + d < 0x10000000000000000

/-- A digit before the point. -/
def addWhole (s : Significand) (c : Char) : Significand :=
  if s.fits (Numeral.digitValue c) then
    { s with digits := s.digits * 10 + Numeral.digitValue c }
  else { s with exponent := s.exponent + 1, full := true }

/-- A digit after the point. -/
def addFraction (s : Significand) (c : Char) : Significand :=
  if s.fits (Numeral.digitValue c) then
    { s with digits := s.digits * 10 + Numeral.digitValue c, exponent := s.exponent - 1 }
  else { s with full := true }

end Significand

/-- A power of ten in floating point. -/
def powerOfTen (n : Nat) : Float :=
  Float.ofScientific 1 false n

/-- A number times a power of ten, if it is finite. Far below one the number is scaled in several
steps. -/
def scale? (x : Float) (e : Int) : Option Float :=
  if 0 ≤ e then
    if e ≤ 308 then
      let y := x * powerOfTen e.natAbs
      if y.isInf then none else some y
    else if x == 0 then some x else none
  else if -308 ≤ e then some (x / powerOfTen e.natAbs)
  else if x == 0 then some x
  else scale? (x / powerOfTen 308) (e + 308)
termination_by (-e).toNat
decreasing_by omega

/-- The floating-point number of a significand and a further power of ten. -/
def ofParts (negative : Bool) (s : Significand) (e : Int) : Json :=
  match scale? (Float.ofNat s.digits) (s.exponent + e) with
  | some x => .float (if negative then -x else x)
  | none => .unreadable

/-- The number of digits alone. The negative zero is a floating-point number, and so is what is too
small for a signed word. -/
def ofWhole (negative : Bool) (s : Significand) : Json :=
  if s.full then ofParts negative s 0
  else if !negative then .int s.digits
  else if s.digits = 0 ∨ 0x8000000000000000 < s.digits then .float (-Float.ofNat s.digits)
  else .int (-(s.digits : Int))

/-- The exponent of a number and what follows it, if there is one. -/
def exponent? : List Char → Option (Option Int × List Char)
  | c :: cs =>
    if c = 'e' ∨ c = 'E' then
      let (negative, cs) := match cs with
        | '-' :: rest => (true, rest)
        | '+' :: rest => (false, rest)
        | _ => (false, cs)
      let (digits, rest) := Decimal.splitDigits cs
      if digits = [] then none
      else
        let e : Int := Numeral.value 10 digits
        some (some (if negative then -e else e), rest)
    else some (none, c :: cs)
  | [] => some (none, [])

/-- A number without its sign, and what follows it. No digit may follow a leading zero, and at
least one digit follows the point. -/
def unsigned? (negative : Bool) (cs : List Char) : Option (Json × List Char) := do
  let (whole, rest) := Decimal.splitDigits cs
  if whole = [] ∨ (whole.head? = some '0' ∧ 1 < whole.length) then none
  let s := whole.foldl Significand.addWhole .zero
  match rest with
  | '.' :: rest =>
    let (fraction, rest) := Decimal.splitDigits rest
    if fraction = [] then none
    let s := fraction.foldl Significand.addFraction { s with full := false }
    let (e, rest) ← exponent? rest
    return (ofParts negative s (e.getD 0), rest)
  | _ =>
    match ← exponent? rest with
    | (some e, rest) => return (ofParts negative s e, rest)
    | (none, rest) => return (ofWhole negative s, rest)

/-- The number at the start of a text, and what follows it. -/
def number? : List Char → Option (Json × List Char)
  | '-' :: cs => unsigned? true cs
  | cs => unsigned? false cs

end Stencil.Json
