import Stencil.Decimal.Binary
import Stencil.Numeral

/-!
# The shortest decimal

Of the decimals that read back as a given floating-point number, the text shows one with the
fewest digits, and of those the one nearest to the number. Where two are equally near, the caller
says which is taken.

## Main definitions

* `Decimal.Scaled`: digits and a decimal exponent.
* `Decimal.Interval`: the reals that round to a number, on a common unit.
* `Decimal.shortest`: the shortest decimal of a binary fraction.
* `Decimal.Format`, `Decimal.Format.write`: how such decimals are spelled out.
-/

namespace Stencil.Decimal

/-- The number `digits * 10 ^ exponent`. -/
structure Scaled where
  digits : Nat
  exponent : Int

/-- A number with the reals that round to it: all are in units of `2 ^ unit`, and the ends belong
to the interval when `closed` holds. -/
structure Interval where
  low : Nat
  middle : Nat
  high : Nat
  unit : Int
  closed : Bool

/-- The reals that round to a positive binary fraction: half of the way to both neighbours, in
quarters of its last place. The lower neighbour of a power of two is nearer than the upper one. -/
def Binary.interval (b : Binary) : Interval :=
  let m := b.significand
  let below := if m = 0x10000000000000 ∧ -1074 < b.exponent then 1 else 2
  ⟨4 * m - below, 4 * m, 4 * m + 2, b.exponent - 2, m % 2 == 0⟩

/-- Which of two equally near decimals is taken. -/
inductive Tie
  | upward
  | toEven

namespace Interval

/-- An interval with its bounds as multiples of `1 / scale`, on the grid of `10 ^ k`. A point `d`
of the grid then stands at `d * scale`. -/
structure OnGrid where
  low : Nat
  middle : Nat
  high : Nat
  scale : Nat
  closed : Bool

/-- The interval seen from the grid of the multiples of `10 ^ k`. -/
def onGrid (i : Interval) (k : Int) : OnGrid :=
  let up := Nat.pow 10 (-k).toNat <<< i.unit.toNat
  let down := Nat.pow 10 k.toNat <<< (-i.unit).toNat
  ⟨i.low * up, i.middle * up, i.high * up, down, i.closed⟩

/-- Whether a point of the grid lies in the interval. -/
def OnGrid.contains (g : OnGrid) (d : Nat) : Bool :=
  if g.closed then g.low ≤ d * g.scale && d * g.scale ≤ g.high
  else g.low < d * g.scale && d * g.scale < g.high

/-- The point of the grid that lies in the interval, the nearer one of the two next to the middle
when both do. -/
def OnGrid.nearest? (g : OnGrid) (tie : Tie) : Option Nat :=
  let down := g.middle / g.scale
  let up := down + 1
  match down != 0 && g.contains down, g.contains up with
  | false, false => none
  | true, false => some down
  | false, true => some up
  | true, true =>
    let twice := 2 * (g.middle - down * g.scale)
    if twice < g.scale then some down
    else if g.scale < twice then some up
    else match tie with
      | .upward => some up
      | .toEven => some (if down % 2 = 0 then down else up)

end Interval

/-- The first grid, from the coarse ones to the fine ones, with a point in the interval. -/
def firstOnGrid (tie : Tie) (i : Interval) : Nat → Int → Scaled
  | 0, k => ⟨0, k⟩
  | n + 1, k =>
    match (i.onGrid k).nearest? tie with
    | some d => ⟨d, k⟩
    | none => firstOnGrid tie i n (k - 1)

/-- The shortest decimal that reads back as a positive binary fraction. The search starts at a
power of ten above the number; two dozen places further down every number has been found. -/
def shortest (tie : Tie) (b : Binary) : Scaled :=
  let top := (b.exponent + Nat.log2 b.significand + 1) * 30103 / 100000 + 2
  firstOnGrid tie b.interval 24 top

/-- How a floating-point number is spelled out. -/
structure Format where
  /-- The choice between two equally near decimals. -/
  tie : Tie
  /-- The places of the decimal point, counted from the first digit, that are written out. -/
  writtenOut : Int → Bool
  /-- What follows a whole number. -/
  wholeEnd : String
  notANumber : String
  positiveInfinity : String
  negativeInfinity : String

namespace Format

/-- Digits with the decimal point after the first `point` of them, zeros filling up. -/
def writePlain (f : Format) (digits : List Char) (point : Int) : List Char :=
  if point ≤ 0 then
    ['0', '.'] ++ List.replicate (-point).toNat '0' ++ digits
  else if digits.length ≤ point then
    digits ++ List.replicate (point.toNat - digits.length) '0' ++ f.wholeEnd.toList
  else
    digits.take point.toNat ++ '.' :: digits.drop point.toNat

/-- One digit before the decimal point and an exponent with its sign. -/
def writeScientific (digits : List Char) (point : Int) : List Char :=
  let mantissa := match digits with
    | d :: e :: ds => d :: '.' :: e :: ds
    | _ => digits
  let power := point - 1
  mantissa ++ ['e', if power < 0 then '-' else '+'] ++ Numeral.digits 10 power.natAbs

/-- The text of a positive finite number. -/
def writePositive (f : Format) (b : Binary) : List Char :=
  let d := shortest f.tie b
  let digits := Numeral.digits 10 d.digits
  let point := digits.length + d.exponent
  if f.writtenOut point then f.writePlain digits point else writeScientific digits point

/-- The text of a floating-point number. -/
def write (f : Format) (x : Float) : List Char :=
  match Binary.ofFloat? x with
  | some b =>
    let size := if b.significand = 0 then '0' :: f.wholeEnd.toList else f.writePositive b
    if b.negative then '-' :: size else size
  | none =>
    if x == x then (if x < 0 then f.negativeInfinity else f.positiveInfinity).toList
    else f.notANumber.toList

end Format

end Stencil.Decimal
