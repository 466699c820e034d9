/-!
# Binary fractions

A finite floating-point number of 64 bits is a whole number times a power of two. The exact parts
of it serve whatever must not be rounded: the integer that a number is, the remainder of a
division, the decimal text.

## Main definitions

* `Decimal.Binary`: a sign, a significand and an exponent of two.
* `Decimal.Binary.ofFloat?`: the parts of a finite number.
* `Decimal.Binary.toFloat`: the number nearest to such parts.
* `Decimal.Binary.toInt?`: the integer that the parts are, if they are one.
* `Decimal.remainder`: what a truncated division leaves.
-/

namespace Stencil.Decimal

/-- The number `± significand * 2 ^ exponent`. -/
structure Binary where
  negative : Bool
  significand : Nat
  exponent : Int

namespace Binary

/-- The parts of a finite number: 52 stored bits, a leading one unless the number is subnormal,
and a power of two. Neither infinities nor what is no number has parts. -/
def ofFloat? (x : Float) : Option Binary :=
  let bits := x.toBits.toNat
  let negative := bits / 0x8000000000000000 == 1
  let power : Nat := bits / 0x10000000000000 % 0x800
  let fraction := bits % 0x10000000000000
  if power = 0x7ff then none
  else if power = 0 then some ⟨negative, fraction, -1074⟩
  else some ⟨negative, 0x10000000000000 + fraction, (power : Int) - 1075⟩

/-- The number nearest to `m * 2 ^ e`. For a negative `e` it is read as `m * 5 ^ -e` in units of
the decimal place `10 ^ e`. -/
def magnitude (m : Nat) : Int → Float
  | .ofNat k => Float.ofNat (m <<< k)
  | .negSucc k => Float.ofScientific (m * Nat.pow 5 (k + 1)) true (k + 1)

/-- The number nearest to the parts. -/
def toFloat (b : Binary) : Float :=
  if b.negative then -magnitude b.significand b.exponent else magnitude b.significand b.exponent

/-- The size of the number when it is a whole number. -/
def wholeMagnitude? (m : Nat) : Int → Option Nat
  | .ofNat k => some (m <<< k)
  | .negSucc k => if m % 1 <<< (k + 1) = 0 then some (m >>> (k + 1)) else none

/-- The integer that the parts are, if they are one. -/
def toInt? (b : Binary) : Option Int :=
  (wholeMagnitude? b.significand b.exponent).map fun n ↦ if b.negative then -(n : Int) else n

/-- The size of the number in units of `2 ^ e`, for an `e` no greater than its exponent. -/
def inUnits (b : Binary) (e : Int) : Nat :=
  b.significand <<< (b.exponent - e).toNat

/-- What is left of `a` after taking away `b` as often as possible, with the sign of `a`. -/
def remainder (a b : Binary) : Binary :=
  let e := min a.exponent b.exponent
  ⟨a.negative, a.inUnits e % b.inUnits e, e⟩

end Binary

/-- The number that is none, the result of an operation without one. -/
def nan : Float :=
  Float.ofBits 0x7ff8000000000000

/-- The number past all finite ones. -/
def infinity : Float :=
  Float.ofBits 0x7ff0000000000000

/-- What a truncated division of `a` by `b` leaves. Division by zero and of an infinity leaves no
number; a finite number is smaller than an infinite divisor and stays as it is. -/
def remainder (a b : Float) : Float :=
  match Binary.ofFloat? a, Binary.ofFloat? b with
  | some x, some y => if y.significand = 0 then nan else (x.remainder y).toFloat
  | some _, none => if b == b then a else nan
  | none, _ => nan

end Stencil.Decimal
