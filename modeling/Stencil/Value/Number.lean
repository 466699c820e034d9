import Stencil.Decimal.Reader
import Stencil.Text.Blank
import Stencil.Value.Basic

/-!
# Numbers in values

A value may be read as a number: numbers as themselves, truth values and the null value as one and
zero, and texts that spell a number. The literals of templates have a grammar of their own, which
knows hexadecimal digits.

## Main definitions

* `Number`: an integer of 64 bits or a floating-point number.
* `Value.number?`, `Value.int?`: a value read as a number, or as an exact integer.
* `Value.isNumeric`: the numbers and the texts that spell one.
* `Value.ofNumeral?`: the value of a number literal.
-/

namespace Stencil

/-- An integer of 64 bits or a floating-point number. -/
inductive Number
  | int (n : Int64)
  | float (x : Float)

namespace Number

/-- The nearest floating-point number. -/
def toFloat : Number → Float
  | int n => Float.ofInt n.toInt
  | float x => x

/-- The integer that a number is exactly. A floating-point number must be smaller than `2 ^ 63`
in size. -/
def int? : Number → Option Int64
  | int n => some n
  | float x => do
    let n ← (← Decimal.Binary.ofFloat? x).toInt?
    if n.natAbs < 0x8000000000000000 then some (Int64.ofInt n) else none

/-- The number that a text spells, blanks at its ends aside. Words for infinity spell none here. -/
def ofText? (s : String) : Option Number :=
  let cs := Text.trim s.toList
  match Numeral.integer? cs with
  | some n => some (int n)
  | none =>
    if cs ≠ [] ∧ cs.all fun c ↦ c.isDigit || ['.', '-', '+', 'e', 'E'].contains c then
      (Decimal.read? cs).map float
    else none

end Number

namespace Value

/-- A value read as a number. -/
def number? : Value → Option Number
  | null => some (.int 0)
  | bool b => some (.int (if b then 1 else 0))
  | int n => some (.int n)
  | float x => some (.float x)
  | text s => Number.ofText? s
  | list _ | map _ => none

/-- Whether a value is a number or a text that spells one. -/
def isNumeric : Value → Bool
  | int _ | float _ => true
  | text s => (Number.ofText? s).isSome
  | _ => false

/-- The integer that a value is exactly. -/
def int? (v : Value) : Option Int64 :=
  v.number?.bind Number.int?

/-- The number that hexadecimal digits stand for, computed in floating point digit by digit. -/
def wideHexadecimal? (cs : List Char) : Option Float :=
  if cs ≠ [] ∧ cs.all Numeral.isHexDigit then
    some (cs.foldl (fun x c ↦ x * 16 + Float.ofNat (Numeral.digitValue c)) 0)
  else none

/-- The value of a hexadecimal literal after its `0x`. Past the range of integers it widens to a
floating-point number. -/
def ofHexadecimal? (negative : Bool) (cs : List Char) : Option Value :=
  match Numeral.hexadecimal? cs with
  | some n => some (int (if negative then -n else n))
  | none => (wideHexadecimal? cs).map fun x ↦ float (if negative then -x else x)

/-- The value of a literal without hexadecimal digits: an integer if it has no point and fits, else
a floating-point number. -/
def ofDecimal? (cs : List Char) : Option Value :=
  match if cs.contains '.' then none else Numeral.integer? cs with
  | some n => some (int n)
  | none => (Decimal.read? cs).map float

/-- What follows the `0x` of a literal that starts with one. -/
def hexadecimalPart? : List Char → Option (List Char)
  | '0' :: c :: cs => if c = 'x' ∨ c = 'X' then some cs else none
  | _ => none

/-- The value of a number literal, such as `12`, `-3.5`, `.5` or `0x1f`. -/
def ofNumeral? (cs : List Char) : Option Value :=
  let (negative, unsigned) := match cs with
    | '-' :: rest => (true, rest)
    | _ => (false, cs)
  match hexadecimalPart? unsigned with
  | some hex => ofHexadecimal? negative hex
  | none => ofDecimal? cs

end Value

end Stencil
