/-!
# Numerals

Whole numbers as digits, most significant first, in any base up to sixteen; and the readers for
the integers that fit 64 bits.

## Main definitions

* `Numeral.digits`, `Numeral.decimal`: the digits of a natural number, the text of an integer.
* `Numeral.value`: the number that digits stand for.
* `Numeral.natural?`, `Numeral.integer?`, `Numeral.index?`: digits alone, with a sign and in the
  range of a signed word, as a position.
-/

namespace Stencil.Numeral

/-- The digits of a number in a base between two and sixteen. -/
def digits (base n : Nat) : List Char :=
  if _h : 2 ≤ base ∧ base ≤ n then
    digits base (n / base) ++ [Nat.digitChar (n % base)]
  else
    [Nat.digitChar n]
termination_by n
decreasing_by exact Nat.div_lt_self (by omega) (by omega)

/-- The decimal text of an integer. -/
def decimal : Int → List Char
  | .ofNat n => digits 10 n
  | .negSucc n => '-' :: digits 10 (n + 1)

/-- The value of a digit, letters of either case standing for ten to fifteen. -/
def digitValue (c : Char) : Nat :=
  if c.isDigit then c.toNat - '0'.toNat
  else if 'a' ≤ c ∧ c ≤ 'f' then c.toNat - 'a'.toNat + 10
  else c.toNat - 'A'.toNat + 10

/-- Whether a character is a digit in base sixteen. -/
def isHexDigit (c : Char) : Bool :=
  c.isDigit || ('a' ≤ c && c ≤ 'f') || ('A' ≤ c && c ≤ 'F')

/-- The number that digits stand for. -/
def value (base : Nat) (cs : List Char) : Nat :=
  cs.foldl (fun n c ↦ n * base + digitValue c) 0

/-- One digit or more, and nothing else. -/
def natural? (isDigit : Char → Bool) (base : Nat) (cs : List Char) : Option Nat :=
  if cs ≠ [] ∧ cs.all isDigit then some (value base cs) else none

/-- An integer when it fits a signed word of 64 bits. -/
def word? (n : Int) : Option Int64 :=
  if -0x8000000000000000 ≤ n ∧ n < 0x8000000000000000 then some (Int64.ofInt n) else none

/-- An optional sign and digits in the given base that fit a signed word. -/
def signed? (isDigit : Char → Bool) (base : Nat) : List Char → Option Int64
  | '-' :: cs => do word? (-(← natural? isDigit base cs : Nat))
  | '+' :: cs => do word? (← natural? isDigit base cs : Nat)
  | cs => do word? (← natural? isDigit base cs : Nat)

/-- An optional sign and decimal digits that fit a signed word. -/
def integer? : List Char → Option Int64 :=
  signed? Char.isDigit 10

/-- An optional sign and hexadecimal digits that fit a signed word. -/
def hexadecimal? : List Char → Option Int64 :=
  signed? isHexDigit 16

/-- A position in a list: decimal digits, at most after a plus sign, that fit an unsigned word. -/
def index? (cs : List Char) : Option Nat := do
  let digits := match cs with
    | '+' :: rest => rest
    | _ => cs
  let n ← natural? Char.isDigit 10 digits
  if n < 0x10000000000000000 then some n else none

end Stencil.Numeral
