import Stencil.Toml.Text
import Stencil.Value.Basic
import Stencil.Decimal.Reader

/-!
# TOML numbers

Integers may be written in four bases and have underscores between their digits. Those that do not
fit a signed word are refused, and so are floating-point numbers past the largest one.

## Main definitions

* `Toml.digits?`: digits with single underscores between them.
* `Toml.float?`, `Toml.integer?`: the number at the start of a text, and what follows it.
-/

namespace Stencil.Toml

/-- Digits after at least one other, each of them after at most one underscore, and what follows
them. An underscore without a digit after it is refused. -/
def moreDigits? (isDigit : Char → Bool) : List Char → Option (List Char × List Char)
  | '_' :: c :: cs => if isDigit c then before [c] (moreDigits? isDigit cs) else none
  | ['_'] => none
  | c :: cs => if isDigit c then before [c] (moreDigits? isDigit cs) else some ([], c :: cs)
  | [] => some ([], [])

/-- At least one digit with single underscores between the digits, and what follows them. -/
def digits? (isDigit : Char → Bool) : List Char → Option (List Char × List Char)
  | c :: cs => if isDigit c then before [c] (moreDigits? isDigit cs) else none
  | [] => none

/-- The sign at the start of a text, if there is one, and what follows it. -/
def splitSign : List Char → List Char × List Char
  | '+' :: cs => (['+'], cs)
  | '-' :: cs => (['-'], cs)
  | cs => ([], cs)

/-- A decimal integer with its sign and without its underscores, and what follows it. A leading
zero stands alone. -/
def decimal? (cs : List Char) : Option (List Char × List Char) :=
  let (sign, rest) := splitSign cs
  match rest with
  | '0' :: rest => some (sign ++ ['0'], rest)
  | rest => before sign (digits? Char.isDigit rest)

/-- The exponent at the start of a text, and what follows it. -/
def exponent? : List Char → Option (List Char × List Char)
  | c :: cs =>
    if c = 'e' ∨ c = 'E' then
      let (sign, rest) := splitSign cs
      before ('e' :: sign) (digits? Char.isDigit rest)
    else none
  | [] => none

/-- A point with digits and possibly an exponent, or an exponent alone, and what follows. -/
def floatTail? : List Char → Option (List Char × List Char)
  | '.' :: cs => do
    let (fraction, rest) ← digits? Char.isDigit cs
    match rest with
    | c :: _ =>
      if c = 'e' ∨ c = 'E' then before ('.' :: fraction) (exponent? rest)
      else some ('.' :: fraction, rest)
    | [] => some ('.' :: fraction, [])
  | cs => exponent? cs

/-- The floating-point number with digits at the start of a text, and what follows it. Numbers past
the largest one are refused when they are positive. -/
def plainFloat? (cs : List Char) : Option (Float × List Char) := do
  let (whole, rest) ← decimal? cs
  let (tail, rest) ← floatTail? rest
  let x ← Decimal.read? (whole ++ tail)
  if x == Decimal.infinity then none else some (x, rest)

/-- The words for infinity and for no number, with an optional sign, and what follows them. -/
def specialFloat? (cs : List Char) : Option (Float × List Char) :=
  let (sign, rest) := splitSign cs
  let signed (x : Float) : Float := if sign = ['-'] then -x else x
  match rest with
  | 'i' :: 'n' :: 'f' :: rest => some (signed Decimal.infinity, rest)
  | 'n' :: 'a' :: 'n' :: rest => some (signed Decimal.nan, rest)
  | _ => none

/-- The floating-point number at the start of a text, and what follows it. -/
def float? (cs : List Char) : Option (Float × List Char) :=
  (plainFloat? cs).or (specialFloat? cs)

/-- Digits in another base, and what follows them. -/
def based? (isDigit : Char → Bool) (base : Nat) (cs : List Char) : Option (Int64 × List Char) := do
  let (digits, rest) ← digits? isDigit cs
  return (← Numeral.word? (Numeral.value base digits), rest)

/-- The integer at the start of a text, and what follows it. -/
def integer? : List Char → Option (Int64 × List Char)
  | '0' :: 'x' :: cs => based? Numeral.isHexDigit 16 cs
  | '0' :: 'o' :: cs => based? (fun c ↦ '0' ≤ c && c ≤ '7') 8 cs
  | '0' :: 'b' :: cs => based? (fun c ↦ c == '0' || c == '1') 2 cs
  | cs => do
    let (digits, rest) ← decimal? cs
    return (← Numeral.integer? digits, rest)

end Stencil.Toml
