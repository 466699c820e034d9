import Stencil.Toml.Text

/-!
# TOML dates and times

A date, a time of day, or both with an optional offset. They are kept as texts in one spelling:
a capital `T` between date and time, a capital `Z`, and the fraction of a second without trailing
zeros.

## Main definitions

* `Toml.date?`, `Toml.time?`, `Toml.offset?`: the parts.
* `Toml.moment?`: the date or time at the start of a text, respelled, and what follows it.
-/

namespace Stencil.Toml

/-- A number of exactly `n` digits that is at most `limit`, as it is written, and what follows
it. -/
def field? (n limit : Nat) (cs : List Char) : Option (List Char × List Char) :=
  let digits := cs.take n
  if digits.length = n ∧ digits.all Char.isDigit ∧ Numeral.value 10 digits ≤ limit then
    some (digits, cs.drop n)
  else none

/-- What follows a character. -/
def expect? (c : Char) : List Char → Option (List Char)
  | d :: cs => if c = d then some cs else none
  | [] => none

/-- The number of days of a month. -/
def daysIn (year month : Nat) : Nat :=
  if month = 2 then
    if year % 4 = 0 ∧ (year % 100 ≠ 0 ∨ year % 400 = 0) then 29 else 28
  else if month = 4 ∨ month = 6 ∨ month = 9 ∨ month = 11 then 30
  else 31

/-- A date, and what follows it. -/
def date? (cs : List Char) : Option (List Char × List Char) := do
  let (year, rest) ← field? 4 9999 cs
  let (month, rest) ← field? 2 12 (← expect? '-' rest)
  let (day, rest) ← field? 2 31 (← expect? '-' rest)
  let m := Numeral.value 10 month
  let d := Numeral.value 10 day
  if 1 ≤ m ∧ 1 ≤ d ∧ d ≤ daysIn (Numeral.value 10 year) m then
    return (year ++ '-' :: month ++ '-' :: day, rest)
  else none

/-- The fraction of a second to nine places, without trailing zeros, and what follows it. -/
def secondFraction? : List Char → Option (List Char × List Char)
  | '.' :: cs =>
    let digits := cs.takeWhile Char.isDigit
    if digits = [] then none
    else
      let kept := ((digits.take 9).reverse.dropWhile (· == '0')).reverse
      some (if kept = [] then [] else '.' :: kept, cs.drop digits.length)
  | cs => some ([], cs)

/-- A time of day, and what follows it. A point without digits belongs to what follows. -/
def time? (cs : List Char) : Option (List Char × List Char) := do
  let (hour, rest) ← field? 2 23 cs
  let (minute, rest) ← field? 2 59 (← expect? ':' rest)
  let (second, rest) ← field? 2 60 (← expect? ':' rest)
  let (fraction, rest) := (secondFraction? rest).getD ([], rest)
  return (hour ++ ':' :: minute ++ ':' :: second ++ fraction, rest)

/-- The offset of a time from universal time, and what follows it. The zero offset has a plus
sign. -/
def offset? : List Char → Option (List Char × List Char)
  | 'Z' :: cs | 'z' :: cs => some (['Z'], cs)
  | sign :: cs => do
    if sign ≠ '+' ∧ sign ≠ '-' then none
    let (hour, rest) ← field? 2 23 cs
    let (minute, rest) ← field? 2 59 (← expect? ':' rest)
    let zero := Numeral.value 10 (hour ++ minute) = 0
    return ((if zero then '+' else sign) :: hour ++ ':' :: minute, rest)
  | [] => none

/-- The time after a date with its offset, and what follows them; nothing when no time follows. -/
def timeOfDate (cs : List Char) : List Char × List Char :=
  match cs with
  | c :: rest =>
    if c = 'T' ∨ c = 't' ∨ c = ' ' then
      match time? rest with
      | some (time, rest) =>
        match offset? rest with
        | some (offset, rest) => ('T' :: time ++ offset, rest)
        | none => ('T' :: time, rest)
      | none => ([], cs)
    else ([], cs)
  | [] => ([], [])

/-- The date or time at the start of a text, respelled, and what follows it. -/
def moment? (cs : List Char) : Option (List Char × List Char) :=
  match date? cs with
  | some (date, rest) =>
    let (time, rest) := timeOfDate rest
    some (date ++ time, rest)
  | none => time? cs

end Stencil.Toml
