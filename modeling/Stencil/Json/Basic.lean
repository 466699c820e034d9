import Stencil.Decimal.Reader

/-!
# JSON documents

The values that a JSON text spells, the fields of objects in their written order. Integers and
floating-point numbers are told apart: a number with neither a point nor an exponent is an integer
as far as a word of 64 bits holds it.

## Main definitions

* `Json`: the documents.
* `Json.depth`: how deeply arrays and objects are nested.
* `Json.write`: the text of a document, without blanks.

## Main results

* `Json.writeBefore_eq`: what follows a document does not change its text.
-/

namespace Stencil

/-- A JSON document. -/
inductive Json
  | null
  | bool (b : Bool)
  | int (n : Int)
  | float (x : Float)
  | text (s : String)
  | list (items : List Json)
  | object (fields : List (String × Json))
  /-- A well-formed string or number that stands for no text or no number, or an object with such a
  name. It may only stand where it is ignored. -/
  | unreadable

namespace Json

mutual

/-- The number of arrays and objects around the innermost value. -/
def depth : Json → Nat
  | list items => depthItems items + 1
  | object fields => depthFields fields + 1
  | _ => 0

/-- The greatest depth of some items. -/
def depthItems : List Json → Nat
  | [] => 0
  | j :: js => max j.depth (depthItems js)

/-- The greatest depth of the values of some fields. -/
def depthFields : List (String × Json) → Nat
  | [] => 0
  | (_, j) :: fields => max j.depth (depthFields fields)

end

/-- Whole numbers end in `.0`, and numbers from `1e16` up and below `1e-5` have an exponent. What
is no finite number is written as null. -/
def floatFormat : Decimal.Format where
  tie := .toEven
  writtenOut point := -5 < point && point ≤ 16
  wholeEnd := ".0"
  notANumber := "null"
  positiveInfinity := "null"
  negativeInfinity := "null"

/-- A control character by its number in four hexadecimal digits. -/
def writeControl (c : Char) : List Char :=
  let digits := Numeral.digits 16 c.toNat
  ['\\', 'u'] ++ List.replicate (4 - digits.length) '0' ++ digits

/-- A character as it is written in a string. -/
def writeChar (c : Char) : List Char :=
  if c = '"' ∨ c = '\\' then ['\\', c]
  else if c = '\x08' then ['\\', 'b']
  else if c = '\x0c' then ['\\', 'f']
  else if c = '\n' then ['\\', 'n']
  else if c = '\r' then ['\\', 'r']
  else if c = '\t' then ['\\', 't']
  else if c.toNat < 0x20 then writeControl c
  else [c]

/-- A text as a string. -/
def writeText (s : String) : List Char :=
  '"' :: s.toList.flatMap writeChar ++ ['"']

mutual

/-- The text of a document, without blanks, in front of what follows it. -/
def writeBefore (rest : List Char) : Json → List Char
  | null | unreadable => "null".toList ++ rest
  | bool b => (if b then "true" else "false").toList ++ rest
  | int n => Numeral.decimal n ++ rest
  | float x => floatFormat.write x ++ rest
  | text s => writeText s ++ rest
  | list [] => '[' :: ']' :: rest
  | list (j :: js) => '[' :: j.writeBefore (writeItems rest js)
  | object [] => '\x7b' :: '\x7d' :: rest
  | object ((name, j) :: fields) =>
    '\x7b' :: writeText name ++ ':' :: j.writeBefore (writeFields rest fields)

/-- The items after the first, the closing bracket, and what follows it. -/
def writeItems (rest : List Char) : List Json → List Char
  | [] => ']' :: rest
  | j :: js => ',' :: j.writeBefore (writeItems rest js)

/-- The fields after the first, the closing brace, and what follows it. -/
def writeFields (rest : List Char) : List (String × Json) → List Char
  | [] => '\x7d' :: rest
  | (name, j) :: fields => ',' :: writeText name ++ ':' :: j.writeBefore (writeFields rest fields)

end

/-- The text of a document, without blanks. -/
def write (j : Json) : List Char :=
  j.writeBefore []

mutual

theorem writeBefore_append (rest more : List Char) :
    ∀ j : Json, j.writeBefore (rest ++ more) = j.writeBefore rest ++ more
  | null | unreadable | bool _ | int _ | float _ | text _ | list [] | object [] => by
    simp [writeBefore]
  | list (j :: js) => by
    simp [writeBefore, writeItems_append rest more js,
      writeBefore_append (writeItems rest js) more j]
  | object ((_, j) :: fields) => by
    simp [writeBefore, writeFields_append rest more fields,
      writeBefore_append (writeFields rest fields) more j]

theorem writeItems_append (rest more : List Char) :
    ∀ js : List Json, writeItems (rest ++ more) js = writeItems rest js ++ more
  | [] => by simp [writeItems]
  | j :: js => by
    simp [writeItems, writeItems_append rest more js,
      writeBefore_append (writeItems rest js) more j]

theorem writeFields_append (rest more : List Char) :
    ∀ fields : List (String × Json),
      writeFields (rest ++ more) fields = writeFields rest fields ++ more
  | [] => by simp [writeFields]
  | (_, j) :: fields => by
    simp [writeFields, writeFields_append rest more fields,
      writeBefore_append (writeFields rest fields) more j]

end

/-- What follows a document does not change its text. -/
theorem writeBefore_eq (j : Json) (rest : List Char) : j.writeBefore rest = j.write ++ rest :=
  writeBefore_append [] rest j

end Json

end Stencil
