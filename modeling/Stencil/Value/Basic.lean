import Stencil.Decimal.Shortest
import Stencil.Entries

/-!
# Values

What a variable may hold and a condition may compute. Empty values count as false and are shown as
nothing.

## Main definitions

* `Value`: the dynamic values.
* `Value.isEmpty`, `Value.truthy`: which values count as nothing.
* `Value.display`: the text that stands for a value in the output.
* `Value.same`: equality of kind and content, for which no number that is none equals itself.
-/

namespace Stencil

/-- A dynamic value. The entries of a map are in increasing order of their keys. -/
inductive Value
  | null
  | bool (b : Bool)
  | int (n : Int64)
  | float (x : Float)
  | text (s : String)
  | list (items : List Value)
  | map (entries : List (String × Value))
  deriving Inhabited

namespace Value

/-- The values that count as false and are shown as nothing. Of the texts these are the empty one
and a lone zero. -/
def isEmpty : Value → Bool
  | null => true
  | bool b => !b
  | int n => n == 0
  | float x => x == 0
  | text s => s == "" || s == "0"
  | list items => items.isEmpty
  | map entries => entries.isEmpty

/-- The values that count as true. -/
def truthy (v : Value) : Bool :=
  !v.isEmpty

/-- Numbers are written out in full: no exponent, and no point in whole numbers. -/
def floatFormat : Decimal.Format where
  tie := .upward
  writtenOut _ := true
  wholeEnd := ""
  notANumber := "NaN"
  positiveInfinity := "inf"
  negativeInfinity := "-inf"

/-- The decimal text of an integer. -/
def intText (n : Int64) : String :=
  String.ofList (Numeral.decimal n.toInt)

/-- The text of a floating-point number. -/
def floatText (x : Float) : String :=
  String.ofList (floatFormat.write x)

mutual

/-- The text that stands for a value in the output. The items of a list and the values of a map
are joined by commas, the empty ones left out. -/
def display : Value → String
  | null => ""
  | bool b => if b then "1" else ""
  | int n => intText n
  | float x => floatText x
  | text s => s
  | list items => String.intercalate ", " (displayItems items)
  | map entries => String.intercalate ", " (displayEntries entries)

/-- The texts of the items that are not empty. -/
def displayItems : List Value → List String
  | [] => []
  | v :: vs => if v.truthy then v.display :: displayItems vs else displayItems vs

/-- The texts of the entries whose values are not empty. -/
def displayEntries : List (String × Value) → List String
  | [] => []
  | (_, v) :: es => if v.truthy then v.display :: displayEntries es else displayEntries es

end

mutual

/-- Whether two values are of one kind with the same content. -/
def same : Value → Value → Bool
  | null, null => true
  | bool a, bool b => a == b
  | int m, int n => m == n
  | float x, float y => x == y
  | text s, text t => s == t
  | list as, list bs => sameItems as bs
  | map as, map bs => sameEntries as bs
  | _, _ => false

/-- Whether two lists have the same items in the same order. -/
def sameItems : List Value → List Value → Bool
  | [], [] => true
  | a :: as, b :: bs => a.same b && sameItems as bs
  | _, _ => false

/-- Whether two maps have the same keys with the same values. -/
def sameEntries : List (String × Value) → List (String × Value) → Bool
  | [], [] => true
  | (j, a) :: as, (k, b) :: bs => j == k && a.same b && sameEntries as bs
  | _, _ => false

end

end Value

end Stencil
