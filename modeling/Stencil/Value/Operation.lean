import Stencil.Operator
import Stencil.Text.LetterCase
import Stencil.Value.Compare

/-!
# Operations on values

What the operators and functions of conditions compute. No operation fails: one that does not apply
to its operands gives the null value. Integer arithmetic is exact, and where the exact result is no
integer of 64 bits it widens to floating point; only the remainder stays with integers.

## Main definitions

* `Value.binary`: the operators between two operands.
* `Value.arithmetic`, `Value.bitwise`: its numeric part on numbers and on integers.
* `Value.call`: the functions.
-/

namespace Stencil.Value

/-- The quotient of two integers when it is exact. -/
def exactQuotient? (a b : Int64) : Option Int64 :=
  if a.toInt.tmod b.toInt = 0 then Numeral.word? (a.toInt.tdiv b.toInt) else none

/-- The remainder of a truncated division of two integers. The smallest integer has no remainder by
minus one, because their quotient does not fit. -/
def remainder? (a b : Int64) : Option Int64 :=
  if b = 0 ∨ (Numeral.word? (a.toInt.tdiv b.toInt)).isNone then none
  else some (Int64.ofInt (a.toInt.tmod b.toInt))

/-- Arithmetic on floating-point numbers. -/
def floatArithmetic (op : BinaryOp) (x y : Float) : Value :=
  match op with
  | .add => float (x + y)
  | .sub => float (x - y)
  | .mul => float (x * y)
  | .div => if y == 0 then null else float (x / y)
  | .mod => if y == 0 then null else float (Decimal.remainder x y)
  | _ => null

/-- A result in the integers, or the same operation in floating point without one. -/
def exactOr (op : BinaryOp) (a b : Int64) : Option Int64 → Value
  | some n => int n
  | none => floatArithmetic op (Number.int a).toFloat (Number.int b).toFloat

/-- Arithmetic on integers. -/
def intArithmetic (op : BinaryOp) (a b : Int64) : Value :=
  match op with
  | .add => exactOr op a b (Numeral.word? (a.toInt + b.toInt))
  | .sub => exactOr op a b (Numeral.word? (a.toInt - b.toInt))
  | .mul => exactOr op a b (Numeral.word? (a.toInt * b.toInt))
  | .div => if b = 0 then null else exactOr op a b (exactQuotient? a b)
  | .mod => ((remainder? a b).map int).getD null
  | _ => null

/-- Arithmetic on numbers. -/
def arithmetic (op : BinaryOp) : Number → Number → Value
  | .int a, .int b => intArithmetic op a b
  | a, b => floatArithmetic op a.toFloat b.toFloat

/-- A shift by an amount below the width of a word. -/
def shift? (by' : Int64 → Int64 → Int64) (a b : Int64) : Option Int64 :=
  if 0 ≤ b.toInt ∧ b.toInt < 64 then some (by' a b) else none

/-- Operations on the bits of integers. -/
def bitwise (op : BinaryOp) (a b : Int64) : Value :=
  match op with
  | .bitAnd => int (a &&& b)
  | .bitOr => int (a ||| b)
  | .bitXor => int (a ^^^ b)
  | .shiftLeft => ((shift? (· <<< ·) a b).map int).getD null
  | .shiftRight => ((shift? (· >>> ·) a b).map int).getD null
  | _ => null

/-- Arithmetic on values that can be read as numbers. -/
def onNumbers (op : BinaryOp) (a b : Value) : Value :=
  match a.number?, b.number? with
  | some x, some y => arithmetic op x y
  | _, _ => null

/-- Bit operations on values that are exact integers. -/
def onInts (op : BinaryOp) (a b : Value) : Value :=
  match a.int?, b.int? with
  | some x, some y => bitwise op x y
  | _, _ => null

/-- What an operator makes of two operands. -/
def binary (op : BinaryOp) (a b : Value) : Value :=
  match op with
  | .eq => bool (a.looseEq b)
  | .ne => bool !(a.looseEq b)
  | .strictEq => bool (a.same b)
  | .strictNe => bool !(a.same b)
  | .lt => bool ((a.compare? b).any (·.isLT))
  | .gt => bool ((a.compare? b).any (·.isGT))
  | .le => bool ((a.compare? b).any (·.isLE))
  | .ge => bool ((a.compare? b).any (·.isGE))
  | .add | .sub | .mul | .div | .mod => onNumbers op a b
  | .bitAnd | .bitOr | .bitXor | .shiftLeft | .shiftRight => onInts op a b
  | .and => bool (a.truthy && b.truthy)
  | .or => bool (a.truthy || b.truthy)
  | .comma => b

/-- What an operator makes of the operand after it. -/
def unary (op : UnaryOp) (v : Value) : Value :=
  match op with
  | .silence => v
  | .not => bool !v.truthy
  | .bitNot => (v.int?.map fun n ↦ int (~~~n)).getD null

/-- The number of items, of entries, or of characters in the text of any other value. -/
def size : Value → Nat
  | null => 0
  | list items => items.length
  | map entries => entries.length
  | v => v.display.length

/-- What a function makes of its argument. -/
def call (f : Function) (v : Value) : Value :=
  match f with
  | .length => int (Int64.ofNat (min v.size 0x7fffffffffffffff))
  | .uppercase => text (String.ofList (Text.uppercase v.display.toList))
  | .lowercase => text (String.ofList (Text.lowercase v.display.toList))

end Stencil.Value
