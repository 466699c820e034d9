/-!
# Operators and functions

The words of conditions that compute something. Each operator has one symbol that it is written
with; inequality is also read from a second one.

## Main definitions

* `BinaryOp`, `UnaryOp`, `Function`: the closed sets of operators and functions.
* `BinaryOp.symbol`, `UnaryOp.symbol`, `Function.name`: how they are written.
* `BinaryOp.ofSymbol?`, `UnaryOp.ofSymbol?`, `Function.ofName?`: how they are read.
-/

namespace Stencil

/-- The operators between two operands. -/
inductive BinaryOp
  | strictEq
  | strictNe
  | eq
  | ne
  | shiftLeft
  | shiftRight
  | le
  | ge
  | and
  | or
  | comma
  | bitXor
  | bitOr
  | bitAnd
  | lt
  | gt
  | mod
  | add
  | sub
  | div
  | mul
  deriving DecidableEq, Repr

namespace BinaryOp

/-- All operators between two operands. -/
def all : List BinaryOp :=
  [strictEq, strictNe, eq, ne, shiftLeft, shiftRight, le, ge, and, or, comma, bitXor, bitOr,
    bitAnd, lt, gt, mod, add, sub, div, mul]

/-- The symbol an operator is written with. -/
def symbol : BinaryOp → String
  | strictEq => "==="
  | strictNe => "!=="
  | eq => "=="
  | ne => "!="
  | shiftLeft => "<<"
  | shiftRight => ">>"
  | le => "<="
  | ge => ">="
  | and => "&&"
  | or => "||"
  | comma => ","
  | bitXor => "^"
  | bitOr => "|"
  | bitAnd => "&"
  | lt => "<"
  | gt => ">"
  | mod => "%"
  | add => "+"
  | sub => "-"
  | div => "/"
  | mul => "*"

/-- The operator that a symbol denotes; `<>` is a second symbol for inequality. -/
def ofSymbol? (s : String) : Option BinaryOp :=
  if s = "<>" then some ne else all.find? (·.symbol = s)

theorem ofSymbol?_symbol (op : BinaryOp) : ofSymbol? op.symbol = some op := by
  cases op <;> decide

end BinaryOp

/-- The operators in front of one operand. -/
inductive UnaryOp
  /-- Inverts every bit of an integer. -/
  | bitNot
  /-- Inverts truth. -/
  | not
  /-- Leaves its operand as it is. -/
  | silence
  deriving DecidableEq, Repr

namespace UnaryOp

/-- All operators in front of one operand. -/
def all : List UnaryOp :=
  [bitNot, not, silence]

/-- The symbol an operator is written with. -/
def symbol : UnaryOp → String
  | bitNot => "~"
  | not => "!"
  | silence => "@"

/-- The operator that a symbol denotes. -/
def ofSymbol? (s : String) : Option UnaryOp :=
  all.find? (·.symbol = s)

theorem ofSymbol?_symbol (op : UnaryOp) : ofSymbol? op.symbol = some op := by
  cases op <;> decide

end UnaryOp

/-- The functions that a condition may call. -/
inductive Function
  | length
  | uppercase
  | lowercase
  deriving DecidableEq, Repr

namespace Function

/-- All functions. -/
def all : List Function :=
  [length, uppercase, lowercase]

/-- The name a function is written with. -/
def name : Function → String
  | length => "length"
  | uppercase => "uppercase"
  | lowercase => "lowercase"

/-- The function that a name denotes in any letter case. -/
def ofName? (s : String) : Option Function :=
  all.find? (·.name = s.map Char.toLower)

end Function

end Stencil
