import Stencil.Operator
import Stencil.Path
import Stencil.Value.Basic

/-!
# Expressions

A condition is a flat sequence of operands and operators, applied strictly from left to right: no
operator binds more tightly than another, and only parentheses group.

## Main definitions

* `Expr`: the expressions.
* `Expr.write`: the text of an expression, as it would stand in a tag.
* `Expr.depth`: how deeply groups, calls and unary operators are nested.
* `Expr.same`: equality of expressions, numbers being compared as numbers.
-/

namespace Stencil

/-- An expression. -/
inductive Expr
  | path (p : Path)
  | literal (v : Value)
  | call (f : Function) (arg : Option Expr)
  | unary (op : UnaryOp) (operand : Expr)
  /-- Operands joined by operators, applied from left to right. -/
  | chain (first : Expr) (rest : List (BinaryOp × Expr))
  | group (inner : Expr)

namespace Expr

/-- The text of a literal. -/
def writeLiteral : Value → List Char
  | .text s => Text.quote s.toList
  | .bool b => (if b then "true" else "false").toList
  | v => v.display.toList

mutual

/-- The text of an expression. -/
def write : Expr → List Char
  | path p => p.write
  | literal v => writeLiteral v
  | call f (some arg) => f.name.toList ++ '(' :: arg.write ++ [')']
  | call f none => f.name.toList ++ ['(', ')']
  | unary op operand => op.symbol.toList ++ operand.write
  | chain first rest => first.write ++ writeRest rest
  | group inner => '(' :: inner.write ++ [')']

/-- The text of the operators and operands after the first. -/
def writeRest : List (BinaryOp × Expr) → List Char
  | [] => []
  | (op, e) :: rest => ' ' :: op.symbol.toList ++ ' ' :: e.write ++ writeRest rest

end

mutual

/-- The number of groups, calls and unary operators around the innermost operand. -/
def depth : Expr → Nat
  | path _ => 0
  | literal _ => 0
  | call _ (some arg) => arg.depth + 1
  | call _ none => 1
  | unary _ operand => operand.depth + 1
  | chain first rest => max first.depth (depthRest rest)
  | group inner => inner.depth + 1

/-- The greatest depth of the operands after the first. -/
def depthRest : List (BinaryOp × Expr) → Nat
  | [] => 0
  | (_, e) :: rest => max e.depth (depthRest rest)

end

mutual

/-- Whether two expressions are equal, their literals compared as values. -/
def same : Expr → Expr → Bool
  | path p, path q => p == q
  | literal v, literal w => v.same w
  | call f (some a), call g (some b) => f == g && a.same b
  | call f none, call g none => f == g
  | unary op a, unary op' b => op == op' && a.same b
  | chain a as, chain b bs => a.same b && sameRest as bs
  | group a, group b => a.same b
  | _, _ => false

/-- Whether two lists of operators and operands are equal. -/
def sameRest : List (BinaryOp × Expr) → List (BinaryOp × Expr) → Bool
  | [], [] => true
  | (op, a) :: as, (op', b) :: bs => op == op' && a.same b && sameRest as bs
  | _, _ => false

end

end Expr

end Stencil
