import Stencil.Context
import Stencil.Program
import Stencil.Value.Lookup
import Stencil.Value.Operation

/-!
# Rendering

A program is rendered with the variables of a context. Rendering never fails: what a path does not
find counts as nothing, and operators that do not apply give the null value.

## Main definitions

* `Path.resolve?`: the value that a path finds.
* `Expr.eval`: the value of an expression.
* `Node.render`, `Program.render`: the text of nodes and of a program.

## Main results

* `Expr.evalRest_cons`: a step of a chain applies its operator.
-/

namespace Stencil

/-- The part of a value that a step leads to. -/
def Value.follow? (v : Value) : Path.Step → Option Value
  | .field name => v.atKey? name
  | .entry name => v.atKey? name
  | .position i => v.atIndex? i

/-- The part of a value that some steps lead to. -/
def Value.followAll? (v : Value) : List Path.Step → Option Value
  | [] => some v
  | s :: steps => (v.follow? s).bind (·.followAll? steps)

/-- The value that a path finds. -/
def Path.resolve? (p : Path) (context : Context) : Option Value :=
  (context.get? p.base).bind (·.followAll? p.steps)

namespace Expr

mutual

/-- The value of an expression. -/
def eval (context : Context) : Expr → Value
  | path p => (p.resolve? context).getD .null
  | literal v => v
  | group inner => inner.eval context
  | call f (some arg) => Value.call f (arg.eval context)
  | call f none => Value.call f .null
  | unary op operand => Value.unary op (operand.eval context)
  | chain first rest => evalRest context (first.eval context) rest

/-- The value of what has been computed so far followed by operators and operands. The logical
operators look at their second operand only if the first one does not decide, and a comma forgets
what is before it. -/
def evalRest (context : Context) (acc : Value) : List (BinaryOp × Expr) → Value
  | [] => acc
  | (op, e) :: rest =>
    let next := match op with
      | .and => if acc.truthy then .bool (e.eval context).truthy else .bool false
      | .or => if acc.truthy then .bool true else .bool (e.eval context).truthy
      | .comma => e.eval context
      | _ => Value.binary op acc (e.eval context)
    evalRest context next rest

end

/-- The logical operators and the comma compute the same whether their second operand is looked at
or not. -/
theorem evalRest_cons (context : Context) (acc : Value) (op : BinaryOp) (e : Expr)
    (rest : List (BinaryOp × Expr)) :
    evalRest context acc ((op, e) :: rest) =
      evalRest context (Value.binary op acc (e.eval context)) rest := by
  cases op with
  | and => rw [evalRest, Value.binary]; cases acc.truthy <;> rfl
  | or => rw [evalRest, Value.binary]; cases acc.truthy <;> rfl
  | _ => rfl

end Expr

namespace Node

/-- The text of a variable: an empty value is shown as nothing. -/
def showValue : Option Value → String
  | some v => if v.truthy then v.display else ""
  | none => ""

mutual

/-- The text of a node. -/
def render (context : Context) : Node → String
  | text s => s
  | .variable p => showValue (p.resolve? context)
  | conditional branches otherwise =>
    (renderBranches context branches).getD (renderElse context otherwise)

/-- The text of a sequence of nodes. -/
def renderList (context : Context) : List Node → String
  | [] => ""
  | node :: nodes => node.render context ++ renderList context nodes

/-- The text of the first branch whose test is true. -/
def renderBranches (context : Context) : List (Expr × List Node) → Option String
  | [] => none
  | (test, body) :: branches =>
    if (test.eval context).truthy then some (renderList context body)
    else renderBranches context branches

/-- The text of an else part, if there is one. -/
def renderElse (context : Context) : Option (List Node) → String
  | some body => renderList context body
  | none => ""

end

end Node

/-- The text of a program. -/
def Program.render (p : Program) (context : Context) : String :=
  Node.renderList context p.nodes

/-- The text of a template, or all diagnostics of a compile that failed. -/
def render (d : Delimiters) (context : Context) (template : String) : Except Log String := do
  return (← Program.compile d template).render context

end Stencil
