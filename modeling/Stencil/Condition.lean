import Stencil.Condition.Build
import Stencil.Condition.Grammar
import Stencil.Condition.Nesting

/-!
# Conditions

The condition of a tag is taken from the source up to the right delimiter, checked against the
grammar and the limit of nesting, and built into an expression. A condition without a right
delimiter, without tokens or with unbalanced parentheses stops the compile; any other fault is
reported and leaves the tag as text.

## Main definitions

* `Condition.Outcome`: what became of a condition.
* `Condition.compile`: the condition at a place of the source, and what there is to say about it.
-/

namespace Stencil.Condition

/-- What became of a condition. -/
inductive Outcome
  /-- The expression and the place after the right delimiter. -/
  | accepted (e : Expr) (next : Text.Cursor)
  /-- The tag is left as text. -/
  | rejected
  /-- The compile stops. -/
  | halted

/-- The number of tokens of a kind. -/
def count (kind : Token.Kind) (ts : List Token) : Nat :=
  ts.countP (·.kind = kind)

/-- The byte offset after the last token, or the start when there is none. -/
def bodyEnd (start : Nat) (ts : List Token) : Nat :=
  (ts.getLast?.map Token.stop).getD start

/-- The tokens of a condition that is closed, not empty and balanced. -/
def compileBody (start : Nat) (body : List Token) (next : Text.Cursor) : Outcome × Log :=
  let (tokens, notes) := check .start body
  if Log.hasErrors notes then (.rejected, notes)
  else
    match tooDeep? .start tokens with
    | some t => (.rejected, notes.record (fault .nestedTooDeep t))
    | none =>
      match build? tokens with
      | some e => (.accepted e next, notes)
      | none =>
        let unknown := { Fault.unknownExpression.locate start with
          message := "Unknown expression in if statement at position " ++ toString start }
        (.rejected, notes.record unknown)

/-- The condition at a place of the source. -/
def compile (right : List Char) (start : Text.Cursor) : Outcome × Log :=
  let (tokens, next) := Token.scan right start
  let body := tokens.takeWhile (·.kind ≠ .close)
  if tokens.all (·.kind ≠ .close) then
    (.halted, Log.halt [] (Fault.ifUnclosed.locate start.offset))
  else if body = [] then
    (.halted, Log.halt [] (Fault.ifEmpty.locate start.offset))
  else if count .openParen body ≠ count .closeParen body then
    (.halted, Log.halt [] (Fault.unbalancedParens.locate (bodyEnd start.offset body)))
  else compileBody start.offset body next

end Stencil.Condition
