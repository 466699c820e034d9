import Stencil.Expr
import Stencil.Token
import Stencil.Value.Number

/-!
# Building expressions

The tokens of a condition are read by descent: a sequence is an operand followed by operators with
their operands, and an operand is a path, a literal, a group, a call or a unary operator with the
operand after it.

## Main definitions

* `Condition.operand?`, `Condition.sequence?`: an operand or a sequence at the start of the tokens,
  and the tokens after it.
* `Condition.build?`: the expression that all the tokens spell.
-/

namespace Stencil.Condition

/-- The tokens after one of the given kind. -/
def skip? (kind : Token.Kind) : List Token → Option (List Token)
  | t :: ts => if t.kind = kind then some ts else none
  | [] => none

/-- The expression of a token that is an operand on its own. -/
def single? (t : Token) : Option Expr :=
  match t.kind with
  | .path => (Path.compile? t.text).map .path
  | .quoted => some (.literal (.text (String.ofList (Text.unquote t.text))))
  | .number => (Value.ofNumeral? t.text).map .literal
  | .truth => some (.literal (.bool (t.symbol == "true")))
  | _ => none

/-- An operand followed by operators with their operands; without any it stands alone. -/
def joined (first : Expr) (rest : List (BinaryOp × Expr)) : Expr :=
  if rest.isEmpty then first else .chain first rest

mutual

/-- The operand at the start of the tokens. The first argument bounds the number of steps. -/
def operand? : Nat → List Token → Option (Expr × List Token)
  | 0, _ | _, [] => none
  | n + 1, t :: ts =>
    match t.kind with
    | .unary => do
      let op ← UnaryOp.ofSymbol? t.symbol
      let (e, ts) ← operand? n ts
      return (.unary op e, ts)
    | .openParen => do
      let (e, ts) ← sequence? n ts
      return (.group e, ← skip? .closeParen ts)
    | .word => do
      let f ← Function.ofName? t.symbol
      let ts ← skip? .openParen ts
      match skip? .closeParen ts with
      | some ts => return (.call f none, ts)
      | none =>
        let (e, ts) ← sequence? n ts
        return (.call f (some e), ← skip? .closeParen ts)
    | _ => do return (← single? t, ts)

/-- The sequence at the start of the tokens. -/
def sequence? : Nat → List Token → Option (Expr × List Token)
  | 0, _ => none
  | n + 1, ts => do
    let (first, ts) ← operand? n ts
    let (rest, ts) ← operations? n ts
    return (joined first rest, ts)

/-- The operators and their operands at the start of the tokens. -/
def operations? : Nat → List Token → Option (List (BinaryOp × Expr) × List Token)
  | 0, _ => none
  | _, [] => some ([], [])
  | n + 1, t :: ts =>
    if t.kind = .binary then do
      let op ← BinaryOp.ofSymbol? t.symbol
      let (e, ts) ← operand? n ts
      let (rest, ts) ← operations? n ts
      return ((op, e) :: rest, ts)
    else some ([], t :: ts)

end

/-- The expression that all the tokens spell. Each step takes a token or enters a part, so twice
as many steps as tokens are enough. -/
def build? (ts : List Token) : Option Expr :=
  match sequence? (2 * ts.length + 2) ts with
  | some (e, []) => some e
  | _ => none

end Stencil.Condition
