import Stencil.Token

/-!
# Nesting of conditions

Groups, calls and unary operators may be nested to a fixed depth. The depth is counted on the
tokens, before any expression is built.

## Main definitions

* `Condition.maxNesting`: the greatest depth.
* `Condition.Nesting`: the unary operators still waiting in each open group, and the depth.
* `Condition.tooDeep?`: the first token past the greatest depth.
-/

namespace Stencil.Condition

/-- The greatest depth of groups, calls and unary operators in a condition. -/
def maxNesting : Nat := 64

/-- The nesting at a place of a condition. -/
structure Nesting where
  /-- For each open group, innermost first, the number of unary operators in it that still wait for
  their operand. The last group is the condition itself. -/
  waiting : List Nat
  /-- The levels opened and not yet closed. -/
  depth : Nat

namespace Nesting

/-- Outside of any group. -/
def start : Nesting :=
  ⟨[0], 0⟩

/-- One more operator of the innermost group waits for its operand. -/
def wait (n : Nesting) : Nesting :=
  ⟨n.waiting.modifyHead (· + 1), n.depth + 1⟩

/-- The operators of the innermost group have found their operand. -/
def settle (n : Nesting) : Nesting :=
  ⟨n.waiting.modifyHead fun _ ↦ 0, n.depth - n.waiting.headD 0⟩

/-- A group is opened. -/
def enter (n : Nesting) : Nesting :=
  ⟨0 :: n.waiting, n.depth + 1⟩

/-- The innermost group is closed, and no operator of it waits any more. -/
def leave (n : Nesting) : Nesting :=
  ⟨n.waiting.tail, n.depth - (1 + n.waiting.headD 0)⟩

/-- The nesting after a token. A group that is closed is an operand of the group around it. -/
def after (n : Nesting) (t : Token) : Nesting :=
  match t.kind with
  | .unary => n.wait
  | .openParen => n.enter
  | .closeParen => n.leave.settle
  | .path | .quoted | .number | .truth => n.settle
  | _ => n

end Nesting

/-- The first token that opens a level past the greatest depth. -/
def tooDeep? (n : Nesting) : List Token → Option Token
  | [] => none
  | t :: ts => if maxNesting < (n.after t).depth then some t else tooDeep? (n.after t) ts

end Stencil.Condition
