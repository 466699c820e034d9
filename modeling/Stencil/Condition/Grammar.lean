import Stencil.Diagnostic
import Stencil.Path
import Stencil.Token

/-!
# The grammar of conditions

A condition is read once from left to right, and at each token it is known what kinds of tokens may
come next. Every token that may not stand where it stands is reported, so one pass finds all the
faults. A single equals sign in the place of an operator is taken for the equality it was meant to
be.

## Main definitions

* `Condition.Expected`: what may come next.
* `Condition.State`: where a reader of a condition is.
* `Condition.examine`: one token, possibly put right, and what there is to say about it.
* `Condition.check`: all tokens in order.
-/

namespace Stencil.Condition

/-- The classes of tokens that the grammar tells apart. -/
inductive Class
  | operand
  | function
  | binary
  | unary
  | openParen
  | closeParen
  deriving DecidableEq, Repr

/-- What may come next. -/
inductive Expected
  /-- The start of an operand. -/
  | operand
  /-- The start of an operand, or the end of an empty argument list. -/
  | argument
  /-- An operator, or the end of a group. -/
  | operator
  /-- The argument list of a function. -/
  | argumentList
  deriving DecidableEq, Repr

/-- Whether a class of tokens may come next. -/
def Expected.allows : Expected → Class → Bool
  | .operand, .operand | .operand, .function | .operand, .openParen | .operand, .unary => true
  | .argument, .binary => false
  | .argument, _ => true
  | .operator, .binary | .operator, .closeParen => true
  | .argumentList, .openParen => true
  | _, _ => false

/-- Where a reader of a condition is. -/
structure State where
  expected : Expected
  /-- The parentheses opened and not yet closed. -/
  opened : Nat
  /-- Whether the last function named still waits for its argument list. -/
  called : Bool
  deriving DecidableEq, Repr

/-- The start of a condition. -/
def State.start : State :=
  ⟨.operand, 0, false⟩

/-- What a reader makes of a token: the token as it is understood, where the reader is after it,
and what there is to say about it. -/
structure Verdict where
  token : Token
  next : State
  notes : Log

/-- One diagnostic if a condition holds. -/
def noteIf (p : Prop) [Decidable p] (d : Diagnostic) : Log :=
  if p then [d] else []

/-- A fault about a token. -/
def fault (f : Fault) (t : Token) : Diagnostic :=
  f.about t.offset t.symbol

/-- The fault of a function without its argument list. -/
def missingArguments (t : Token) : Diagnostic :=
  { fault .missingOperand t with
    message := "Missing argument list after \"" ++ t.symbol ++ "\" at position " ++
      toString t.offset }

/-- An operator, at the end of a condition or not. -/
def operator (s : State) (c : Class) (last : Bool) (t : Token) : Verdict where
  token := t
  next := { s with expected := .operand }
  notes :=
    if !s.expected.allows c then [fault .operatorNotAllowed t]
    else noteIf last (fault .missingOperand t)

/-- A path or a literal. -/
def operand (s : State) (t : Token) : Verdict where
  token := t
  next := { s with expected := .operator }
  notes :=
    noteIf (!s.expected.allows .operand) (fault .operandNotAllowed t) ++
      noteIf (t.kind = .path ∧ (Path.compile? t.text).isNone) (fault .pathSyntax t)

/-- The name of a function, at the end of a condition or not. -/
def functionName (s : State) (last : Bool) (t : Token) : Verdict where
  token := t
  next := { s with expected := .argumentList, called := true }
  notes :=
    if !s.expected.allows .function then [fault .functionNotAllowed t]
    else if (Function.ofName? t.symbol).isNone then [fault .functionUnknown t]
    else noteIf last (missingArguments t)

/-- An opening parenthesis. -/
def openParen (s : State) (t : Token) : Verdict where
  token := t
  next :=
    { expected := if s.called then .argument else .operand
      opened := if s.expected.allows .openParen then s.opened + 1 else s.opened
      called := false }
  notes := noteIf (!s.expected.allows .openParen) (fault .openParenNotAllowed t)

/-- A closing parenthesis. -/
def closeParen (s : State) (t : Token) : Verdict where
  token := t
  next :=
    { s with
      expected := .operator
      opened := if s.expected.allows .closeParen then s.opened - 1 else s.opened }
  notes :=
    if !s.expected.allows .closeParen then [fault .closeParenNotAllowed t]
    else noteIf (s.opened = 0) (fault .closeParenUnopened t)

/-- A token that belongs in no condition. What may come next does not change. -/
def unknown (s : State) (t : Token) : Verdict where
  token := t
  next := s
  notes := [fault .unknownExpression t]

/-- The equality that a single equals sign was meant to be. -/
def equality (t : Token) : Token :=
  { t with kind := .binary, text := ['=', '='] }

/-- A single equals sign. -/
def assign (s : State) (last : Bool) (t : Token) : Verdict :=
  if s.expected.allows .binary then
    let v := operator s .binary last (equality t)
    { v with notes := fault .singleEquals t :: v.notes }
  else unknown s t

/-- What a reader makes of a token, at the end of a condition or not. -/
def examine (s : State) (last : Bool) (t : Token) : Verdict :=
  match t.kind with
  | .binary => operator s .binary last t
  | .unary => operator s .unary last t
  | .path | .quoted | .number | .truth => operand s t
  | .word => functionName s last t
  | .openParen => openParen s t
  | .closeParen => closeParen s t
  | .assign => assign s last t
  | .close | .other => unknown s t

/-- The tokens of a condition as they are understood, and everything there is to say about
them. -/
def check (s : State) : List Token → List Token × Log
  | [] => ([], [])
  | t :: ts =>
    let v := examine s ts.isEmpty t
    let (tokens, notes) := check v.next ts
    (v.token :: tokens, v.notes ++ notes)

end Stencil.Condition
