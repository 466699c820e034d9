/-!
# Diagnostics

What a compile has to say about a template. Each fault has a number for machines, a category and a
severity; a diagnostic is a fault at a place, with the token it is about and its wording.

## Main definitions

* `Fault`: everything that can be wrong.
* `Fault.code`, `Fault.category`, `Fault.severity`: how faults are classified.
* `Diagnostic`: a fault at a place.
* `Fault.locate`, `Fault.about`: the diagnostic of a fault in its usual wording.
* `Log`: the diagnostics of a run in the order they were made.
-/

namespace Stencil

/-- Everything that can be wrong with a template. -/
inductive Fault
  | pathSyntax
  | ifUnclosed
  | ifEmpty
  | unbalancedParens
  | operatorNotAllowed
  | missingOperand
  | operandNotAllowed
  | functionNotAllowed
  | functionUnknown
  | openParenNotAllowed
  | closeParenNotAllowed
  | closeParenUnopened
  | singleEquals
  | unknownExpression
  | ifUnended
  /-- Groups, calls and unary operators nested past the supported depth. -/
  | nestedTooDeep
  | elseUnclosed
  | elseWithoutIf
  | secondElse
  | endIfUnclosed
  | endIfWithoutIf
  | elseIfWithoutIf
  | blockUnended
  /-- The scan of a template did not move ahead. No template can cause this. -/
  | stalled
  deriving DecidableEq, Repr

/-- The coarse groups of faults. -/
inductive Category
  | syntactic
  | grammar
  | structural
  | internal
  deriving DecidableEq, Repr

/-- Whether a fault makes a compile fail. -/
inductive Severity
  | warning
  | error
  deriving DecidableEq, Repr

namespace Fault

/-- All faults, in the order of their declaration. -/
def all : List Fault :=
  [pathSyntax, ifUnclosed, ifEmpty, unbalancedParens, operatorNotAllowed, missingOperand,
    operandNotAllowed, functionNotAllowed, functionUnknown, openParenNotAllowed,
    closeParenNotAllowed, closeParenUnopened, singleEquals, unknownExpression, ifUnended,
    nestedTooDeep, elseUnclosed, elseWithoutIf, secondElse, endIfUnclosed, endIfWithoutIf,
    elseIfWithoutIf, blockUnended, stalled]

/-- The word that stands for a fault in stored programs. -/
def name : Fault → String
  | pathSyntax => "VarSyntax"
  | ifUnclosed => "IfNoRightDelimiter"
  | ifEmpty => "IfNoArguments"
  | unbalancedParens => "IfUnbalancedParens"
  | operatorNotAllowed => "IfOperatorNotAllowed"
  | missingOperand => "IfMissingExpressionAfter"
  | operandNotAllowed => "IfVarNotAllowed"
  | functionNotAllowed => "IfFuncNotAllowed"
  | functionUnknown => "IfFuncNotSupported"
  | openParenNotAllowed => "IfOpenParenNotAllowed"
  | closeParenNotAllowed => "IfCloseParenNotAllowed"
  | closeParenUnopened => "IfNoOpenParenBefore"
  | singleEquals => "IfSingleEqualSign"
  | unknownExpression => "IfUnknownExpression"
  | ifUnended => "IfNoEndIf"
  | nestedTooDeep => "IfNestingTooDeep"
  | elseUnclosed => "ElseNoRightDelimiter"
  | elseWithoutIf => "ElseNoIf"
  | secondElse => "ElseOnlyOneAllowed"
  | endIfUnclosed => "EndIfNoRightDelimiter"
  | endIfWithoutIf => "EndIfNoIf"
  | elseIfWithoutIf => "ElseIfNoIf"
  | blockUnended => "BlockNoEndBlock"
  | stalled => "ScannerStalled"

/-- The fault that a word stands for. -/
def ofName? (s : String) : Option Fault :=
  all.find? (·.name = s)

theorem ofName?_name (f : Fault) : ofName? f.name = some f := by
  cases f <;> decide

/-- The number that stands for a fault in reports. -/
def code : Fault → Nat
  | pathSyntax => 1
  | ifUnclosed => 2
  | ifEmpty => 3
  | unbalancedParens => 4
  | operatorNotAllowed => 5
  | missingOperand => 6
  | operandNotAllowed => 7
  | functionNotAllowed => 8
  | functionUnknown => 9
  | openParenNotAllowed => 10
  | closeParenNotAllowed => 11
  | closeParenUnopened => 12
  | singleEquals => 13
  | unknownExpression => 14
  | ifUnended => 15
  | elseUnclosed => 16
  | elseWithoutIf => 17
  | secondElse => 18
  | endIfUnclosed => 19
  | endIfWithoutIf => 20
  | elseIfWithoutIf => 21
  | nestedTooDeep => 22
  | blockUnended => 40
  | stalled => 99

/-- The group of a fault. -/
def category : Fault → Category
  | pathSyntax | ifUnclosed | elseUnclosed | endIfUnclosed => .syntactic
  | ifEmpty | unbalancedParens | operatorNotAllowed | missingOperand | operandNotAllowed
  | functionNotAllowed | functionUnknown | openParenNotAllowed | closeParenNotAllowed
  | closeParenUnopened | singleEquals | unknownExpression | nestedTooDeep => .grammar
  | ifUnended | elseWithoutIf | secondElse | endIfWithoutIf | elseIfWithoutIf
  | blockUnended => .structural
  | stalled => .internal

/-- A single equals sign is put right and only warned about; every other fault is an error. -/
def severity : Fault → Severity
  | singleEquals => .warning
  | _ => .error

/-- The usual wording of a fault at a byte offset, about a token. -/
def message (f : Fault) (offset : Nat) (token : String) : String :=
  let place := toString offset
  match f with
  | pathSyntax => "Error parsing variable expression starting at position " ++ place
  | ifUnclosed => "No right delimiter found for if statement starting at position " ++ place
  | ifEmpty => "Error parsing if statement starting at position " ++ place
  | unbalancedParens => "Unbalanced parenthesis in if statement at position " ++ place
  | operatorNotAllowed => "Operator \"" ++ token ++ "\" not allowed at position " ++ place
  | missingOperand => "Missing expression after \"" ++ token ++ "\" at position " ++ place
  | operandNotAllowed => "Variable not allowed at position " ++ place
  | functionNotAllowed => "Function not allowed at position " ++ place
  | functionUnknown => "Unsupported function call at position " ++ place
  | openParenNotAllowed => "Opening parenthesis not allowed at position " ++ place
  | closeParenNotAllowed => "Closing parenthesis not allowed at position " ++ place
  | closeParenUnopened => "No opening parenthesis found before position " ++ place
  | singleEquals => "Should be == at position " ++ place
  | unknownExpression => "Unknown expression at position " ++ place
  | ifUnended => "No closing end-if structure found for if starting at position " ++ place
  | nestedTooDeep => "Expression nested deeper than 64 levels at position " ++ place
  | elseUnclosed => "No right delimiter found for else structure at position " ++ place
  | elseWithoutIf => "No if-statement found for else structure at position " ++ place
  | secondElse => "Only one else per if-statement is allowed at position " ++ place
  | endIfUnclosed => "No right delimiter found for end-if structure at position " ++ place
  | endIfWithoutIf => "No if-statement found for end-if structure at position " ++ place
  | elseIfWithoutIf => "No if-statement found for elseif structure at position " ++ place
  | blockUnended =>
    "No closing end-" ++ token ++ " structure found for " ++ token ++ " starting at position "
      ++ place
  | stalled => "Main parser loop is broken at position " ++ place

end Fault

/-- A fault at a place. -/
structure Diagnostic where
  fault : Fault
  /-- The byte offset of the place in the template. -/
  offset : Nat
  /-- The token that the fault is about, empty when there is none. -/
  token : String
  message : String
  /-- Whether the compile stopped here. -/
  fatal : Bool
  deriving DecidableEq, Repr

/-- The diagnostic of a fault about a token, in its usual wording. -/
def Fault.about (f : Fault) (offset : Nat) (token : String) : Diagnostic :=
  ⟨f, offset, token, f.message offset token, false⟩

/-- The diagnostic of a fault at a place, in its usual wording. -/
def Fault.locate (f : Fault) (offset : Nat) : Diagnostic :=
  f.about offset ""

namespace Diagnostic

/-- Whether a diagnostic makes a compile fail. -/
def isError (d : Diagnostic) : Bool :=
  d.fault.severity == .error

/-- The diagnostic that stops a compile. -/
def halting (d : Diagnostic) : Diagnostic :=
  { d with fatal := true }

end Diagnostic

/-- The diagnostics of a run in the order they were made. -/
abbrev Log := List Diagnostic

namespace Log

/-- The number of diagnostics that are errors. -/
def errorCount (log : Log) : Nat :=
  log.countP Diagnostic.isError

/-- Whether a run failed. -/
def hasErrors (log : Log) : Bool :=
  log.any Diagnostic.isError

/-- The log with one more diagnostic. -/
def record (log : Log) (d : Diagnostic) : Log :=
  log ++ [d]

/-- The log with a last diagnostic that stops the run. -/
def halt (log : Log) (d : Diagnostic) : Log :=
  log ++ [d.halting]

/-- The one-line text of a failed run: every message in order. -/
def failureText (log : Log) : String :=
  "error compiling template; error messages: " ++
    String.intercalate ", " (log.map Diagnostic.message)

end Log

end Stencil
