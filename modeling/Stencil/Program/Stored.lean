import Stencil.Json.Reader
import Stencil.Program

/-!
# Stored programs

A program is stored as JSON and read back. Structures are objects with a field for each part;
unknown fields are ignored, and the parts may also be given in order as an array. Alternatives are
objects whose one field names the alternative, or its bare name when there is nothing to add.

## Main definitions

* `Value.toJson`, `Value.ofJson?`: values, which are stored without a name for their kind.
* `Path.toJson`, `Expr.toJson`, `Node.toJson`, `Diagnostic.toJson`, `Program.toJson`.
* `Program.ofJson?`: the program that a document holds.
* `Program.store`, `Program.load`: the text of a program, and the program of a text.
-/

namespace Stencil

namespace Json

/-- The parts of a structure by the names of its fields, given as an object or in order. A field
may be missing from an object but not be there twice. -/
def parts? (names : List String) : Json → Option (List (Option Json))
  | object fields =>
    names.mapM fun name ↦
      match fields.filter (·.1 == name) with
      | [] => some none
      | [(_, j)] => some (some j)
      | _ => none
  | list items => if items.length = names.length then some (items.map some) else none
  | _ => none

/-- The name of an alternative and what belongs to it. -/
def alternative? : Json → Option (String × Json)
  | text name => some (name, null)
  | object [(name, j)] => some (name, j)
  | _ => none

/-- An alternative with something belonging to it. -/
def tagged? : Json → Option (String × Json)
  | object [(name, j)] => some (name, j)
  | _ => none

/-- An alternative with nothing belonging to it. -/
def bare? (j : Json) : Option String :=
  match j.alternative? with
  | some (name, null) => some name
  | _ => none

/-- A text. -/
def text? : Json → Option String
  | text s => some s
  | _ => none

/-- A truth value. -/
def bool? : Json → Option Bool
  | bool b => some b
  | _ => none

/-- An integer that fits a signed word. -/
def int? : Json → Option Int64
  | int n => Numeral.word? n
  | _ => none

/-- An offset, which fits an unsigned word. -/
def offset? : Json → Option Nat
  | int n => if 0 ≤ n ∧ n < 0x10000000000000000 then some n.toNat else none
  | _ => none

/-- The items of an array. -/
def items : Json → Option (List Json)
  | list js => some js
  | _ => none

/-- An object whose one field names an alternative. -/
def tag (name : String) (j : Json) : Json :=
  object [(name, j)]

end Json

namespace Value

mutual

/-- A value in JSON. -/
def toJson : Value → Json
  | null => .null
  | bool b => .bool b
  | int n => .int n.toInt
  | float x => .float x
  | text s => .text s
  | list items => .list (toJsonItems items)
  | map entries => .object (toJsonEntries entries)

/-- The items of a list in JSON. -/
def toJsonItems : List Value → List Json
  | [] => []
  | v :: vs => v.toJson :: toJsonItems vs

/-- The entries of a map in JSON. -/
def toJsonEntries : List (String × Value) → List (String × Json)
  | [] => []
  | (key, v) :: es => (key, v.toJson) :: toJsonEntries es

end

mutual

/-- The value of a document. Integers past the range of a signed word widen to floating point, and
of equal keys the last one counts. -/
def ofJson? : Json → Option Value
  | .null => some null
  | .bool b => some (bool b)
  | .int n => some (((Numeral.word? n).map int).getD (float (Float.ofInt n)))
  | .float x => some (float x)
  | .text s => some (text s)
  | .list items => (ofJsonItems? items).map list
  | .object fields => (ofJsonFields? fields).map fun pairs ↦ map (Entries.ofList pairs)
  | .unreadable => none

/-- The values of some items. -/
def ofJsonItems? : List Json → Option (List Value)
  | [] => some []
  | j :: js => do return (← ofJson? j) :: (← ofJsonItems? js)

/-- The values of some fields with their names. -/
def ofJsonFields? : List (String × Json) → Option (List (String × Value))
  | [] => some []
  | (name, j) :: fields => do return (name, ← ofJson? j) :: (← ofJsonFields? fields)

end

end Value

namespace Path

/-- A step in JSON. -/
def Step.toJson : Step → Json
  | field name => .tag "Key" (.text name)
  | position i => .tag "Index" (.tag "Int" (.int i.toInt))
  | entry name => .tag "Index" (.tag "Str" (.text name))

/-- A path in JSON. -/
def toJson (p : Path) : Json :=
  .object [("base", .text p.base), ("steps", .list (p.steps.map Step.toJson))]

/-- The step of an index. -/
def Step.ofIndex? (j : Json) : Option Step :=
  match j.tagged? with
  | some ("Int", j) => j.int?.map position
  | some ("Str", j) => j.text?.map entry
  | _ => none

/-- The step of a document. -/
def Step.ofJson? (j : Json) : Option Step :=
  match j.tagged? with
  | some ("Key", j) => j.text?.map field
  | some ("Index", j) => ofIndex? j
  | _ => none

/-- The path of a document. -/
def ofJson? (j : Json) : Option Path :=
  match j.parts? ["base", "steps"] with
  | some [some base, some steps] => do
    return ⟨← base.text?, ← (← steps.items).mapM Step.ofJson?⟩
  | _ => none

end Path

namespace BinaryOp

/-- The word that stands for an operator in stored programs. -/
def word : BinaryOp → String
  | strictEq => "StrictEq"
  | strictNe => "StrictNe"
  | eq => "Eq"
  | ne => "Ne"
  | shiftLeft => "Shl"
  | shiftRight => "Shr"
  | le => "Le"
  | ge => "Ge"
  | and => "And"
  | or => "Or"
  | comma => "Comma"
  | bitXor => "BitXor"
  | bitOr => "BitOr"
  | bitAnd => "BitAnd"
  | lt => "Lt"
  | gt => "Gt"
  | mod => "Mod"
  | add => "Add"
  | sub => "Sub"
  | div => "Div"
  | mul => "Mul"

/-- The operator that a word stands for. -/
def ofWord? (s : String) : Option BinaryOp :=
  all.find? (·.word = s)

theorem ofWord?_word (op : BinaryOp) : ofWord? op.word = some op := by
  cases op <;> decide

end BinaryOp

namespace UnaryOp

/-- The word that stands for an operator in stored programs. -/
def word : UnaryOp → String
  | bitNot => "BitNot"
  | not => "Not"
  | silence => "Silence"

/-- The operator that a word stands for. -/
def ofWord? (s : String) : Option UnaryOp :=
  all.find? (·.word = s)

theorem ofWord?_word (op : UnaryOp) : ofWord? op.word = some op := by
  cases op <;> decide

end UnaryOp

namespace Function

/-- The word that stands for a function in stored programs. -/
def word : Function → String
  | length => "Length"
  | uppercase => "Uppercase"
  | lowercase => "Lowercase"

/-- The function that a word stands for. -/
def ofWord? (s : String) : Option Function :=
  all.find? (·.word = s)

theorem ofWord?_word (f : Function) : ofWord? f.word = some f := by
  cases f <;> decide

end Function

namespace Expr

mutual

/-- An expression in JSON. -/
def toJson : Expr → Json
  | path p => .tag "Variable" p.toJson
  | literal v => .tag "Literal" v.toJson
  | call f (some arg) =>
    .tag "Call" (.object [("function", .text f.word), ("arg", arg.toJson)])
  | call f none => .tag "Call" (.object [("function", .text f.word), ("arg", .null)])
  | unary op operand =>
    .tag "Unary" (.object [("op", .text op.word), ("operand", operand.toJson)])
  | chain first rest =>
    .tag "Chain" (.object [("first", first.toJson), ("rest", .list (toJsonRest rest))])
  | group inner => .tag "Grouped" inner.toJson

/-- The operators and operands after the first in JSON. -/
def toJsonRest : List (BinaryOp × Expr) → List Json
  | [] => []
  | (op, e) :: rest => .list [.text op.word, e.toJson] :: toJsonRest rest

end

/-- The operator and the operand of a pair, given a reader of operands. -/
def ofPair? (read : Json → Option Expr) : Json → Option (BinaryOp × Expr)
  | .list [op, e] => do return (← BinaryOp.ofWord? (← op.bare?), ← read e)
  | _ => none

/-- The expression of a document. The first argument bounds the nesting of expressions. -/
def ofJsonWithin? : Nat → Json → Option Expr
  | 0, _ => none
  | n + 1, j =>
    match j.tagged? with
    | some ("Variable", j) => (Path.ofJson? j).map path
    | some ("Literal", j) => (Value.ofJson? j).map literal
    | some ("Call", j) =>
      match j.parts? ["function", "arg"] with
      | some [some f, arg] => do
        let f ← Function.ofWord? (← f.bare?)
        match arg with
        | none | some .null => return call f none
        | some arg => return call f (some (← ofJsonWithin? n arg))
      | _ => none
    | some ("Unary", j) =>
      match j.parts? ["op", "operand"] with
      | some [some op, some operand] => do
        return unary (← UnaryOp.ofWord? (← op.bare?)) (← ofJsonWithin? n operand)
      | _ => none
    | some ("Chain", j) =>
      match j.parts? ["first", "rest"] with
      | some [some first, some rest] => do
        let first ← ofJsonWithin? n first
        return chain first (← (← rest.items).mapM (ofPair? (ofJsonWithin? n)))
      | _ => none
    | some ("Grouped", j) => (ofJsonWithin? n j).map group
    | _ => none

/-- The expression of a document. Expressions are nested at most as deeply as the document. -/
def ofJson? (j : Json) : Option Expr :=
  ofJsonWithin? (j.depth + 1) j

end Expr

namespace Node

mutual

/-- A node in JSON. -/
def toJson : Node → Json
  | text s => .tag "Literal" (.text s)
  | .variable p => .tag "Interpolation" p.toJson
  | conditional branches (some body) =>
    .tag "Conditional" (.object
      [("branches", .list (toJsonBranches branches)), ("else_branch", .list (toJsonList body))])
  | conditional branches none =>
    .tag "Conditional" (.object
      [("branches", .list (toJsonBranches branches)), ("else_branch", .null)])

/-- A sequence of nodes in JSON. -/
def toJsonList : List Node → List Json
  | [] => []
  | node :: nodes => node.toJson :: toJsonList nodes

/-- A sequence of branches in JSON. -/
def toJsonBranches : List (Expr × List Node) → List Json
  | [] => []
  | (test, body) :: branches =>
    .object [("test", test.toJson), ("body", .list (toJsonList body))] :: toJsonBranches branches

end

/-- A sequence of nodes, given a reader of nodes. -/
def ofList? (read : Json → Option Node) (j : Json) : Option (List Node) := do
  (← j.items).mapM read

/-- A branch, given a reader of nodes. -/
def ofBranch? (read : Json → Option Node) (j : Json) : Option (Expr × List Node) :=
  match j.parts? ["test", "body"] with
  | some [some test, some body] => do return (← Expr.ofJson? test, ← ofList? read body)
  | _ => none

/-- The node of a document. The first argument bounds the nesting of nodes. -/
def ofJsonWithin? : Nat → Json → Option Node
  | 0, _ => none
  | n + 1, j =>
    match j.tagged? with
    | some ("Literal", j) => j.text?.map text
    | some ("Interpolation", j) => (Path.ofJson? j).map .variable
    | some ("Conditional", j) =>
      match j.parts? ["branches", "else_branch"] with
      | some [some branches, otherwise] => do
        let branches ← (← branches.items).mapM (ofBranch? (ofJsonWithin? n))
        match otherwise with
        | none | some .null => return conditional branches none
        | some body => return conditional branches (some (← ofList? (ofJsonWithin? n) body))
      | _ => none
    | _ => none

/-- The node of a document. Nodes are nested at most as deeply as the document. -/
def ofJson? (j : Json) : Option Node :=
  ofJsonWithin? (j.depth + 1) j

end Node

namespace Diagnostic

/-- A diagnostic in JSON. -/
def toJson (d : Diagnostic) : Json :=
  .object
    [("kind", .text d.fault.name), ("offset", .int d.offset), ("token", .text d.token),
      ("message", .text d.message), ("fatal", .bool d.fatal)]

/-- The diagnostic of a document. -/
def ofJson? (j : Json) : Option Diagnostic :=
  match j.parts? ["kind", "offset", "token", "message", "fatal"] with
  | some [some kind, some offset, some token, some message, some fatal] => do
    return ⟨← Fault.ofName? (← kind.bare?), ← offset.offset?, ← token.text?, ← message.text?,
      ← fatal.bool?⟩
  | _ => none

end Diagnostic

namespace Program

/-- The word that marks stored programs. -/
def format : String := "zenplate"

/-- Why a text holds no program. -/
inductive LoadError
  /-- It is no JSON, or not the JSON of a program. -/
  | malformed
  /-- It is marked as something else. -/
  | foreign
  deriving DecidableEq, Repr

/-- What is wrong with a text marked as something else. -/
def foreignMessage : String :=
  "not a valid zenplate compiled template"

/-- A program in JSON. -/
def toJson (p : Program) : Json :=
  .object
    [("format", .text format), ("version", .text p.version),
      ("nodes", .list (Node.toJsonList p.nodes)),
      ("warnings", .list (p.warnings.map Diagnostic.toJson))]

/-- The mark and the program of a document. -/
def ofJson? (j : Json) : Option (String × Program) :=
  match j.parts? ["format", "version", "nodes", "warnings"] with
  | some [some mark, some version, some nodes, some warnings] => do
    return (← mark.text?,
      ⟨← version.text?, ← Node.ofList? Node.ofJson? nodes,
        ← (← warnings.items).mapM Diagnostic.ofJson?⟩)
  | _ => none

/-- The text that a program is stored as. -/
def store (p : Program) : String :=
  String.ofList p.toJson.write

/-- The program that a text holds. The mark is examined last. -/
def load (s : String) : Except LoadError Program :=
  match (Json.read? s.toList).bind ofJson? with
  | none => .error .malformed
  | some (mark, p) => if mark = format then .ok p else .error .foreign

end Program

end Stencil
