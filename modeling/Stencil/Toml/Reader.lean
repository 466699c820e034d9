import Stencil.Toml.Moment
import Stencil.Toml.Number
import Stencil.Toml.Table

/-!
# Reading TOML

A document is a sequence of lines: blank ones, keys with values, and headers that say which table
the keys after them belong to. Dates and times become a map with one key of their own.

## Main definitions

* `Toml.key?`: a dotted key.
* `Toml.value?`: a value, with arrays and inline tables inside it.
* `Toml.read?`: the entries of a document.
-/

namespace Stencil.Toml

/-- The greatest number of arrays and inline tables around a value, and of parts of a key. -/
def maxNesting : Nat := 79

/-- The characters of a key without quotes. -/
def isKeyChar (c : Char) : Bool :=
  c.isAlphanum || c == '-' || c == '_'

/-- One part of a key, and what follows it. -/
def keyPart? (cs : List Char) : Option (String × List Char) :=
  match cs.takeWhile isKeyChar with
  | [] => (string? cs).map fun (s, rest) ↦ (String.ofList s, rest)
  | word => some (String.ofList word, cs.drop word.length)

/-- The parts of a key with points between them, and what follows. The first argument bounds the
number of parts. -/
def keyParts? : Nat → List Char → Option (List String × List Char)
  | 0, _ => none
  | n + 1, cs => do
    let (part, rest) ← keyPart? (skipBlanks cs)
    match skipBlanks rest with
    | '.' :: rest =>
      let (parts, rest) ← keyParts? n rest
      return (part :: parts, rest)
    | rest => return ([part], rest)

/-- A key as the parts before the last one and the last one, and what follows it. -/
def key? (cs : List Char) : Option ((List String × String) × List Char) := do
  let (parts, rest) ← keyParts? maxNesting cs
  let last ← parts.getLast?
  return ((parts.dropLast, last), rest)

/-- The key of the map that stands for a date or time. -/
def momentKey : String := "$__toml_private_datetime"

/-- The date, time or number at the start of a text, and what follows it. -/
def scalar? (cs : List Char) : Option (Value × List Char) :=
  match moment? cs with
  | some (s, rest) => some (.map [(momentKey, .text (String.ofList s))], rest)
  | none =>
    match float? cs with
    | some (x, rest) => some (.float x, rest)
    | none => (integer? cs).map fun (n, rest) ↦ (.int n, rest)

/-- What follows a word. -/
def word? (word : String) (cs : List Char) : Option (List Char) :=
  if word.toList.isPrefixOf cs then some (cs.drop word.length) else none

/-- A text without the blanks, comments and line ends at its start. -/
def skipLines (cs : List Char) : List Char :=
  skipSpace (cs.length + 1) cs

mutual

/-- The value at the start of a text, and what follows it. The first argument bounds the number of
steps, the second one the arrays and inline tables that may still be opened. -/
def value? : Nat → Nat → List Char → Option (Value × List Char)
  | 0, _, _ | _, _, [] => none
  | n + 1, levels, c :: cs =>
    if c = '"' ∨ c = '\'' then
      (anyString? (c :: cs)).map fun (s, rest) ↦ (.text (String.ofList s), rest)
    else if c = 't' then (word? "true" (c :: cs)).map (.bool true, ·)
    else if c = 'f' then (word? "false" (c :: cs)).map (.bool false, ·)
    else if c = '[' then
      match levels with
      | 0 => none
      | levels + 1 => (items? n levels (skipLines cs)).map fun (vs, rest) ↦ (.list vs, rest)
    else if c = '\x7b' then
      match levels with
      | 0 => none
      | levels + 1 => do
        match skipBlanks cs with
        | '\x7d' :: rest => return (.map [], rest)
        | rest =>
          let (entries, rest) ← pairs? n levels [] rest
          return (.map (itemValues entries), rest)
    else scalar? (c :: cs)

/-- The items of an array up to its closing bracket, and what follows it. A comma may stand after
the last item. -/
def items? : Nat → Nat → List Char → Option (List Value × List Char)
  | 0, _, _ => none
  | _, _, ']' :: rest => some ([], rest)
  | n + 1, levels, cs => do
    let (v, rest) ← value? n levels cs
    match skipLines rest with
    | ',' :: rest =>
      let (vs, rest) ← items? n levels (skipLines rest)
      return (v :: vs, rest)
    | ']' :: rest => return ([v], rest)
    | _ => none

/-- The entries of an inline table with at least one more, and what follows its closing brace. -/
def pairs? : Nat → Nat → Items → List Char → Option (Items × List Char)
  | 0, _, _, _ => none
  | n + 1, levels, entries, cs => do
    let ((path, key), rest) ← key? cs
    let rest ← expect? '=' rest
    let (v, rest) ← value? n levels (skipBlanks rest)
    let entries ← Items.assign? v key path entries
    match skipBlanks rest with
    | ',' :: rest => pairs? n levels entries rest
    | '\x7d' :: rest => return (entries, rest)
    | _ => none

end

/-- A document being read: all entries so far, and the keys that lead to the current table. -/
structure Document where
  entries : Items
  header : List String

namespace Document

/-- A key with its value on a line of its own, and what follows the line. -/
def pair? (d : Document) (cs : List Char) : Option (Document × List Char) := do
  let ((path, key), rest) ← key? cs
  let rest ← expect? '=' rest
  let (v, rest) ← value? (2 * cs.length + 2) maxNesting (skipBlanks rest)
  let rest ← lineEnd? rest
  let entries ← d.entries.modify? (Items.assign? v key path) d.header
  return ({ d with entries }, rest)

/-- The header of a table after its bracket, and what follows the line. -/
def tableHeader? (d : Document) (cs : List Char) : Option (Document × List Char) := do
  let ((path, key), rest) ← key? cs
  let rest ← lineEnd? (← expect? ']' rest)
  let entries ← d.entries.modify? (Items.define? key) path
  return (⟨entries, path ++ [key]⟩, rest)

/-- The header of an array of tables after its brackets, and what follows the line. -/
def arrayHeader? (d : Document) (cs : List Char) : Option (Document × List Char) := do
  let ((path, key), rest) ← key? cs
  let rest ← lineEnd? (← expect? ']' (← expect? ']' rest))
  let entries ← d.entries.modify? (Items.append? key) path
  return (⟨entries, path ++ [key]⟩, rest)

/-- The next line of a document, and what follows it. -/
def line? (d : Document) (cs : List Char) : Option (Document × List Char) :=
  match skipBlanks cs with
  | '[' :: '[' :: rest => d.arrayHeader? rest
  | '[' :: rest => d.tableHeader? rest
  | rest =>
    match lineEnd? rest with
    | some rest => some (d, rest)
    | none => d.pair? rest

/-- The document after all lines. The first argument bounds their number. -/
def lines? : Nat → Document → List Char → Option Document
  | _, d, [] => some d
  | 0, _, _ => none
  | n + 1, d, cs => (d.line? cs).bind fun (d, rest) ↦ lines? n d rest

end Document

/-- The entries of a document. A byte order mark may stand in front of it. -/
def read? (cs : List Char) : Option (Entries Value) :=
  let cs := if cs.head? = some '\ufeff' then cs.tail else cs
  (Document.lines? (cs.length + 1) ⟨[], []⟩ cs).map fun d ↦ itemValues d.entries

end Stencil.Toml
