import Stencil.Condition
import Stencil.Delimiters
import Stencil.Template.Blocks
import Stencil.Template.Tree

/-!
# Scanning templates

A template is text with tags in it. The scan looks for the next left delimiter, takes the text
before it, and tries what follows as a tag. What turns out to be no tag is text again: the
delimiter and the character after it are taken, and the search goes on behind them.

## Main definitions

* `Template.Attempt`: what became of a place that might hold a tag.
* `Template.readTag`: tries a tag.
* `Template.Scan`: a scan between two tags.
* `Template.step`, `Template.run`: one round of a scan, and all rounds.
* `Template.scan`: the scan of a whole template.
-/

namespace Stencil.Template

open Text (Cursor)

/-- The kind of block that conditions open. -/
def ifKind : String := "if"

/-- What became of a place that might hold a tag. -/
inductive Attempt
  /-- A tag and the place after it. -/
  | tag (t : Tag) (next : Cursor)
  /-- No tag. -/
  | unmatched
  /-- The compile stops. -/
  | halted

/-- An attempt with the open blocks after it and the diagnostics it made. -/
structure Trial where
  attempt : Attempt
  blocks : Blocks
  notes : Log

/-- A trial that stops the compile. -/
def halt (b : Blocks) (d : Diagnostic) : Trial :=
  ⟨.halted, b, Log.halt [] d⟩

/-- A trial that ends in text, with something to say. -/
def refuse (b : Blocks) (d : Diagnostic) : Trial :=
  ⟨.unmatched, b, [d]⟩

/-- The place after the right delimiter that follows, blanks before it aside. -/
def close? (right : List Char) (c : Cursor) : Option Cursor :=
  if right.isPrefixOf c.skipBlanks.rest then some (c.skipBlanks.advance right.length) else none

/-- Tries a variable: a path and at once the right delimiter. -/
def readVariable (right : List Char) (b : Blocks) (c : Cursor) : Trial :=
  match Path.atStart? c.rest with
  | none => ⟨.unmatched, b, []⟩
  | some (p, n) =>
    if right.isPrefixOf (c.advance n).rest then
      ⟨.tag (.show p) ((c.advance n).advance right.length), b, []⟩
    else
      halt b (Fault.pathSyntax.about c.offset (String.ofList (c.rest.take n)))

/-- Tries the rest of an opening tag, after its name. -/
def readIf (right : List Char) (b : Blocks) (tagStart : Nat) (c : Cursor) : Trial :=
  match Condition.compile right c with
  | (.accepted e next, notes) => ⟨.tag (.ifTrue e) next, b.push ifKind tagStart, notes⟩
  | (.rejected, notes) => ⟨.unmatched, b, notes⟩
  | (.halted, notes) => ⟨.halted, b, notes⟩

/-- Tries the rest of an elseif tag, after its name. -/
def readElseIf (right : List Char) (b : Blocks) (c : Cursor) : Trial :=
  match b.current? ifKind with
  | none => halt b (Fault.elseIfWithoutIf.locate c.offset)
  | some frame =>
    let late := if frame.hasElse then [Fault.secondElse.locate c.offset] else []
    match Condition.compile right c with
    | (.accepted e next, notes) => ⟨.tag (.elseIf e) next, b, late ++ notes⟩
    | (.rejected, notes) => ⟨.unmatched, b, late ++ notes⟩
    | (.halted, notes) => ⟨.halted, b, late ++ notes⟩

/-- Tries the rest of an else tag, after its name. -/
def readElse (right : List Char) (b : Blocks) (c : Cursor) : Trial :=
  match close? right c with
  | none => halt b (Fault.elseUnclosed.locate c.offset)
  | some next =>
    match b.current? ifKind with
    | none => refuse b (Fault.elseWithoutIf.locate c.offset)
    | some frame =>
      if frame.hasElse then refuse b (Fault.secondElse.locate c.offset)
      else ⟨.tag .otherwise next, b.markElse ifKind, []⟩

/-- Tries the rest of an end tag, after its name. -/
def readEndIf (right : List Char) (b : Blocks) (c : Cursor) : Trial :=
  match close? right c with
  | none => halt b (Fault.endIfUnclosed.locate c.offset)
  | some next =>
    if (b.current? ifKind).isNone then refuse b (Fault.endIfWithoutIf.locate c.offset)
    else ⟨.tag .endIf next, b.pop ifKind, []⟩

/-- The length of a tag's name: an optional slash and a word, up to a blank, the right delimiter or
the end. -/
def nameLength? (right cs : List Char) : Option Nat :=
  let slash := if cs.head? = some '/' then 1 else 0
  let word := Text.wordLength (cs.drop slash)
  let after := cs.drop (slash + word)
  if word = 0 then none
  else if after = [] ∨ after.head?.any Text.isBlank ∨ right.isPrefixOf after then
    some (slash + word)
  else none

/-- Tries a tag with a name, in any letter case. -/
def readNamed (right : List Char) (b : Blocks) (tagStart : Nat) (c : Cursor) : Trial :=
  match nameLength? right c.rest with
  | none => ⟨.unmatched, b, []⟩
  | some n =>
    let name := String.ofList ((c.rest.take n).map Char.toLower)
    if name = "if" then readIf right b tagStart (c.advance n)
    else if name = "elseif" then readElseIf right b (c.advance n)
    else if name = "else" then readElse right b (c.advance n)
    else if name = "/if" then readEndIf right b (c.advance n)
    else ⟨.unmatched, b, []⟩

/-- Tries a tag after its left delimiter. -/
def readTag (right : List Char) (b : Blocks) (tagStart : Nat) (c : Cursor) : Trial :=
  if c.rest.head? = some '%' then readVariable right b c else readNamed right b tagStart c

/-- The number of characters before the first occurrence of a pattern. -/
def find? (pattern : List Char) : List Char → Option Nat
  | [] => if pattern.isEmpty then some 0 else none
  | c :: cs => if pattern.isPrefixOf (c :: cs) then some 0 else (find? pattern cs).map (· + 1)

/-- A scan between two tags: the place reached, the diagnostics so far, the open blocks and the
tree. -/
structure Scan where
  cursor : Cursor
  log : Log
  blocks : Blocks
  tree : Tree

/-- The scan of a template before its first tag. -/
def Scan.start (template : List Char) : Scan :=
  ⟨.ofText template, [], .empty, .empty⟩

/-- The scan after taking some characters as text. -/
def Scan.takeText (s : Scan) (n : Nat) : Scan :=
  { s with cursor := s.cursor.advance n, tree := s.tree.addText (s.cursor.rest.take n) }

/-- What a round of a scan leads to. -/
inductive Round
  /-- The next round. -/
  | next (s : Scan)
  /-- The end of the template. -/
  | finished (s : Scan)
  /-- The end of the compile. -/
  | halted (log : Log)

/-- The scan after a trial behind the left delimiter. -/
def settle (left : List Char) (s : Scan) (trial : Trial) : Round :=
  let s := { s with blocks := trial.blocks, log := s.log ++ trial.notes }
  match trial.attempt with
  | .tag t next => .next { s with cursor := next, tree := s.tree.apply t }
  | .unmatched => .next (s.takeText (left.length + 1))
  | .halted => .halted s.log

/-- One round: the text before the next left delimiter, and the tag behind it. -/
def step (d : Delimiters) (s : Scan) : Round :=
  let left := d.left.toList
  match find? left s.cursor.rest with
  | none => .finished (s.takeText s.cursor.rest.length)
  | some n =>
    let s := s.takeText n
    let inside := s.cursor.advance left.length
    if inside.rest = [] then .finished (s.takeText s.cursor.rest.length)
    else settle left s (readTag d.right.toList s.blocks s.cursor.offset inside)

/-- All rounds of a scan over a template of `size` bytes. A round that did not move ahead, or that
left the template, would stop the compile. -/
def run (d : Delimiters) (size : Nat) (s : Scan) : Except Log Scan :=
  match step d s with
  | .finished s' => .ok s'
  | .halted log => .error log
  | .next s' =>
    if s.cursor.offset < s'.cursor.offset ∧ s'.cursor.offset ≤ size then run d size s'
    else .error (s'.log.halt (Fault.stalled.locate s.cursor.offset))
termination_by size - s.cursor.offset

/-- The scan of a whole template. -/
def scan (d : Delimiters) (template : List Char) : Except Log Scan :=
  run d (Text.byteLength template) (.start template)

/-- The fault of a block that was never closed. -/
def unended (kind : String) (frame : Frame) : Diagnostic :=
  if kind = ifKind then Fault.ifUnended.locate frame.offset
  else Fault.blockUnended.about frame.offset kind

/-- The log of a finished scan: blocks still open are reported last. -/
def Scan.finalLog (s : Scan) : Log :=
  s.log ++ s.blocks.drain.map fun e ↦ unended e.1 e.2

/-- The nodes of a finished scan. -/
def Scan.nodes (s : Scan) : List Node :=
  s.tree.root.reverse

end Stencil.Template
