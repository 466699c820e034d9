import Stencil.Diagnostic
import Stencil.Text.Cursor

/-!
# Reports

A report tells a person what a diagnostic says and where in the template: by line and column, both
from one, columns counting characters.

## Main definitions

* `Text.Location`, `Text.Location.advance`: lines and columns.
* `Diagnostic.span`, `Diagnostic.charSpan`: the bytes and the characters that a diagnostic is about.
* `Report`, `Diagnostic.report`: the lines of a report.
-/

namespace Stencil

namespace Text

/-- A line and a column, both from one. -/
structure Location where
  line : Nat
  column : Nat
  deriving DecidableEq, Repr

/-- The characters that end a line. A line feed right after a carriage return belongs to the same
line end. -/
def isLineEnd (c : Char) : Bool :=
  let n := c.toNat
  (0x0a ≤ n && n ≤ 0x0d) || n == 0x85 || n == 0x2028 || n == 0x2029

namespace Location

/-- The location after a character, given the character that follows. -/
def after (l : Location) (c : Char) (next : Option Char) : Location :=
  if isLineEnd c ∧ ¬(c = '\r' ∧ next = some '\n') then ⟨l.line + 1, 1⟩
  else { l with column := l.column + 1 }

/-- The location some characters further on. -/
def advance (l : Location) : Nat → List Char → Location
  | 0, _ | _, [] => l
  | n + 1, c :: cs => (l.after c cs.head?).advance n cs

end Location

/-- The number of characters that start before a byte offset. -/
def charsBefore (offset : Nat) (cs : List Char) : Nat :=
  match cs with
  | [] => 0
  | c :: cs => if offset = 0 then 0 else charsBefore (offset - c.utf8Size) cs + 1

end Text

/-- A range of bytes. -/
structure Span where
  start : Nat
  stop : Nat
  deriving DecidableEq, Repr

namespace Diagnostic

/-- The bytes of a source that a diagnostic is about: its token, or one byte when it has none, as
far as the source goes. -/
def span (d : Diagnostic) (source : String) : Span :=
  let start := min d.offset source.utf8ByteSize
  ⟨start, min (start + max d.token.utf8ByteSize 1) source.utf8ByteSize⟩

/-- The characters of a source that a diagnostic is about. -/
def charSpan (d : Diagnostic) (source : String) : Span :=
  let bytes := d.span source
  ⟨Text.charsBefore bytes.start source.toList, Text.charsBefore bytes.stop source.toList⟩

end Diagnostic

/-- The lines of a report: what is wrong, and where. -/
structure Report where
  header : String
  location : String
  deriving DecidableEq, Repr

/-- The word for a severity. -/
def Severity.word : Severity → String
  | warning => "Warning"
  | error => "Error"

/-- A number with at least two digits. -/
def twoDigits (n : Nat) : String :=
  if n < 10 then "0" ++ toString n else toString n

/-- The report of a diagnostic on a file. -/
def Diagnostic.report (d : Diagnostic) (source file : String) : Report where
  header := "[" ++ twoDigits d.fault.code ++ "] " ++ d.fault.severity.word ++ ": " ++ d.message
  location :=
    let place := Text.Location.advance ⟨1, 1⟩ (d.charSpan source).start source.toList
    file ++ ":" ++ toString place.line ++ ":" ++ toString place.column

end Stencil
