import Stencil.Text.Visible
import Stencil.Numeral

/-!
# Quoted texts

A text inside a tag stands between two equal quotes, double or single, and a backslash keeps the
character after it from ending the text. Reading resolves the escapes; double quotes know three
more of them than single quotes do. Writing always uses double quotes and escapes whatever could
not be seen.

## Main definitions

* `Text.quotedLength?`: how far a quoted text at the start of a source reaches.
* `Text.unquote`: what a quoted text stands for.
* `Text.quote`: a text between double quotes, as a reader can see it.
-/

namespace Stencil.Text

/-- The characters up to and including the closing quote. Only some characters can be escaped. -/
def closingLength? (escapable : Char → Bool) (quote : Char) : List Char → Option Nat
  | [] => none
  | '\\' :: c :: cs =>
    if escapable c then (closingLength? escapable quote cs).map (· + 2) else none
  | c :: cs => if c = quote then some 1 else (closingLength? escapable quote cs).map (· + 1)

/-- The length of the quoted text at the start of a source, quotes included, where only some
characters can be escaped. -/
def quotedLengthWith? (escapable : Char → Bool) : List Char → Option Nat
  | c :: cs =>
    if c = '"' ∨ c = '\'' then (closingLength? escapable c cs).map (· + 1) else none
  | [] => none

/-- The length of the quoted text at the start of a source, quotes included. -/
def quotedLength? : List Char → Option Nat :=
  quotedLengthWith? fun _ ↦ true

theorem quotedLengthWith?_pos {escapable : Char → Bool} {cs : List Char} {n : Nat}
    (h : quotedLengthWith? escapable cs = some n) : 0 < n := by
  unfold quotedLengthWith? at h
  split at h
  · split at h
    · obtain ⟨k, -, rfl⟩ := Option.map_eq_some_iff.mp h
      omega
    · simp at h
  · simp at h

/-- What a backslash and the character after it stand for. Only the quote and the backslash can be
escaped, and in double quotes also line feed, tab and carriage return; any other backslash stands
for itself. -/
def resolveEscape (quote c : Char) : List Char :=
  if quote = '"' ∧ c = 'n' then ['\n']
  else if quote = '"' ∧ c = 't' then ['\t']
  else if quote = '"' ∧ c = 'r' then ['\r']
  else if c = quote ∨ c = '\\' then [c]
  else ['\\', c]

/-- The body of a quoted text with its escapes resolved. -/
def unescape (quote : Char) : List Char → List Char
  | [] => []
  | '\\' :: c :: cs => resolveEscape quote c ++ unescape quote cs
  | c :: cs => c :: unescape quote cs

/-- What a quoted text stands for: the first character is its quote, and the last one is dropped
when it is the same. -/
def unquote : List Char → List Char
  | [] => []
  | q :: cs => unescape q (if cs.getLast? = some q then cs.dropLast else cs)

/-- A character as it is written between double quotes. -/
def quoteChar (c : Char) : List Char :=
  if c = '\x00' then ['\\', '0']
  else if c = '\t' then ['\\', 't']
  else if c = '\n' then ['\\', 'n']
  else if c = '\r' then ['\\', 'r']
  else if c = '"' ∨ c = '\\' then ['\\', c]
  else if isVisible c then [c]
  else ['\\', 'u', '\x7b'] ++ Numeral.digits 16 c.toNat ++ ['\x7d']

/-- A text between double quotes, with escapes for what could not be seen. -/
def quote (cs : List Char) : List Char :=
  '"' :: cs.flatMap quoteChar ++ ['"']

end Stencil.Text
