import Stencil.Numeral

/-!
# TOML texts

The lexical layer of TOML: blanks, comments, line ends, and the four kinds of strings. Basic
strings have escapes and literal strings have none; either may run over several lines between
triple quotes.

## Main definitions

* `Toml.skipBlanks`, `Toml.lineEnd?`, `Toml.skipSpace`: what may stand between the parts of a
  document.
* `Toml.string?`: the string at the start of a text, on one line.
* `Toml.anyString?`: the string at the start of a text.
-/

namespace Stencil.Toml

/-- Spaces and tabs. -/
def isBlank (c : Char) : Bool :=
  c == ' ' || c == '\t'

/-- A text without the spaces and tabs at its start. -/
def skipBlanks (cs : List Char) : List Char :=
  cs.dropWhile isBlank

/-- The characters that may stand in strings: no control characters other than the tab. -/
def isText (c : Char) : Bool :=
  c == '\t' || (0x20 ≤ c.toNat && c != '\x7f')

/-- What follows the end of a line. -/
def newline? : List Char → Option (List Char)
  | '\n' :: cs => some cs
  | '\r' :: '\n' :: cs => some cs
  | _ => none

/-- A text without the comment at its start, if there is one. -/
def skipComment : List Char → List Char
  | '#' :: cs => cs.dropWhile fun c ↦ isText c || c == '\x7f'
  | cs => cs

/-- What follows the line that ends here, blanks and a comment aside. -/
def lineEnd? (cs : List Char) : Option (List Char) :=
  match skipComment (skipBlanks cs) with
  | [] => some []
  | rest => newline? rest

/-- A text without the blanks, comments and line ends at its start. The first argument bounds the
number of lines. -/
def skipSpace : Nat → List Char → List Char
  | 0, cs => cs
  | n + 1, cs =>
    match newline? (skipComment (skipBlanks cs)) with
    | some rest => skipSpace n rest
    | none => skipComment (skipBlanks cs)

/-- The character that a letter after a backslash stands for. -/
def escape? (c : Char) : Option Char :=
  if c = '"' ∨ c = '\\' then some c
  else if c = 'b' then some '\x08'
  else if c = 't' then some '\t'
  else if c = 'n' then some '\n'
  else if c = 'f' then some '\x0c'
  else if c = 'r' then some '\r'
  else none

/-- The character with a code point given in hexadecimal digits. -/
def charOfHex? (digits : List Char) : Option Char := do
  let n ← Numeral.natural? Numeral.isHexDigit 16 digits
  if n < 0xd800 ∨ (0xe000 ≤ n ∧ n < 0x110000) then some (Char.ofNat n) else none

/-- A text in front of a string that is still being read. -/
def before (text : List Char) (r : Option (List Char × List Char)) :
    Option (List Char × List Char) :=
  r.map fun (s, rest) ↦ (text ++ s, rest)

/-- The inside of a basic string on one line, and what follows its closing quote. -/
def basic? : List Char → Option (List Char × List Char)
  | '"' :: cs => some ([], cs)
  | '\\' :: 'u' :: a :: b :: c :: d :: cs =>
    (charOfHex? [a, b, c, d]).bind fun ch ↦ before [ch] (basic? cs)
  | '\\' :: 'U' :: a :: b :: c :: d :: e :: f :: g :: h :: cs =>
    (charOfHex? [a, b, c, d, e, f, g, h]).bind fun ch ↦ before [ch] (basic? cs)
  | '\\' :: e :: cs => (escape? e).bind fun ch ↦ before [ch] (basic? cs)
  | c :: cs => if isText c && c != '\\' then before [c] (basic? cs) else none
  | [] => none

/-- The inside of a literal string on one line, and what follows its closing quote. -/
def literal? : List Char → Option (List Char × List Char)
  | '\'' :: cs => some ([], cs)
  | c :: cs => if isText c then before [c] (literal? cs) else none
  | [] => none

/-- Whether nothing but blanks comes before the end of the line. -/
def endsLine (cs : List Char) : Bool :=
  (newline? (skipBlanks cs)).isSome

/-- The inside of a basic string over several lines, and what follows its closing quotes. One or
two quotes may stand before these. A backslash at the end of a line takes away the blanks and line
ends after it, and while that lasts the first argument holds. -/
def basicLines? : Bool → List Char → Option (List Char × List Char)
  | _, '"' :: '"' :: '"' :: '"' :: '"' :: cs => some (['"', '"'], cs)
  | _, '"' :: '"' :: '"' :: '"' :: cs => some (['"'], cs)
  | _, '"' :: '"' :: '"' :: cs => some ([], cs)
  | trim, '\r' :: '\n' :: cs => before (if trim then [] else ['\n']) (basicLines? trim cs)
  | trim, '\n' :: cs => before (if trim then [] else ['\n']) (basicLines? trim cs)
  | _, '\\' :: 'u' :: a :: b :: c :: d :: cs =>
    (charOfHex? [a, b, c, d]).bind fun ch ↦ before [ch] (basicLines? false cs)
  | _, '\\' :: 'U' :: a :: b :: c :: d :: e :: f :: g :: h :: cs =>
    (charOfHex? [a, b, c, d, e, f, g, h]).bind fun ch ↦ before [ch] (basicLines? false cs)
  | _, '\\' :: e :: cs =>
    if endsLine (e :: cs) then basicLines? true cs
    else (escape? e).bind fun ch ↦ before [ch] (basicLines? false cs)
  | trim, c :: cs =>
    if trim && isBlank c then basicLines? true cs
    else if isText c && c != '\\' then before [c] (basicLines? false cs)
    else none
  | _, [] => none

/-- The inside of a literal string over several lines, and what follows its closing quotes. One or
two quotes may stand before these. -/
def literalLines? : List Char → Option (List Char × List Char)
  | '\'' :: '\'' :: '\'' :: '\'' :: '\'' :: cs => some (['\'', '\''], cs)
  | '\'' :: '\'' :: '\'' :: '\'' :: cs => some (['\''], cs)
  | '\'' :: '\'' :: '\'' :: cs => some ([], cs)
  | '\r' :: '\n' :: cs => before ['\n'] (literalLines? cs)
  | c :: cs => if isText c || c == '\n' then before [c] (literalLines? cs) else none
  | [] => none

/-- A string over several lines without the line end right after its opening quotes. -/
def skipFirstLineEnd (cs : List Char) : List Char :=
  (newline? cs).getD cs

/-- The string at the start of a text, on one line, and what follows it. -/
def string? : List Char → Option (List Char × List Char)
  | '"' :: cs => basic? cs
  | '\'' :: cs => literal? cs
  | _ => none

/-- The string at the start of a text, and what follows it. -/
def anyString? : List Char → Option (List Char × List Char)
  | '"' :: '"' :: '"' :: cs => basicLines? false (skipFirstLineEnd cs)
  | '\'' :: '\'' :: '\'' :: cs => literalLines? (skipFirstLineEnd cs)
  | cs => string? cs

end Stencil.Toml
