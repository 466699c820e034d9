import Stencil.Json.Number

/-!
# Reading JSON

The grammar is strict: no comments, no trailing commas, no control characters in strings, and
nothing but blanks after the document.

## Main definitions

* `Json.string?`: the string at the start of a text.
* `Json.value?`, `Json.items?`, `Json.fields?`: a value, and the insides of arrays and objects.
* `Json.read?`: the document that a whole text spells.
-/

namespace Stencil.Json

/-- The blanks of JSON. -/
def isBlank (c : Char) : Bool :=
  c == ' ' || c == '\n' || c == '\t' || c == '\r'

/-- A text without the blanks at its start. -/
def skipBlanks (cs : List Char) : List Char :=
  cs.dropWhile isBlank

/-- The character that a letter after a backslash stands for. -/
def escape? (c : Char) : Option Char :=
  if c = '"' ∨ c = '\\' ∨ c = '/' then some c
  else if c = 'b' then some '\x08'
  else if c = 'f' then some '\x0c'
  else if c = 'n' then some '\n'
  else if c = 'r' then some '\r'
  else if c = 't' then some '\t'
  else none

/-- The number of four hexadecimal digits. -/
def hex4? (a b c d : Char) : Option Nat :=
  Numeral.natural? Numeral.isHexDigit 16 [a, b, c, d]

/-- The inside of a string up to its closing quote, and what follows. Characters come as code
points; escapes by number may also give one half of a surrogate pair. -/
def units? : List Char → Option (List Nat × List Char)
  | '"' :: cs => some ([], cs)
  | '\\' :: 'u' :: a :: b :: c :: d :: cs => do
    let n ← hex4? a b c d
    let (ns, rest) ← units? cs
    return (n :: ns, rest)
  | '\\' :: e :: cs => do
    let c ← escape? e
    let (ns, rest) ← units? cs
    return (c.toNat :: ns, rest)
  | c :: cs =>
    if c.toNat < 0x20 ∨ c = '\\' then none
    else do
      let (ns, rest) ← units? cs
      return (c.toNat :: ns, rest)
  | [] => none

/-- The characters of code points and surrogate pairs. A half without its other half stands for
none. -/
def charsOfUnits? : List Nat → Option (List Char)
  | [] => some []
  | n :: ns =>
    if 0xd800 ≤ n ∧ n < 0xdc00 then
      match ns with
      | m :: ns =>
        if 0xdc00 ≤ m ∧ m < 0xe000 then
          (charsOfUnits? ns).map
            (Char.ofNat (0x10000 + (n - 0xd800) * 0x400 + (m - 0xdc00)) :: ·)
        else none
      | [] => none
    else if 0xdc00 ≤ n ∧ n < 0xe000 then none
    else (charsOfUnits? ns).map (Char.ofNat n :: ·)

/-- The string after its opening quote, and what follows it. The text is missing when the string
stands for none. -/
def string? (cs : List Char) : Option (Option String × List Char) :=
  (units? cs).map fun (ns, rest) ↦ ((charsOfUnits? ns).map String.ofList, rest)

/-- What follows a word. -/
def word? (word : String) (cs : List Char) : Option (List Char) :=
  if word.toList.isPrefixOf cs then some (cs.drop word.length) else none

/-- What follows a character, blanks before it and after it aside. -/
def punctuation? (c : Char) (cs : List Char) : Option (List Char) :=
  match skipBlanks cs with
  | d :: rest => if c = d then some (skipBlanks rest) else none
  | [] => none

/-- An object from its fields, whose names may be missing. -/
def ofFields (fields : List (Option String × Json)) : Json :=
  match fields.mapM fun (name, j) ↦ name.map (·, j) with
  | some fields => .object fields
  | none => .unreadable

mutual

/-- The value at the start of a text, and what follows it. The first argument bounds the number of
steps. -/
def value? : Nat → List Char → Option (Json × List Char)
  | 0, _ | _, [] => none
  | n + 1, c :: cs =>
    if c = '"' then do
      let (s, rest) ← string? cs
      return ((s.map text).getD unreadable, rest)
    else if c = '[' then do
      match punctuation? ']' cs with
      | some _ => return (list [], (skipBlanks cs).tail)
      | none =>
        let (items, rest) ← items? n (skipBlanks cs)
        return (list items, rest)
    else if c = '\x7b' then do
      match punctuation? '\x7d' cs with
      | some _ => return (object [], (skipBlanks cs).tail)
      | none =>
        let (fields, rest) ← fields? n (skipBlanks cs)
        return (ofFields fields, rest)
    else if c = 'n' then (word? "ull" cs).map (null, ·)
    else if c = 't' then (word? "rue" cs).map (bool true, ·)
    else if c = 'f' then (word? "alse" cs).map (bool false, ·)
    else number? (c :: cs)

/-- The items of an array with at least one, and what follows the closing bracket. -/
def items? : Nat → List Char → Option (List Json × List Char)
  | 0, _ => none
  | n + 1, cs => do
    let (j, rest) ← value? n cs
    match skipBlanks rest with
    | ']' :: rest => return ([j], rest)
    | ',' :: rest =>
      let (js, rest) ← items? n (skipBlanks rest)
      return (j :: js, rest)
    | _ => none

/-- The fields of an object with at least one, and what follows the closing brace. -/
def fields? : Nat → List Char → Option (List (Option String × Json) × List Char)
  | 0, _ => none
  | n + 1, cs => do
    let (name, rest) ← match cs with
      | '"' :: cs => string? cs
      | _ => none
    let rest ← punctuation? ':' rest
    let (j, rest) ← value? n rest
    match skipBlanks rest with
    | '\x7d' :: rest => return ([(name, j)], rest)
    | ',' :: rest =>
      let (fields, rest) ← fields? n (skipBlanks rest)
      return ((name, j) :: fields, rest)
    | _ => none

end

/-- The document that a whole text spells. Every step takes a character or enters a part, so twice
as many steps as characters are enough. -/
def read? (cs : List Char) : Option Json :=
  match value? (2 * cs.length + 2) (skipBlanks cs) with
  | some (j, rest) => if skipBlanks rest = [] then some j else none
  | none => none

end Stencil.Json
