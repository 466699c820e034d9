import Stencil.Operator
import Stencil.Text.Cursor
import Stencil.Text.Lexeme

/-!
# Tokens

The inside of a tag is a sequence of tokens with blanks between them, up to the right delimiter. At
each place the longest possible token is taken; what starts no token is taken up to the next blank
or the delimiter.

## Main definitions

* `Token`, `Token.Kind`: a token, its kind, its text and its place.
* `Token.lexeme`: the kind and the length of the token at the start of a text.
* `Token.scan`: the tokens from a place on, and the place after the last one.

## Main results

* `Token.lexeme_length_pos`: a token takes at least one character, so the tokens come to an end.
-/

namespace Stencil

/-- The kinds of tokens. -/
inductive Token.Kind
  | path
  | quoted
  | number
  | truth
  | binary
  | unary
  | openParen
  | closeParen
  /-- A bare word, which may name a function. -/
  | word
  /-- A single equals sign. -/
  | assign
  /-- The right delimiter. -/
  | close
  | other
  deriving DecidableEq, Repr

/-- The kinds that are operands on their own. -/
def Token.Kind.isOperand : Token.Kind → Bool
  | path | quoted | number | truth => true
  | _ => false

/-- A token with its text and the byte offset of its place. -/
structure Token where
  kind : Token.Kind
  text : List Char
  offset : Nat
  deriving DecidableEq, Repr

namespace Token

/-- The byte offset after a token. -/
def stop (t : Token) : Nat :=
  t.offset + Text.byteLength t.text

/-- The text of a token as a string. -/
def symbol (t : Token) : String :=
  String.ofList t.text

/-- The kind and the length of a token. -/
structure Lexeme where
  kind : Kind
  length : Nat
  deriving DecidableEq, Repr

/-- The length of a literal in quotes. No line feed may follow a backslash here. -/
def quotedLength? : List Char → Option Nat :=
  Text.quotedLengthWith? (· != '\n')

/-- The length of what may follow the digits of a number: a fraction, or after a lone zero a
hexadecimal part. -/
def tailLength (digits rest : List Char) : Nat :=
  let hex := if digits = ['0'] then Text.hexTailLength? rest else none
  (hex.or (Text.fractionLength? rest)).getD 0

/-- The length of digits and their tail. -/
def unsignedLength? (cs : List Char) : Option Nat :=
  if Text.digitsLength cs = 0 then none
  else
    some (Text.digitsLength cs +
      tailLength (cs.take (Text.digitsLength cs)) (cs.drop (Text.digitsLength cs)))

/-- The length of a number. -/
def numberLength? : List Char → Option Nat
  | '-' :: cs => (unsignedLength? cs).map (· + 1)
  | cs => (unsignedLength? cs).or (Text.fractionLength? cs)

/-- The length of a bare word. -/
def wordLength? : List Char → Option Nat
  | c :: cs => if Text.isNameStart c then some (Text.wordLength (c :: cs)) else none
  | [] => none

/-- The kind of a bare word. -/
def wordKind (word : List Char) : Kind :=
  if String.ofList word = "true" ∨ String.ofList word = "false" then .truth else .word

/-- The kind of a symbol. -/
def symbolKind? (symbol : String) : Option Kind :=
  if (BinaryOp.ofSymbol? symbol).isSome then some .binary
  else if (UnaryOp.ofSymbol? symbol).isSome then some .unary
  else if symbol = "(" then some .openParen
  else if symbol = ")" then some .closeParen
  else if symbol = "=" then some .assign
  else none

/-- The symbol of exactly `n` characters at the start of a text. -/
def symbolOf? (cs : List Char) (n : Nat) : Option Lexeme :=
  if (cs.take n).length = n then (symbolKind? (String.ofList (cs.take n))).map (⟨·, n⟩) else none

/-- The longest symbol at the start of a text. -/
def symbol? (cs : List Char) : Option Lexeme :=
  ((symbolOf? cs 3).or (symbolOf? cs 2)).or (symbolOf? cs 1)

/-- The bare word at the start of a text. -/
def word? (cs : List Char) : Option Lexeme :=
  (wordLength? cs).map fun n ↦ ⟨wordKind (cs.take n), n⟩

/-- The token at the start of a text, if the text starts one. -/
def known? (cs : List Char) : Option Lexeme :=
  ((Text.pathLength? cs).map (Lexeme.mk .path)).or <|
    ((quotedLength? cs).map (Lexeme.mk .quoted)).or <|
      ((numberLength? cs).map (Lexeme.mk .number)).or <| (word? cs).or (symbol? cs)

/-- How far a text goes on without a blank or the right delimiter. -/
def plainLength (right : List Char) : List Char → Nat
  | [] => 0
  | c :: cs => if Text.isBlank c || right.isPrefixOf (c :: cs) then 0 else plainLength right cs + 1

/-- The token at the start of a text that is not empty and starts neither with a blank nor with the
right delimiter. -/
def lexeme (right cs : List Char) : Lexeme :=
  (known? cs).getD ⟨.other, plainLength right cs.tail + 1⟩

theorem unsignedLength?_pos {cs : List Char} {n : Nat} (h : unsignedLength? cs = some n) :
    0 < n := by
  unfold unsignedLength? at h
  split at h
  · simp at h
  · simp only [Option.some.injEq] at h
    omega

theorem fractionLength?_pos {cs : List Char} {n : Nat} (h : Text.fractionLength? cs = some n) :
    0 < n := by
  unfold Text.fractionLength? at h
  split at h
  · split at h
    · simp at h
    · simp only [Option.some.injEq] at h
      omega
  · simp at h

theorem numberLength?_pos {cs : List Char} {n : Nat} (h : numberLength? cs = some n) : 0 < n := by
  unfold numberLength? at h
  split at h
  · obtain ⟨k, -, rfl⟩ := Option.map_eq_some_iff.mp h
    omega
  · rcases Option.or_eq_some_iff.mp h with h | ⟨-, h⟩
    · exact unsignedLength?_pos h
    · exact fractionLength?_pos h

theorem wordLength?_pos {cs : List Char} {n : Nat} (h : wordLength? cs = some n) : 0 < n := by
  unfold wordLength? at h
  split at h
  · split at h
    · rename_i c cs hc
      have hw : Text.isWordChar c = true := by
        simp only [Text.isNameStart, Bool.or_eq_true] at hc
        rcases hc with hc | hc <;> simp [Text.isWordChar, Char.isAlphanum, hc]
      simp only [Text.wordLength, List.takeWhile_cons, hw, if_true, List.length_cons,
        Option.some.injEq] at h
      omega
    · simp at h
  · simp at h

theorem pathLength?_pos {cs : List Char} {n : Nat} (h : Text.pathLength? cs = some n) :
    0 < n := by
  unfold Text.pathLength? at h
  split at h
  · split at h
    · simp at h
    · simp only [Option.some.injEq] at h
      omega
  · simp at h

theorem symbol?_pos {cs : List Char} {l : Lexeme} (h : symbol? cs = some l) : 0 < l.length := by
  have pos {n : Nat} (hn : 0 < n) (h : symbolOf? cs n = some l) : 0 < l.length := by
    unfold symbolOf? at h
    split at h
    · obtain ⟨k, -, rfl⟩ := Option.map_eq_some_iff.mp h
      exact hn
    · simp at h
  rcases Option.or_eq_some_iff.mp h with h | ⟨-, h⟩
  · rcases Option.or_eq_some_iff.mp h with h | ⟨-, h⟩
    · exact pos (by decide) h
    · exact pos (by decide) h
  · exact pos (by decide) h

theorem known?_pos {cs : List Char} {l : Lexeme} (h : known? cs = some l) : 0 < l.length := by
  rcases Option.or_eq_some_iff.mp h with h | ⟨-, h⟩
  · obtain ⟨n, hn, rfl⟩ := Option.map_eq_some_iff.mp h
    exact pathLength?_pos hn
  rcases Option.or_eq_some_iff.mp h with h | ⟨-, h⟩
  · obtain ⟨n, hn, rfl⟩ := Option.map_eq_some_iff.mp h
    exact Text.quotedLengthWith?_pos hn
  rcases Option.or_eq_some_iff.mp h with h | ⟨-, h⟩
  · obtain ⟨n, hn, rfl⟩ := Option.map_eq_some_iff.mp h
    exact numberLength?_pos hn
  rcases Option.or_eq_some_iff.mp h with h | ⟨-, h⟩
  · obtain ⟨n, hn, rfl⟩ := Option.map_eq_some_iff.mp h
    exact wordLength?_pos hn
  · exact symbol?_pos h

/-- A token takes at least one character. -/
theorem lexeme_length_pos (right cs : List Char) : 0 < (lexeme right cs).length := by
  unfold lexeme
  cases h : known? cs with
  | none => simp
  | some l => simpa using known?_pos h

/-- The tokens from a place on, the right delimiter being the last one, and the place after
them. -/
def scan (right : List Char) (c : Text.Cursor) : List Token × Text.Cursor :=
  let start := c.skipBlanks
  if start.rest = [] then
    ([], start)
  else if right.isPrefixOf start.rest then
    ([⟨.close, right, start.offset⟩], start.advance right.length)
  else
    let l := lexeme right start.rest
    let (tokens, stop) := scan right (start.advance l.length)
    (⟨l.kind, start.rest.take l.length, start.offset⟩ :: tokens, stop)
termination_by c.rest.length
decreasing_by
  have := lexeme_length_pos right c.skipBlanks.rest
  have := List.length_pos_iff.mpr ‹¬c.skipBlanks.rest = []›
  have := c.length_rest_skipBlanks_le
  rw [Text.Cursor.length_rest_advance]
  omega

end Token

end Stencil
