import Stencil.Text.Quoted

/-!
# Lexemes

The pieces that variable paths and literals are made of. Each measure says how many characters at
the start of a source belong to the piece, and gives none, or zero, where the source starts with
something else. Names, digits and brackets are ASCII; only a quoted text can hold more.

## Main definitions

* `Text.wordLength`, `Text.digitsLength`: runs of word characters and of digits.
* `Text.selectorLength?`, `Text.bracketLength?`: one step of a path, `.name` or `[index]`.
* `Text.stepsLength`, `Text.pathLength?`: all steps, and a whole path after its percent sign.
* `Text.hexTailLength?`, `Text.fractionLength?`: what may follow the digits of a number.

## Main results

* `Text.stepLength?_pos`: a step takes at least one character, so the steps of a path come to an
  end.
-/

namespace Stencil.Text

/-- Letters and digits of ASCII, and the underscore. -/
def isWordChar (c : Char) : Bool :=
  c.isAlphanum || c == '_'

/-- The word characters that a name may start with. -/
def isNameStart (c : Char) : Bool :=
  c.isAlpha || c == '_'

/-- The length of the run of word characters at the start of a source. -/
def wordLength (cs : List Char) : Nat :=
  (cs.takeWhile isWordChar).length

/-- The length of the run of decimal digits at the start of a source. -/
def digitsLength (cs : List Char) : Nat :=
  (cs.takeWhile Char.isDigit).length

/-- The length of `.name`. -/
def selectorLength? : List Char → Option Nat
  | '.' :: c :: cs => if isNameStart c then some (1 + wordLength (c :: cs)) else none
  | _ => none

/-- The length of what stands between brackets: digits or a quoted text. -/
def indexLength? (cs : List Char) : Option Nat :=
  if digitsLength cs = 0 then quotedLength? cs else some (digitsLength cs)

/-- The length of `[12]`, `["key"]` or `['key']`. -/
def bracketLength? : List Char → Option Nat
  | '[' :: cs => do
    let inner ← indexLength? cs
    if (cs.drop inner).head? = some ']' then some (inner + 2) else none
  | _ => none

/-- The length of the step at the start of a source. -/
def stepLength? (cs : List Char) : Option Nat :=
  (selectorLength? cs).or (bracketLength? cs)

theorem selectorLength?_pos {cs : List Char} {n : Nat} (h : selectorLength? cs = some n) :
    0 < n ∧ cs ≠ [] := by
  unfold selectorLength? at h
  split at h
  · split at h
    · simp only [Option.some.injEq] at h
      exact ⟨by omega, List.cons_ne_nil _ _⟩
    · simp at h
  · simp at h

theorem bracketLength?_pos {cs : List Char} {n : Nat} (h : bracketLength? cs = some n) :
    0 < n ∧ cs ≠ [] := by
  unfold bracketLength? at h
  split at h
  · simp only [Option.bind_eq_bind, Option.bind_eq_some_iff] at h
    obtain ⟨inner, -, h⟩ := h
    split at h
    · simp only [Option.some.injEq] at h
      exact ⟨by omega, List.cons_ne_nil _ _⟩
    · simp at h
  · simp at h

/-- A step takes at least one character. -/
theorem stepLength?_pos {cs : List Char} {n : Nat} (h : stepLength? cs = some n) :
    0 < n ∧ cs ≠ [] := by
  rcases Option.or_eq_some_iff.mp h with h | ⟨-, h⟩
  · exact selectorLength?_pos h
  · exact bracketLength?_pos h

theorem length_drop_lt {cs : List Char} {n : Nat} (h : 0 < n ∧ cs ≠ []) :
    (cs.drop n).length < cs.length := by
  have := List.length_pos_iff.mpr h.2
  simp only [List.length_drop]
  omega

/-- The length of all the steps at the start of a source. -/
def stepsLength (cs : List Char) : Nat :=
  match _h : stepLength? cs with
  | some n => n + stepsLength (cs.drop n)
  | none => 0
termination_by cs.length
decreasing_by exact length_drop_lt (stepLength?_pos ‹_›)

/-- The length of `%name` and the steps after it. -/
def pathLength? : List Char → Option Nat
  | '%' :: cs =>
    if wordLength cs = 0 then none
    else some (1 + wordLength cs + stepsLength (cs.drop (wordLength cs)))
  | _ => none

/-- The length of `x` and hexadecimal digits, as they follow a leading zero. -/
def hexTailLength? : List Char → Option Nat
  | c :: cs =>
    let n := (cs.takeWhile Numeral.isHexDigit).length
    if (c = 'x' ∨ c = 'X') ∧ 0 < n then some (1 + n) else none
  | [] => none

/-- The length of a point and decimal digits, as they follow a whole number. -/
def fractionLength? : List Char → Option Nat
  | '.' :: cs => if digitsLength cs = 0 then none else some (1 + digitsLength cs)
  | _ => none

end Stencil.Text
