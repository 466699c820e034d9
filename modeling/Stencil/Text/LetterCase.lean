import Stencil.Text.LetterCase.Tables

/-!
# Letter case

A text is mapped to upper or lower case character by character, with one rule that looks around:
a capital sigma at the end of a word becomes the final small sigma.

## Main definitions

* `Text.uppercase`, `Text.lowercase`: the two mappings.
* `Text.endsWord`: whether a sigma between two texts ends a word.
-/

namespace Stencil.Text

/-- The mapping of one character: a special mapping, else that of a run, else the character. -/
def caseMapping (specials : List (Nat × List Nat)) (runs : List CaseRun) (c : Char) : List Char :=
  match specials.lookup c.toNat with
  | some mapped => mapped.map Char.ofNat
  | none =>
    match runs.find? (·.covers c.toNat) with
    | some run => [Char.ofNat (c.toNat + run.distance).toNat]
    | none => [c]

/-- A text in upper case. -/
def uppercase (cs : List Char) : List Char :=
  cs.flatMap (caseMapping upperSpecials upperRuns)

/-- Whether the first character that is not case-ignorable is a cased letter. -/
def meetsCased (cs : List Char) : Bool :=
  match cs.dropWhile (inRanges caseIgnorableRanges) with
  | c :: _ => inRanges casedRanges c
  | [] => false

/-- Whether a character ends a word: a cased letter comes before it and none after it. The text
before is given from the nearest character outwards. -/
def endsWord (before after : List Char) : Bool :=
  meetsCased before && !meetsCased after

/-- The lower case of a text that follows `before`, given from the nearest character outwards. -/
def lowercaseAfter (before : List Char) : List Char → List Char
  | [] => []
  | c :: cs =>
    let mapped :=
      if c = 'Σ' then [if endsWord before cs then 'ς' else 'σ']
      else caseMapping lowerSpecials lowerRuns c
    mapped ++ lowercaseAfter (c :: before) cs

/-- A text in lower case. -/
def lowercase (cs : List Char) : List Char :=
  lowercaseAfter [] cs

end Stencil.Text
