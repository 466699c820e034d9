import Stencil.Context
import Stencil.Program.Stored
import Stencil.Toml.Reader

/-!
# Loading contexts and delimiters

Variables come from a JSON object or from a TOML document, delimiters from the table of that name
in a TOML document.

## Main definitions

* `Context.ofJson?`, `Context.ofToml?`: the variables of a text.
* `Delimiters.ofToml?`: the delimiters of a text.
-/

namespace Stencil

namespace Context

/-- The greatest number of arrays and objects around a value. -/
def maxNesting : Nat := 127

/-- The variables of a JSON object. -/
def ofJson? (s : String) : Option Context := do
  let j ← Json.read? s.toList
  if maxNesting < j.depth then none
  match ← Value.ofJson? j with
  | .map entries => some ⟨entries⟩
  | _ => none

/-- The variables of a TOML document. -/
def ofToml? (s : String) : Option Context :=
  (Toml.read? s.toList).map Context.mk

end Context

namespace Delimiters

/-- A delimiter that may be missing, and must be a text if it is there. -/
def side? (entries : Entries Value) (key : String) : Option (Option String) :=
  match Entries.get? entries key with
  | none => some none
  | some (.text s) => some (some s)
  | some _ => none

/-- The delimiters of a value: a table with one or both of them, or a list of both. -/
def ofValue? (v : Value) : Option Delimiters := do
  let (left, right) ← match v with
    | .map entries => some (← side? entries "left", ← side? entries "right")
    | .list (.text left :: .text right :: _) => some (some left, some right)
    | _ => none
  (standard.override left right).toOption

/-- The delimiters of a TOML document, the standard ones when it names none. -/
def ofToml? (s : String) : Option Delimiters := do
  match Entries.get? (← Toml.read? s.toList) "delimiters" with
  | none => some standard
  | some v => ofValue? v

end Delimiters

end Stencil
