import Stencil.Value.Number

/-!
# Looking into values

Maps are searched by key and lists by position. A key that spells a position finds the item of a
list, and a position finds the entry of a map under its decimal text.

## Main definitions

* `Value.atKey?`, `Value.atIndex?`: the value found under a key or at a position.
-/

namespace Stencil.Value

/-- What stands under a key. -/
def atKey? (v : Value) (key : String) : Option Value :=
  match v with
  | map entries => Entries.get? entries key
  | list items => (Numeral.index? key.toList).bind (items[·]?)
  | _ => none

/-- What stands at a position. -/
def atIndex? (v : Value) (i : Int64) : Option Value :=
  match v with
  | list items => if 0 ≤ i.toInt then items[i.toInt.toNat]? else none
  | map entries => Entries.get? entries (intText i)
  | _ => none

end Stencil.Value
