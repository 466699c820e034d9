import Stencil.Value.Basic

/-!
# TOML tables

The tables of a document are built step by step, and each may be defined only once. A table that
came into being on the way to another one may still be defined by a header of its own, or be
extended by dotted keys if such keys made it.

## Main definitions

* `Toml.Item`: what a key of a table under construction stands for.
* `Toml.Items.assign?`: a dotted key with its value.
* `Toml.Items.define?`, `Toml.Items.append?`: the headers of tables and of arrays of tables.
* `Toml.Item.value`: the finished value.
-/

namespace Stencil.Toml

/-- What a key of a table under construction stands for. -/
inductive Item
  | leaf (v : Value)
  /-- A table that came into being on the way to another one or not, and by dotted keys or not. -/
  | table (implicit dotted : Bool) (entries : List (String × Item))
  /-- The tables of an array, the latest first. -/
  | tables (items : List (List (String × Item)))

mutual

/-- The finished value of an item. -/
def Item.value : Item → Value
  | .leaf v => v
  | .table _ _ entries => .map (itemValues entries)
  | .tables items => .list (tableValues items).reverse

/-- The finished values of the entries of a table. -/
def itemValues : List (String × Item) → List (String × Value)
  | [] => []
  | (key, item) :: entries => (key, item.value) :: itemValues entries

/-- The finished values of some tables. -/
def tableValues : List (List (String × Item)) → List Value
  | [] => []
  | entries :: rest => .map (itemValues entries) :: tableValues rest

end

/-- The entries of a table under construction. -/
abbrev Items := Entries Item

namespace Items

/-- The entries with a value put under the last of some keys. The keys before it lead through
tables that dotted keys made, or that came into being on the way to another one; the last of these
tables must have been made by dotted keys. -/
def assign? (v : Value) (key : String) : List String → Items → Option Items
  | [], entries =>
    if (Entries.get? entries key).isSome then none else some (Entries.put entries key (.leaf v))
  | k :: ks, entries =>
    match Entries.get? entries k with
    | none => (assign? v key ks []).map fun sub ↦ Entries.put entries k (.table true true sub)
    | some (.table true dotted sub) =>
      if ks.isEmpty && !dotted then none
      else (assign? v key ks sub).map fun sub ↦ Entries.put entries k (.table true dotted sub)
    | some (.tables (sub :: earlier)) =>
      if ks.isEmpty then none
      else (assign? v key ks sub).map fun sub ↦ Entries.put entries k (.tables (sub :: earlier))
    | some _ => none

/-- The entries with a change in the table that some keys lead to. Arrays of tables lead to their
latest table, and tables come into being on the way. -/
def modify? (f : Items → Option Items) : List String → Items → Option Items
  | [], entries => f entries
  | k :: ks, entries =>
    match Entries.get? entries k with
    | none => (modify? f ks []).map fun sub ↦ Entries.put entries k (.table true false sub)
    | some (.table implicit dotted sub) =>
      (modify? f ks sub).map fun sub ↦ Entries.put entries k (.table implicit dotted sub)
    | some (.tables (sub :: earlier)) =>
      (modify? f ks sub).map fun sub ↦ Entries.put entries k (.tables (sub :: earlier))
    | some _ => none

/-- The entries with a table defined. It may exist already if it only came into being on the way to
another one. -/
def define? (key : String) (entries : Items) : Option Items :=
  match Entries.get? entries key with
  | none => some (Entries.put entries key (.table false false []))
  | some (.table true false sub) => some (Entries.put entries key (.table false false sub))
  | some _ => none

/-- The entries with one more table in an array of tables. -/
def append? (key : String) (entries : Items) : Option Items :=
  match Entries.get? entries key with
  | none => some (Entries.put entries key (.tables [[]]))
  | some (.tables items) => some (Entries.put entries key (.tables ([] :: items)))
  | some _ => none

end Items

end Stencil.Toml
