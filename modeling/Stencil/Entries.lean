/-!
# Entries

Named things kept in the order of their names, each name once. Names are compared by code points,
which is also the order of their bytes in UTF-8.

## Main definitions

* `Entries`: pairs of a name and what it names.
* `Entries.get?`, `Entries.put`: looking a name up, and giving it a new meaning.
* `Entries.merge`, `Entries.ofList`: several such steps in order, so that the last one wins.

## Main results

* `Entries.get?_put`: a name means what it was last given, and other names are untouched.
-/

namespace Stencil

/-- Pairs of a name and what it names, in increasing order of the names. -/
abbrev Entries (α : Type) := List (String × α)

namespace Entries

variable {α : Type}

/-- What a name stands for. -/
def get? (entries : Entries α) (name : String) : Option α :=
  List.lookup name entries

/-- The entries with a name standing for something new. -/
def put (entries : Entries α) (name : String) (a : α) : Entries α :=
  match entries with
  | [] => [(name, a)]
  | (n, b) :: rest =>
    if name = n then (name, a) :: rest
    else if name < n then (name, a) :: (n, b) :: rest
    else (n, b) :: put rest name a

theorem get?_cons (n other : String) (b : α) (rest : Entries α) :
    get? ((n, b) :: rest) other = if other = n then some b else get? rest other := by
  by_cases h : other = n
  · simp [get?, h]
  · simp [get?, List.lookup_cons, h, beq_eq_false_iff_ne.mpr h]

theorem get?_put (entries : Entries α) (name other : String) (a : α) :
    get? (put entries name a) other = if other = name then some a else get? entries other := by
  induction entries with
  | nil => simp [put, get?_cons]
  | cons e rest ih => grind [put, get?_cons]

/-- The entries with some more put in, one after the other. -/
def merge (entries more : Entries α) : Entries α :=
  more.foldl (fun es e ↦ put es e.1 e.2) entries

/-- Pairs in any order as entries; of pairs with one name the last counts. -/
def ofList (pairs : List (String × α)) : Entries α :=
  merge [] pairs

end Entries

end Stencil
