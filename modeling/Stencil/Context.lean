import Stencil.Value.Basic

/-!
# Contexts

The variables that a template is rendered with.

## Main definitions

* `Context`: named values.
* `Context.get?`, `Context.insert`, `Context.extend`: looking up and binding variables.
-/

namespace Stencil

/-- Named values. -/
structure Context where
  vars : Entries Value

namespace Context

/-- No variables. -/
def empty : Context :=
  ⟨[]⟩

/-- The value of a variable. -/
def get? (c : Context) (name : String) : Option Value :=
  Entries.get? c.vars name

/-- The context with a variable bound to a value. -/
def insert (c : Context) (name : String) (v : Value) : Context :=
  ⟨Entries.put c.vars name v⟩

/-- The context with the variables of another one, which win over its own. -/
def extend (c other : Context) : Context :=
  ⟨Entries.merge c.vars other.vars⟩

/-- The number of variables. -/
def size (c : Context) : Nat :=
  c.vars.length

end Context

end Stencil
