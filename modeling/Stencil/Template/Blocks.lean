import Stencil.Entries

/-!
# Open blocks

Blocks of every kind are closed in the reverse order of their opening, independently of the blocks
of other kinds. Kinds are named in any letter case.

## Main definitions

* `Template.Frame`: an open block.
* `Template.Blocks`: the open blocks by kind.
* `Template.Blocks.push`, `pop`, `current?`, `markElse`, `drain`: its operations.
-/

namespace Stencil.Template

/-- An open block: the byte offset of its opening tag, and whether its else part has begun. -/
structure Frame where
  offset : Nat
  hasElse : Bool
  deriving DecidableEq, Repr

/-- The open blocks of each kind, innermost first. -/
structure Blocks where
  byKind : Entries (List Frame)
  deriving DecidableEq, Repr

namespace Blocks

/-- No open blocks. -/
def empty : Blocks :=
  ⟨[]⟩

/-- The kind that a name denotes: letter case does not count. -/
def fold (kind : String) : String :=
  kind.map Char.toLower

/-- The open blocks of a kind, innermost first. -/
def ofKind (b : Blocks) (kind : String) : List Frame :=
  (Entries.get? b.byKind (fold kind)).getD []

/-- The blocks with those of one kind replaced. -/
def setKind (b : Blocks) (kind : String) (frames : List Frame) : Blocks :=
  ⟨Entries.put b.byKind (fold kind) frames⟩

/-- Opens a block. -/
def push (b : Blocks) (kind : String) (offset : Nat) : Blocks :=
  b.setKind kind (⟨offset, false⟩ :: b.ofKind kind)

/-- The innermost open block of a kind. -/
def current? (b : Blocks) (kind : String) : Option Frame :=
  (b.ofKind kind).head?

/-- Closes the innermost open block of a kind, if there is one. -/
def pop (b : Blocks) (kind : String) : Blocks :=
  match b.ofKind kind with
  | [] => b
  | _ :: outer => b.setKind kind outer

/-- The else part of the innermost open block of a kind begins. -/
def markElse (b : Blocks) (kind : String) : Blocks :=
  match b.ofKind kind with
  | [] => b
  | frame :: outer => b.setKind kind ({ frame with hasElse := true } :: outer)

/-- All open blocks with their kinds: the kinds in order, the blocks of a kind from the innermost
outwards. -/
def drain (b : Blocks) : List (String × Frame) :=
  b.byKind.flatMap fun e ↦ e.2.map (e.1, ·)

end Blocks

end Stencil.Template
