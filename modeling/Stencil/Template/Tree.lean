import Stencil.Template.Node

/-!
# Trees under construction

The tags of a template arrive in source order. Text and variables go to the innermost open block,
or to the root; closing a block makes it a node of what surrounds it. All sequences are kept latest
first while they grow.

## Main definitions

* `Template.Tag`: the tags.
* `Template.OpenBlock`: a block whose end tag has not come.
* `Template.Tree`, `Template.Tree.addText`, `Template.Tree.apply`: the tree and its growth.
-/

namespace Stencil.Template

/-- A recognised tag. -/
inductive Tag
  | show (p : Path)
  | ifTrue (test : Expr)
  | elseIf (test : Expr)
  | otherwise
  | endIf

/-- A block whose end tag has not come. -/
structure OpenBlock where
  /-- The finished branches, latest first. -/
  branches : List (Expr × List Node)
  /-- The test of the branch being filled, and none in the else part. -/
  test : Option Expr
  /-- The body being filled, latest node first. -/
  body : List Node
  /-- The else part, once it is finished. -/
  otherwise : Option (List Node)

namespace OpenBlock

/-- A block that has just been opened. -/
def start (test : Expr) : OpenBlock :=
  ⟨[], some test, [], none⟩

/-- The block with the body being filled put where it belongs. -/
def finishPart (b : OpenBlock) : OpenBlock :=
  match b.test with
  | some e => { b with branches := (e, b.body.reverse) :: b.branches, test := none, body := [] }
  | none => { b with otherwise := some b.body.reverse, body := [] }

/-- The block with a new part begun: a branch with a test, or the else part. -/
def startPart (b : OpenBlock) (test : Option Expr) : OpenBlock :=
  { b.finishPart with test := test }

/-- The node of a block that ends here. -/
def close (b : OpenBlock) : Node :=
  .conditional b.finishPart.branches.reverse b.finishPart.otherwise

end OpenBlock

/-- Nodes, latest first, with text added. Text joins the text before it. -/
def joinText (s : String) : List Node → List Node
  | .text t :: nodes => .text (t ++ s) :: nodes
  | nodes => .text s :: nodes

/-- A tree under construction. -/
structure Tree where
  /-- The nodes outside of all blocks, latest first. -/
  root : List Node
  /-- The open blocks, innermost first. -/
  opened : List OpenBlock

namespace Tree

/-- The tree of an empty template. -/
def empty : Tree :=
  ⟨[], []⟩

/-- Changes the nodes that are being filled. -/
def update (t : Tree) (f : List Node → List Node) : Tree :=
  match t.opened with
  | [] => { t with root := f t.root }
  | b :: outer => { t with opened := { b with body := f b.body } :: outer }

/-- Adds text. -/
def addText (t : Tree) (cs : List Char) : Tree :=
  if cs = [] then t else t.update (joinText (String.ofList cs))

/-- Begins a new part of the innermost block. -/
def startPart (t : Tree) (test : Option Expr) : Tree :=
  match t.opened with
  | [] => t
  | b :: outer => { t with opened := b.startPart test :: outer }

/-- Adds a tag. -/
def apply (t : Tree) : Tag → Tree
  | .show p => t.update (.variable p :: ·)
  | .ifTrue e => { t with opened := .start e :: t.opened }
  | .elseIf e => t.startPart (some e)
  | .otherwise => t.startPart none
  | .endIf =>
    match t.opened with
    | [] => t
    | b :: outer => { t with opened := outer }.update (b.close :: ·)

end Tree

end Stencil.Template
