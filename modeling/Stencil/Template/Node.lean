import Stencil.Expr

/-!
# Nodes

A compiled template is a sequence of nodes: text that is copied, variables that are shown, and
blocks that show the body of their first branch whose test is true.

## Main definitions

* `Node`: the nodes.
* `Node.same`, `Node.sameList`: equality of nodes, literals being compared as values.
-/

namespace Stencil

/-- A node of a compiled template. -/
inductive Node
  | text (s : String)
  | variable (p : Path)
  /-- The branches with their tests, and the body to show when no test is true. -/
  | conditional (branches : List (Expr × List Node)) (otherwise : Option (List Node))

namespace Node

mutual

/-- Whether two nodes are equal, the literals in their tests compared as values. -/
def same : Node → Node → Bool
  | text s, text t => s == t
  | .variable p, .variable q => p == q
  | conditional as (some a), conditional bs (some b) => sameBranches as bs && sameList a b
  | conditional as none, conditional bs none => sameBranches as bs
  | _, _ => false

/-- Whether two sequences of nodes are equal. -/
def sameList : List Node → List Node → Bool
  | [], [] => true
  | a :: as, b :: bs => a.same b && sameList as bs
  | _, _ => false

/-- Whether two sequences of branches are equal. -/
def sameBranches : List (Expr × List Node) → List (Expr × List Node) → Bool
  | [], [] => true
  | (e, a) :: as, (f, b) :: bs => e.same f && sameList a b && sameBranches as bs
  | _, _ => false

end

end Node

end Stencil
