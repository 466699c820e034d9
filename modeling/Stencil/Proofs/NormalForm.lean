import Mathlib.Data.List.Chain
import Stencil.Proofs.Canonical

/-!
# Normal form

A program that was compiled is in normal form. Text is added to the text before it and never begins
an empty one, so no text is empty and no two of them are neighbours. A block begins with a test, so
it has a branch when it ends. The expressions of its tests are those of the grammar, and its paths
are those that texts spell.

All of this is kept by every tag, whether it may stand where it stands or not: it is a property of
the tree under construction.

## Main definitions

* `Expr.Normal`: an expression of the grammar whose paths are spelled by texts.
* `Node.Normal`, `Node.NormalList`: nodes in normal form.
* `Template.OpenBlock.Normal`, `Template.Tree.Normal`: the same for what is under construction.

## Main results

* `Template.Tree.Normal.grow`: a tree in normal form stays in it when a span is added.
* `Program.normalList_of_compile`: what is compiled is in normal form.
-/

namespace Stencil

/-- An expression of the grammar whose paths are spelled by texts. -/
structure Expr.Normal (e : Expr) : Prop where
  wellFormed : e.WellFormed
  paths : ∀ p ∈ e.paths, p.WellFormed

namespace Node

/-- The nodes that are text. -/
def IsText : Node → Prop
  | text _ => True
  | .variable _ | conditional _ _ => False

/-- Two nodes that are not both text. -/
def Apart (a b : Node) : Prop :=
  ¬ (a.IsText ∧ b.IsText)

mutual

/-- A node in normal form: a text that is not empty, a path that is spelled by a text, or a block
with a branch at least. -/
inductive Normal : Node → Prop
  | text {s : String} (hne : s ≠ "") : Normal (.text s)
  | variable {p : Path} (h : p.WellFormed) : Normal (.variable p)
  | conditional {branches : List (Expr × List Node)} {otherwise : Option (List Node)}
      (hne : branches ≠ []) (htests : ∀ branch ∈ branches, branch.1.Normal)
      (hbodies : ∀ branch ∈ branches, NormalList branch.2)
      (helse : ∀ body ∈ otherwise, NormalList body) : Normal (.conditional branches otherwise)

/-- Nodes in normal form: each of them is, and no two neighbours are both text. -/
inductive NormalList : List Node → Prop
  | intro {nodes : List Node} (hnodes : ∀ node ∈ nodes, Normal node)
      (hapart : nodes.IsChain Apart) : NormalList nodes

end

variable {a : Node} {nodes : List Node}

theorem normalList_nil : NormalList [] :=
  .intro (List.forall_mem_nil _) .nil

theorem normalList_cons_iff : NormalList (a :: nodes) ↔
    a.Normal ∧ (∀ b ∈ nodes.head?, a.Apart b) ∧ NormalList nodes := by
  constructor
  · rintro ⟨hnodes, hapart⟩
    obtain ⟨ha, hnodes⟩ := List.forall_mem_cons.mp hnodes
    obtain ⟨hhead, hapart⟩ := List.isChain_cons.mp hapart
    exact ⟨ha, hhead, hnodes, hapart⟩
  · rintro ⟨ha, hhead, hnodes, hapart⟩
    exact ⟨List.forall_mem_cons.mpr ⟨ha, hnodes⟩, List.isChain_cons.mpr ⟨hhead, hapart⟩⟩

/-- Nodes may be listed from either end. -/
theorem NormalList.reverse (h : NormalList nodes) : NormalList nodes.reverse := by
  obtain ⟨hnodes, hapart⟩ := h
  refine ⟨fun node hnode ↦ hnodes node (List.mem_reverse.mp hnode), ?_⟩
  exact List.isChain_reverse.mpr (hapart.imp fun a b hab hba ↦ hab hba.symm)

theorem NormalList.cons (h : NormalList nodes) (ha : a.Normal) (htext : ¬ a.IsText) :
    NormalList (a :: nodes) :=
  normalList_cons_iff.mpr ⟨ha, fun _ _ hboth ↦ htext hboth.1, h⟩

/-- Text joins the text before it. -/
theorem NormalList.joinText {s : String} (h : NormalList nodes) (hs : s ≠ "") :
    NormalList (Template.joinText s nodes) := by
  have hfirst (hhead : ∀ b ∈ nodes.head?, ¬ b.IsText) : NormalList (.text s :: nodes) :=
    normalList_cons_iff.mpr ⟨.text hs, fun b hb hboth ↦ hhead b hb hboth.2, h⟩
  cases nodes with
  | nil => exact hfirst (by simp)
  | cons node nodes =>
    cases node with
    | text t =>
      obtain ⟨-, hhead, hnodes⟩ := normalList_cons_iff.mp h
      have hne : t ++ s ≠ "" := fun hnil ↦ hs (String.append_eq_empty_iff.mp hnil).2
      exact normalList_cons_iff.mpr ⟨.text hne, hhead, hnodes⟩
    | «variable» p => exact hfirst (by simp [IsText])
    | conditional branches otherwise => exact hfirst (by simp [IsText])

end Node

namespace Template

open Node (NormalList)

/-! ### What is under construction -/

/-- An open block in normal form. The else part begins behind a branch at least. -/
structure OpenBlock.Normal (b : OpenBlock) : Prop where
  tests : ∀ branch ∈ b.branches, branch.1.Normal
  bodies : ∀ branch ∈ b.branches, NormalList branch.2
  test : ∀ e ∈ b.test, e.Normal
  begun : b.test = none → b.branches ≠ []
  body : NormalList b.body
  otherwise : ∀ body ∈ b.otherwise, NormalList body

/-- A tree in normal form. -/
structure Tree.Normal (t : Tree) : Prop where
  root : NormalList t.root
  opened : ∀ b ∈ t.opened, b.Normal

/-- A tag whose test or path is in normal form. -/
structure Tag.Normal (t : Tag) : Prop where
  tests : ∀ e ∈ t.tests, e.Normal
  path : ∀ p, t = .show p → p.WellFormed

variable {b : OpenBlock} {t : Tree} {tag : Tag} {span : Span} {spans : List Span}

theorem OpenBlock.normal_start {e : Expr} (h : e.Normal) : (OpenBlock.start e).Normal where
  tests := List.forall_mem_nil _
  bodies := List.forall_mem_nil _
  test := by simpa [start] using h
  begun := nofun
  body := Node.normalList_nil
  otherwise := nofun

/-- A part that is put in its place leaves a branch behind, whichever part it is. -/
theorem OpenBlock.Normal.finishPart (h : b.Normal) :
    b.finishPart.Normal ∧ b.finishPart.branches ≠ [] := by
  obtain ⟨branches, test, body, otherwise⟩ := b
  obtain ⟨htests, hbodies, htest, hbegun, hbody, helse⟩ := h
  cases test with
  | some e =>
    refine ⟨⟨?_, ?_, nofun, fun _ ↦ List.cons_ne_nil _ _, Node.normalList_nil, helse⟩,
      List.cons_ne_nil _ _⟩
    · exact List.forall_mem_cons.mpr ⟨htest e rfl, htests⟩
    · exact List.forall_mem_cons.mpr ⟨hbody.reverse, hbodies⟩
  | none =>
    refine ⟨⟨htests, hbodies, nofun, hbegun, Node.normalList_nil, ?_⟩, hbegun rfl⟩
    rintro body' ⟨⟩
    exact hbody.reverse

theorem OpenBlock.Normal.startPart {test : Option Expr} (h : b.Normal)
    (htest : ∀ e ∈ test, e.Normal) : (b.startPart test).Normal :=
  { h.finishPart.1 with test := htest, begun := fun _ ↦ h.finishPart.2 }

/-- A block that ends is a node in normal form. -/
theorem OpenBlock.Normal.close (h : b.Normal) : b.close.Normal := by
  obtain ⟨hfinished, hne⟩ := h.finishPart
  refine .conditional (mt List.reverse_eq_nil_iff.mp hne) ?_ ?_ hfinished.otherwise
  · exact fun branch hmem ↦ hfinished.tests branch (List.mem_reverse.mp hmem)
  · exact fun branch hmem ↦ hfinished.bodies branch (List.mem_reverse.mp hmem)

theorem Tree.normal_empty : Tree.empty.Normal where
  root := Node.normalList_nil
  opened := List.forall_mem_nil _

theorem Tree.Normal.update (h : t.Normal) {f : List Node → List Node}
    (hf : ∀ {nodes}, NormalList nodes → NormalList (f nodes)) : (t.update f).Normal := by
  obtain ⟨root, opened⟩ := t
  obtain ⟨hroot, hopened⟩ := h
  cases opened with
  | nil => exact ⟨hf hroot, hopened⟩
  | cons b outer =>
    obtain ⟨hb, houter⟩ := List.forall_mem_cons.mp hopened
    exact ⟨hroot, List.forall_mem_cons.mpr ⟨{ hb with body := hf hb.body }, houter⟩⟩

theorem Tree.Normal.addText (h : t.Normal) (cs : List Char) : (t.addText cs).Normal := by
  rw [Tree.addText]
  split
  · exact h
  · rename_i hne
    exact h.update fun hnodes ↦ hnodes.joinText (by simpa using hne)

theorem Tree.Normal.startPart (h : t.Normal) {test : Option Expr}
    (htest : ∀ e ∈ test, e.Normal) : (t.startPart test).Normal := by
  obtain ⟨root, opened⟩ := t
  obtain ⟨hroot, hopened⟩ := h
  cases opened with
  | nil => exact ⟨hroot, hopened⟩
  | cons b outer =>
    obtain ⟨hb, houter⟩ := List.forall_mem_cons.mp hopened
    exact ⟨hroot, List.forall_mem_cons.mpr ⟨hb.startPart htest, houter⟩⟩

/-- A tag keeps a tree in normal form, wherever it stands. -/
theorem Tree.Normal.apply (h : t.Normal) (htag : tag.Normal) : (t.apply tag).Normal := by
  cases tag with
  | «show» p => exact h.update fun hnodes ↦ hnodes.cons (.variable (htag.path p rfl)) id
  | ifTrue e =>
    have hstart := OpenBlock.normal_start (htag.tests e (List.mem_singleton_self e))
    exact ⟨h.root, List.forall_mem_cons.mpr ⟨hstart, h.opened⟩⟩
  | elseIf e =>
    refine h.startPart ?_
    rintro e' ⟨⟩
    exact htag.tests e (List.mem_singleton_self e)
  | otherwise => exact h.startPart nofun
  | endIf =>
    obtain ⟨root, opened⟩ := t
    obtain ⟨hroot, hopened⟩ := h
    cases opened with
    | nil => exact ⟨hroot, hopened⟩
    | cons b outer =>
      obtain ⟨hb, houter⟩ := List.forall_mem_cons.mp hopened
      have hrest : (⟨root, outer⟩ : Tree).Normal := ⟨hroot, houter⟩
      exact hrest.update fun hnodes ↦ hnodes.cons hb.close id

/-- A tree in normal form stays in it when a span is added. -/
theorem Tree.Normal.grow (h : t.Normal)
    (hspan : ∀ tag source, span = .tag tag source → tag.Normal) : (t.grow span).Normal := by
  cases span with
  | text cs => exact h.addText cs
  | tag tag source => exact h.apply (hspan tag source rfl)

theorem Tree.Normal.foldl_grow (h : t.Normal)
    (hspans : ∀ tag source, .tag tag source ∈ spans → tag.Normal) :
    (spans.foldl Tree.grow t).Normal := by
  induction spans generalizing t with
  | nil => exact h
  | cons span spans ih =>
    refine ih (h.grow ?_) fun tag source hmem ↦ hspans tag source (List.mem_cons_of_mem _ hmem)
    rintro tag source rfl
    exact hspans tag source List.mem_cons_self

end Template

/-! ### Tags of templates -/

variable {right : List Char} {c next : Text.Cursor} {notes : Log}

/-- The expression of an accepted condition is in normal form. -/
theorem Condition.Accepts.normal {body : List Token} {e : Expr} (hright : right ≠ [])
    (h : Accepts right c body e next) : e.Normal where
  wellFormed := (accepts_iff.mp h).2.2.1
  paths := fun _ hp ↦ by
    obtain ⟨t, -, ht⟩ := h.exists_meaning? hright (path_mem_meanings hp)
    exact wellFormed_of_meaning? ht

theorem Path.wellFormed_of_atStart? {cs : List Char} {p : Path} {n : Nat}
    (h : atStart? cs = some (p, n)) : p.WellFormed := by
  unfold atStart? at h
  simp only [Option.bind_eq_bind, Option.bind_eq_some_iff] at h
  obtain ⟨m, -, q, hq, heq⟩ := h
  obtain ⟨rfl, -⟩ := Prod.mk.inj (Option.some.inj heq)
  exact wellFormed_of_compile? hq

/-- A tag that stands in a template is in normal form. -/
theorem Template.Tag.At.normal {t : Template.Tag} (hright : right ≠ [])
    (h : Tag.At right c t notes next) : t.Normal where
  tests := fun _ he ↦ by
    obtain ⟨c', body, next', haccepts⟩ := h.accepts_of_mem_tests he
    exact haccepts.normal hright
  path := by
    rintro p rfl
    obtain ⟨hpath, -⟩ := h
    exact Path.wellFormed_of_atStart? hpath

namespace Program

open Template

/-- A program that was compiled is in normal form, at any depth. No text is empty, and no two
neighbours are both text. Every block has a branch. Every chain has an operator, and no operand of a
chain or behind a unary operator is a chain. Every path is one that a text spells. -/
theorem normalList_of_compile {d : Delimiters} {template : String} {p : Program}
    (h : compile d template = .ok p) : Node.NormalList p.nodes := by
  obtain ⟨spans, notes, hsplits, -, rfl⟩ := compile_eq_ok_iff.mp h
  refine (Tree.normal_empty.foldl_grow fun tag source hmem ↦ ?_).root.reverse
  obtain ⟨c, warned, next, hat⟩ := hsplits.at_of_mem tag source hmem
  exact hat.normal (right_ne_nil d)

/-- A left delimiter that is text, in front of a block with an empty branch and an else part. -/
theorem normalList_of_compile_block :
    ∃ p, compile .standard
        "a\x7bb\x7bif !%x.k[0] && (1, 2)\x7d\x7belse\x7d%\x7b%y\x7d\x7b/if\x7d" = .ok p ∧
      Node.NormalList p.nodes ∧ p.nodes.length = 2 ∧
      p.paths = [⟨"x", [.field "k", .position 0]⟩, ⟨"y", []⟩] := by
  have hshape : (compile .standard
      "a\x7bb\x7bif !%x.k[0] && (1, 2)\x7d\x7belse\x7d%\x7b%y\x7d\x7b/if\x7d").toOption.map
        (fun p ↦ (p.nodes.length, p.paths)) =
      some (2, [⟨"x", [.field "k", .position 0]⟩, ⟨"y", []⟩]) := by
    decide +kernel
  cases hp : compile .standard
      "a\x7bb\x7bif !%x.k[0] && (1, 2)\x7d\x7belse\x7d%\x7b%y\x7d\x7b/if\x7d" with
  | error log =>
    rw [hp] at hshape
    cases hshape
  | ok p =>
    rw [hp] at hshape
    obtain ⟨hlength, hpaths⟩ := Prod.mk.inj (Option.some.inj hshape)
    exact ⟨p, rfl, normalList_of_compile hp, hlength, hpaths⟩

end Program

end Stencil
