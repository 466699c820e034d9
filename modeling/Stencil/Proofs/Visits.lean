import Stencil.Proofs.Spans

/-!
# Walking over a compiled template

A walk over the nodes of a program meets the spans of its template in the order of the source. A
conditional is met as its tags and its bodies, and neighbouring pieces of text are met as one. The
tree under construction says the same of the spans seen so far, and every span adds what it is at
the end.

## Main definitions

* `Template.Visit`, `Node.visits`: what a walk over nodes meets.
* `Template.joinSpans`: spans with each longest run of text joined.
* `Template.OpenBlock.Fits`: an open block that is as far as the open blocks of the scan say.

## Main results

* `Template.Tree.visits_grow`: a span adds to the tree what it is, and nothing else.
* `Program.visitsList_of_compile`: the nodes of a program are its spans in the order of the source.
-/

namespace Stencil

/-- What a walk over nodes meets. -/
inductive Template.Visit
  | text (s : String)
  | tag (t : Template.Tag)

open Template (Visit Tag Span)

mutual

/-- What a walk over a node meets. -/
def Node.visits : Node → List Visit
  | .text s => [.text s]
  | .variable p => [.tag (.show p)]
  | .conditional branches otherwise =>
    Node.visitsBranches .ifTrue branches ++
      ((match otherwise with
        | some body => .tag .otherwise :: Node.visitsList body
        | none => []) ++ [.tag .endIf])

/-- What a walk over a sequence of nodes meets. -/
def Node.visitsList : List Node → List Visit
  | [] => []
  | node :: nodes => node.visits ++ Node.visitsList nodes

/-- What a walk over branches meets. The first of them begins with the tag that is given, the others
with an elseif. -/
def Node.visitsBranches (opening : Expr → Tag) : List (Expr × List Node) → List Visit
  | [] => []
  | (test, body) :: branches =>
    .tag (opening test) :: (Node.visitsList body ++ Node.visitsBranches .elseIf branches)

end

/-- What a walk over an else part meets. -/
def Node.visitsElse : Option (List Node) → List Visit
  | some body => .tag .otherwise :: Node.visitsList body
  | none => []

namespace Template

/-- Text in front of what a walk meets. -/
def prependText (s : String) : List Visit → List Visit
  | .text t :: visits => .text (s ++ t) :: visits
  | visits => .text s :: visits

/-- Text behind what a walk meets. -/
def appendText (s : String) : List Visit → List Visit
  | [] => [.text s]
  | [.text t] => [.text (t ++ s)]
  | visit :: visits => visit :: appendText s visits

/-- The spans of a template with each longest run of text joined. -/
def joinSpans : List Span → List Visit
  | [] => []
  | .text cs :: spans => prependText (String.ofList cs) (joinSpans spans)
  | .tag t _ :: spans => .tag t :: joinSpans spans

/-- What a span adds to what a walk meets. -/
def extendVisits (visits : List Visit) : Span → List Visit
  | .text cs => appendText (String.ofList cs) visits
  | .tag t _ => visits ++ [.tag t]

/-! ### Joining text -/

theorem appendText_cons {s : String} {visit : Visit} {visits : List Visit}
    (h : visits ≠ [] ∨ ∃ t, visit = .tag t) :
    appendText s (visit :: visits) = visit :: appendText s visits := by
  cases visit with
  | tag t => rfl
  | text t =>
    rcases h with h | ⟨_, ⟨⟩⟩
    obtain ⟨v, vs, rfl⟩ := List.exists_cons_of_ne_nil h
    rfl

theorem appendText_append {s : String} (visits : List Visit) {more : List Visit}
    (h : more ≠ []) : appendText s (visits ++ more) = visits ++ appendText s more := by
  induction visits with
  | nil => rfl
  | cons visit visits ih =>
    rw [List.cons_append, appendText_cons (Or.inl (by simp [h])), ih, List.cons_append]

theorem prependText_appendText (s t : String) (visits : List Visit) :
    prependText s (appendText t visits) = appendText t (prependText s visits) := by
  cases visits with
  | nil => rfl
  | cons visit visits =>
    cases visit with
    | tag tag => rfl
    | text u =>
      cases visits with
      | nil => simp [appendText, prependText, String.append_assoc]
      | cons v vs => rfl

theorem joinSpans_append (spans : List Span) (span : Span) :
    joinSpans (spans ++ [span]) = extendVisits (joinSpans spans) span := by
  induction spans with
  | nil => cases span <;> rfl
  | cons first spans ih =>
    cases first with
    | tag t source =>
      cases span with
      | tag t' source' => rw [List.cons_append, joinSpans, ih]; rfl
      | text cs =>
        rw [List.cons_append, joinSpans, ih, joinSpans, extendVisits, extendVisits,
          appendText_cons (Or.inr ⟨t, rfl⟩)]
    | text as =>
      rw [List.cons_append, joinSpans, ih, joinSpans]
      cases span with
      | text cs => exact prependText_appendText _ _ _
      | tag t source =>
        simp only [extendVisits]
        cases joinSpans spans with
        | nil => rfl
        | cons visit visits => cases visit <;> rfl

/-! ### What the tree has met -/

open Node (visitsList visitsBranches visitsElse)

theorem visits_conditional (branches : List (Expr × List Node)) (otherwise : Option (List Node)) :
    (Node.conditional branches otherwise).visits =
      visitsBranches .ifTrue branches ++ (visitsElse otherwise ++ [.tag .endIf]) := by
  cases otherwise <;> rfl

theorem visitsList_append (nodes more : List Node) :
    visitsList (nodes ++ more) = visitsList nodes ++ visitsList more := by
  induction nodes with
  | nil => rfl
  | cons node nodes ih => rw [List.cons_append, visitsList, visitsList, ih, List.append_assoc]

theorem visitsList_reverse_cons (node : Node) (nodes : List Node) :
    visitsList (node :: nodes).reverse = visitsList nodes.reverse ++ node.visits := by
  rw [List.reverse_cons, visitsList_append, visitsList, visitsList, List.append_nil]

theorem visitsBranches_append (opening : Expr → Tag) (branches : List (Expr × List Node))
    (test : Expr) (body : List Node) :
    visitsBranches opening (branches ++ [(test, body)]) = visitsBranches opening branches ++
      .tag ((if branches = [] then opening else .elseIf) test) :: visitsList body := by
  induction branches generalizing opening with
  | nil => simp [visitsBranches]
  | cons branch branches ih =>
    rw [List.cons_append, visitsBranches, ih, visitsBranches]
    simp

/-- Text added to a sequence of nodes is met last. -/
theorem visitsList_joinText (s : String) (nodes : List Node) :
    visitsList (joinText s nodes).reverse = appendText s (visitsList nodes.reverse) := by
  cases nodes with
  | nil => rfl
  | cons node nodes =>
    rw [visitsList_reverse_cons node nodes]
    cases node with
    | text t =>
      rw [joinText, visitsList_reverse_cons, Node.visits, Node.visits,
        appendText_append _ (List.cons_ne_nil _ _)]
      rfl
    | «variable» p =>
      rw [joinText, visitsList_reverse_cons, visitsList_reverse_cons, Node.visits, Node.visits,
        appendText_append _ (List.cons_ne_nil _ _)]
      · simp [appendText]
      · simp
    | conditional branches otherwise =>
      rw [joinText, visitsList_reverse_cons, visitsList_reverse_cons, visits_conditional,
        Node.visits, ← List.append_assoc (visitsBranches _ _), ← List.append_assoc,
        appendText_append _ (List.cons_ne_nil _ _)]
      · simp [appendText]
      · simp

/-- What a walk over an open block has met so far. -/
def OpenBlock.visits (b : OpenBlock) : List Visit :=
  visitsBranches .ifTrue b.finishPart.branches.reverse ++ visitsElse b.finishPart.otherwise

/-- What a walk over open blocks has met so far; the outermost block comes last in the list. -/
def visitsOpened : List OpenBlock → List Visit
  | [] => []
  | b :: outer => visitsOpened outer ++ b.visits

/-- What a walk over a tree has met so far. -/
def Tree.visits (t : Tree) : List Visit :=
  visitsList t.root.reverse ++ visitsOpened t.opened

/-- An open block is being filled where the open blocks of the scan say it is. -/
def OpenBlock.Fits (inElse : Bool) (b : OpenBlock) : Prop :=
  b.otherwise = none ∧ (inElse = true ↔ b.test = none)

/-- The part of a block that is being filled comes last. -/
theorem OpenBlock.Fits.visits_eq {inElse : Bool} {b : OpenBlock} (h : b.Fits inElse) :
    ∃ before t, ∀ body, ({ b with body := body } : OpenBlock).visits =
      before ++ .tag t :: visitsList body.reverse := by
  obtain ⟨hother, htest⟩ := h
  obtain ⟨branches, test, body, otherwise⟩ := b
  obtain rfl : otherwise = none := hother
  cases test with
  | none => exact ⟨visitsBranches .ifTrue branches.reverse, .otherwise, fun _ ↦ rfl⟩
  | some e =>
    refine ⟨visitsBranches .ifTrue branches.reverse,
      (if branches.reverse = [] then Tag.ifTrue else Tag.elseIf) e, fun body ↦ ?_⟩
    simp only [OpenBlock.visits, OpenBlock.finishPart, List.reverse_cons]
    rw [visitsBranches_append]
    exact List.append_nil _

theorem visits_close (b : OpenBlock) : b.close.visits = b.visits ++ [.tag .endIf] := by
  rw [OpenBlock.close, visits_conditional, OpenBlock.visits, List.append_assoc]

theorem visits_start (e : Expr) : (OpenBlock.start e).visits = [.tag (.ifTrue e)] :=
  rfl

/-- A part that begins is met as its tag. -/
theorem visits_startPart {b : OpenBlock} (h : b.Fits false) (test : Option Expr) :
    (b.startPart test).visits =
      b.visits ++ [.tag (match test with | some e => .elseIf e | none => .otherwise)] := by
  obtain ⟨hother, htest⟩ := h
  obtain ⟨branches, test', body, otherwise⟩ := b
  obtain rfl : otherwise = none := hother
  cases test' with
  | none => exact absurd (htest.mpr rfl) (by decide)
  | some e =>
    cases test with
    | none =>
      simp [OpenBlock.visits, OpenBlock.startPart, OpenBlock.finishPart, visitsElse, visitsList]
    | some f =>
      simp only [OpenBlock.visits, OpenBlock.startPart, OpenBlock.finishPart, List.reverse_cons,
        visitsElse, List.append_nil]
      rw [visitsBranches_append, if_neg (by simp)]
      rfl

theorem fits_start (e : Expr) : (OpenBlock.start e).Fits false :=
  ⟨rfl, by simp [OpenBlock.start]⟩

theorem OpenBlock.Fits.update {inElse : Bool} {b : OpenBlock} (h : b.Fits inElse)
    (body : List Node) : ({ b with body := body } : OpenBlock).Fits inElse :=
  h

theorem fits_startPart {b : OpenBlock} (h : b.Fits false) (test : Option Expr) :
    (b.startPart test).Fits test.isNone := by
  obtain ⟨hother, htest⟩ := h
  obtain ⟨branches, test', body, otherwise⟩ := b
  obtain rfl : otherwise = none := hother
  cases test' with
  | none => exact absurd (htest.mpr rfl) (by decide)
  | some e => exact ⟨rfl, by simp [OpenBlock.startPart]⟩

variable {stack stack' : List Bool} {t : Tree}

/-- Text is met last. -/
theorem Tree.visits_addText (h : List.Forall₂ OpenBlock.Fits stack t.opened)
    {cs : List Char} (hne : cs ≠ []) :
    (t.addText cs).visits = appendText (String.ofList cs) t.visits := by
  obtain ⟨root, opened⟩ := t
  rw [Tree.addText, if_neg hne]
  cases h with
  | nil =>
    simp only [Tree.update, Tree.visits, visitsOpened, List.append_nil]
    exact visitsList_joinText _ _
  | @cons inElse b stack outer hb houter =>
    obtain ⟨before, tag, hvisits⟩ := hb.visits_eq
    have hnow : b.visits = before ++ .tag tag :: visitsList b.body.reverse := hvisits b.body
    simp only [Tree.update, Tree.visits, visitsOpened]
    rw [hvisits, hnow, visitsList_joinText, ← List.append_assoc, ← List.append_assoc,
      ← List.append_assoc, ← List.append_assoc, appendText_append _ (List.cons_ne_nil _ _),
      appendText_cons (Or.inr ⟨tag, rfl⟩)]

theorem Tree.fits_update (h : List.Forall₂ OpenBlock.Fits stack t.opened)
    (f : List Node → List Node) :
    List.Forall₂ OpenBlock.Fits stack (t.update f).opened := by
  obtain ⟨root, opened⟩ := t
  cases h with
  | nil => exact .nil
  | cons hb houter => exact .cons (hb.update _) houter

/-- A node is met last when it is put last. -/
theorem Tree.visits_update (h : List.Forall₂ OpenBlock.Fits stack t.opened)
    (node : Node) : (t.update (node :: ·)).visits = t.visits ++ node.visits := by
  obtain ⟨root, opened⟩ := t
  cases h with
  | nil =>
    simp only [Tree.update, Tree.visits, visitsOpened, List.append_nil]
    exact visitsList_reverse_cons _ _
  | @cons inElse b stack outer hb houter =>
    obtain ⟨before, tag, hvisits⟩ := hb.visits_eq
    have hnow : b.visits = before ++ .tag tag :: visitsList b.body.reverse := hvisits b.body
    simp only [Tree.update, Tree.visits, visitsOpened]
    rw [hvisits, hnow, visitsList_reverse_cons]
    simp

/-- A part that begins is met last, as its tag. -/
theorem Tree.visits_startPart (h : List.Forall₂ OpenBlock.Fits (false :: stack) t.opened)
    (test : Option Expr) :
    (t.startPart test).visits =
        t.visits ++ [.tag (match test with | some e => .elseIf e | none => .otherwise)] ∧
      List.Forall₂ OpenBlock.Fits (test.isNone :: stack) (t.startPart test).opened := by
  obtain ⟨root, opened⟩ := t
  obtain ⟨b, outer, hb, houter, rfl⟩ := List.forall₂_cons_left_iff.mp h
  refine ⟨?_, .cons (fits_startPart hb test) houter⟩
  simp only [Tree.startPart, Tree.visits, visitsOpened, visits_startPart hb, List.append_assoc]

/-- A tag that may stand where it stands is met last. -/
theorem Tree.visits_apply {tag : Tag}
    (h : List.Forall₂ OpenBlock.Fits stack t.opened)
    (hnest : tag.nest? stack = some stack') :
    (t.apply tag).visits = t.visits ++ [.tag tag] ∧
      List.Forall₂ OpenBlock.Fits stack' (t.apply tag).opened := by
  cases tag with
  | «show» p =>
    obtain rfl := Option.some.inj hnest
    exact ⟨Tree.visits_update h _, Tree.fits_update h _⟩
  | ifTrue e =>
    obtain rfl := Option.some.inj hnest
    refine ⟨?_, .cons (fits_start e) h⟩
    simp only [Tree.apply, Tree.visits, visitsOpened, visits_start, List.append_assoc]
  | elseIf e =>
    obtain ⟨outer, rfl, rfl⟩ := nest?_elseIf.mp hnest
    exact Tree.visits_startPart h (some e)
  | otherwise =>
    obtain ⟨outer, rfl, rfl⟩ := nest?_otherwise.mp hnest
    exact Tree.visits_startPart h none
  | endIf =>
    obtain ⟨inElse, rfl⟩ := nest?_endIf.mp hnest
    obtain ⟨root, opened⟩ := t
    obtain ⟨b, outer, hb, houter, rfl⟩ := List.forall₂_cons_left_iff.mp h
    have houter' : List.Forall₂ OpenBlock.Fits stack' (⟨root, outer⟩ : Tree).opened := houter
    refine ⟨?_, Tree.fits_update houter' _⟩
    simp only [Tree.apply]
    rw [Tree.visits_update houter', visits_close]
    simp only [Tree.visits, visitsOpened, List.append_assoc]

/-- The open blocks of a tree are filled where the open blocks of the scan say they are. -/
theorem Tree.fits_grow {span : Span} (h : List.Forall₂ OpenBlock.Fits stack t.opened)
    (hnest : nestAll? [span] stack = some stack') :
    List.Forall₂ OpenBlock.Fits stack' (t.grow span).opened := by
  cases span with
  | text cs =>
    obtain rfl := Option.some.inj hnest
    rw [Tree.grow, Tree.addText]
    split
    · exact h
    · exact Tree.fits_update h _
  | tag tag source =>
    rw [nestAll?, Option.bind_eq_some_iff] at hnest
    obtain ⟨stack'', hnest, hnil⟩ := hnest
    obtain rfl := Option.some.inj hnil
    exact (Tree.visits_apply h hnest).2

/-- A span adds to the tree what it is, and nothing else. -/
theorem Tree.visits_grow {span : Span} (hne : span.source ≠ [])
    (h : List.Forall₂ OpenBlock.Fits stack t.opened)
    (hnest : nestAll? [span] stack = some stack') :
    (t.grow span).visits = extendVisits t.visits span := by
  cases span with
  | text cs => exact Tree.visits_addText h hne
  | tag tag source =>
    rw [nestAll?, Option.bind_eq_some_iff] at hnest
    obtain ⟨stack'', hnest, -⟩ := hnest
    exact (Tree.visits_apply h hnest).1

/-- The tree that is grown from spans has met exactly these spans. -/
theorem Tree.visits_foldl_grow {seen spans : List Span} (hne : ∀ span ∈ spans, span.source ≠ [])
    (h : List.Forall₂ OpenBlock.Fits stack t.opened)
    (hseen : t.visits = joinSpans seen) (hnest : nestAll? spans stack = some stack') :
    (spans.foldl Tree.grow t).visits = joinSpans (seen ++ spans) ∧
      List.Forall₂ OpenBlock.Fits stack' (spans.foldl Tree.grow t).opened := by
  induction spans generalizing seen t stack with
  | nil =>
    obtain rfl := Option.some.inj hnest
    rw [List.append_nil]
    exact ⟨hseen, h⟩
  | cons span spans ih =>
    rw [← List.singleton_append, nestAll?_append, Option.bind_eq_some_iff] at hnest
    obtain ⟨stack₁, hfirst, hnest⟩ := hnest
    have hvisits := Tree.visits_grow (hne span List.mem_cons_self) h hfirst
    rw [hseen, ← joinSpans_append] at hvisits
    have htail := ih (fun span' hmem ↦ hne span' (List.mem_cons_of_mem _ hmem))
      (Tree.fits_grow h hfirst) hvisits hnest
    rw [List.append_assoc, List.singleton_append] at htail
    exact htail

/-! ### Whole templates -/

theorem Splits.source_ne_nil {d : Delimiters} {c : Text.Cursor} {spans : List Span} {notes : Log}
    (h : Splits d c spans notes) : ∀ span ∈ spans, span.source ≠ [] := by
  induction h with
  | done => simp
  | char h hleft hr ih => exact List.forall_mem_cons.mpr ⟨List.cons_ne_nil _ _, ih⟩
  | dangling => exact List.forall_mem_singleton.mpr (left_ne_nil _)
  | untagged hleft hne h hr ih =>
    refine List.forall_mem_cons.mpr ⟨fun hnil ↦ ?_, ih⟩
    rcases List.take_eq_nil_iff.mp hnil with hzero | hnil
    · simp at hzero
    · simp [hnil] at hne
  | @tag c next t source spans warned notes hleft h hsource hr ih =>
    have hspells := (Splits.tag hleft h hsource hr).spells t source List.mem_cons_self
    exact List.forall_mem_cons.mpr ⟨hspells.ne_nil, ih⟩

/-- Text alone grows into one text. -/
theorem foldl_grow_text {spans : List Span} (h : ∀ span ∈ spans, ∃ cs, span = .text cs) (t : Tree) :
    spans.foldl Tree.grow t = t.addText (spans.flatMap Span.source) := by
  induction spans generalizing t with
  | nil => rfl
  | cons span spans ih =>
    obtain ⟨cs, rfl⟩ := h span List.mem_cons_self
    rw [List.foldl_cons, ih fun span' hmem ↦ h span' (List.mem_cons_of_mem _ hmem),
      List.flatMap_cons, Tree.addText_append]
    rfl

end Template

open Template

/-- A walk over the nodes of a program meets the spans of its template. -/
theorem Program.exists_splits_of_compile {d : Delimiters} {template : String} {p : Program}
    (h : Program.compile d template = .ok p) :
    ∃ spans notes, Splits d (.ofText template.toList) spans notes ∧
      Node.visitsList p.nodes = joinSpans spans := by
  obtain ⟨spans, notes, hsplits, hnest, rfl⟩ := Program.compile_eq_ok_iff.mp h
  refine ⟨spans, notes, hsplits, ?_⟩
  have hgrown := @Tree.visits_foldl_grow [] [] .empty [] spans hsplits.source_ne_nil .nil rfl hnest
  generalize spans.foldl Tree.grow .empty = t at hgrown ⊢
  obtain ⟨root, opened⟩ := t
  obtain ⟨hvisits, hopened⟩ := hgrown
  obtain rfl : opened = [] := List.forall₂_nil_left_iff.mp hopened
  simpa [Tree.visits, visitsOpened] using hvisits

/-- A template that compiles splits in one way only. The spans cover it exactly, each of them text
or the whole source of a tag. A walk over the nodes meets them in the order of the source, each
longest run of text as one. A template without a tag is its own text. -/
theorem Program.visitsList_of_compile {d : Delimiters} {template : String} {p : Program}
    (h : Program.compile d template = .ok p) :
    ∃ spans notes, Splits d (.ofText template.toList) spans notes ∧
      (∀ more later, Splits d (.ofText template.toList) more later → more = spans) ∧
      spans.flatMap Span.source = template.toList ∧
      (∀ t source, Span.tag t source ∈ spans → t.Spells d source) ∧
      Node.visitsList p.nodes = joinSpans spans ∧
      ((∀ span ∈ spans, ∃ cs, span = .text cs) →
        p.nodes = if template = "" then [] else [.text template]) := by
  obtain ⟨spans, notes, hsplits, hnest, rfl⟩ := Program.compile_eq_ok_iff.mp h
  have hcover : spans.flatMap Span.source = template.toList := hsplits.flatMap_source
  refine ⟨spans, notes, hsplits, fun more later hmore ↦ (hsplits.unique hmore).1, hcover,
    hsplits.spells, ?_, fun htext ↦ ?_⟩
  · have hgrown := @Tree.visits_foldl_grow [] [] .empty [] spans hsplits.source_ne_nil .nil rfl
      hnest
    generalize spans.foldl Tree.grow .empty = t at hgrown ⊢
    obtain ⟨root, opened⟩ := t
    obtain ⟨hvisits, hopened⟩ := hgrown
    obtain rfl : opened = [] := List.forall₂_nil_left_iff.mp hopened
    simpa [Tree.visits, visitsOpened] using hvisits
  · rw [foldl_grow_text htext, hcover, Tree.addText]
    by_cases hempty : template = ""
    · simp [hempty, Tree.empty]
    · rw [if_neg (by simpa using hempty), if_neg hempty, String.ofList_toList]
      rfl

theorem Program.exists_of_toBool {d : Delimiters} {template : String}
    (h : (Program.compile d template).toBool = true) :
    ∃ p, Program.compile d template = .ok p := by
  cases hp : Program.compile d template with
  | error log => simp [hp, Except.toBool] at h
  | ok p => exact ⟨p, rfl⟩

/-- A template with a variable and a conditional is met in order. -/
theorem Program.visitsList_of_conditional :
    ∃ p spans, Program.compile .standard "a\x7b%x\x7d\x7bif %x\x7db\x7b/if\x7d" = .ok p ∧
      spans.flatMap Span.source = "a\x7b%x\x7d\x7bif %x\x7db\x7b/if\x7d".toList ∧
        Node.visitsList p.nodes = joinSpans spans := by
  have hcompiles : (Program.compile .standard
      "a\x7b%x\x7d\x7bif %x\x7db\x7b/if\x7d").toBool = true := by
    decide +kernel
  obtain ⟨p, hp⟩ := Program.exists_of_toBool hcompiles
  obtain ⟨spans, -, -, -, hcover, -, hvisits, -⟩ := Program.visitsList_of_compile hp
  exact ⟨p, spans, hp, hcover, hvisits⟩

end Stencil
