import Stencil.Proofs.Visits
import Stencil.Render

/-!
# Templates one behind the other

A template may be put in front of another one when each of its left braces has a right brace behind
it. Then no look-ahead of the first template reaches the second: both split as they do on their own,
the second one further on in the source. The tree of the second template is grown inside the tree of
the first one, and only the innermost nodes of that tree notice.

## Main definitions

* `Template.Guarded`: every left brace has a right brace behind it.
* `Template.glue`: nodes behind other nodes, texts that meet being joined.
* `Template.Tree.graft`: a tree in the place where another one is being filled.

## Main results

* `Template.Splits.append`: how two templates split together.
* `Template.foldl_grow_eq_update`: spans with all their blocks closed grow on any tree as on their
  own.
* `Program.render_of_append`: two templates together say and show what they do one by one.
-/

namespace Stencil

namespace Template

open Text (Cursor)

variable {d : Delimiters} {c next : Cursor} {spans more : List Span} {notes later : Log}
  {as bs cs : List Char} {k : Nat}

/-! ### Braces with a brace behind them -/

/-- Every left brace of a text has a right brace somewhere behind it. -/
def Guarded (cs : List Char) : Prop :=
  ∀ behind, '\x7b' :: behind <:+ cs → '\x7d' ∈ behind

theorem guarded_nil : Guarded [] := by
  intro behind h
  simp at h

theorem guarded_cons {a : Char} :
    Guarded (a :: cs) ↔ (a = '\x7b' → '\x7d' ∈ cs) ∧ Guarded cs := by
  constructor
  · intro h
    refine ⟨?_, fun behind hbehind ↦ h behind (hbehind.trans (List.suffix_cons a cs))⟩
    rintro rfl
    exact h cs List.suffix_rfl
  · rintro ⟨hfirst, hrest⟩ behind hbehind
    rcases List.suffix_cons_iff.mp hbehind with heq | hsuffix
    · obtain ⟨rfl, rfl⟩ := List.cons.inj heq
      exact hfirst rfl
    · exact hrest behind hsuffix

theorem Guarded.of_suffix (h : Guarded cs) (hsuffix : bs <:+ cs) : Guarded bs :=
  fun behind hbehind ↦ h behind (hbehind.trans hsuffix)

theorem Guarded.append (has : Guarded as) (hbs : Guarded bs) : Guarded (as ++ bs) := by
  induction as with
  | nil => exact hbs
  | cons a as ih =>
    obtain ⟨hfirst, hrest⟩ := guarded_cons.mp has
    exact guarded_cons.mpr ⟨fun ha ↦ List.mem_append_left _ (hfirst ha), ih hrest⟩

/-- A right brace at the end is behind every left brace. -/
theorem guarded_of_last (cs : List Char) : Guarded (cs ++ ['\x7d']) := by
  induction cs with
  | nil => exact guarded_cons.mpr ⟨by simp, guarded_nil⟩
  | cons a cs ih => exact guarded_cons.mpr ⟨fun _ ↦ by simp, ih⟩

/-! ### Splittings further on in a source -/

theorem Splits.shift (h : Splits d c spans notes) (k : Nat) :
    Splits d (c.shift k) spans (notes.map (Diagnostic.shift k)) := by
  induction h with
  | done h => exact .done h
  | char h hleft hr ih =>
    rw [← Cursor.advance_shift] at ih
    exact .char h hleft ih
  | dangling h => exact .dangling h
  | untagged hleft hne h hr ih =>
    have hnone := h.shift k
    rw [← Cursor.advance_shift] at hnone ih
    exact .untagged hleft hne hnone ih
  | tag hleft h hsource hr ih =>
    have hat := h.shift k
    rw [← Cursor.advance_shift] at hat
    rw [List.map_append]
    exact .tag hleft hat hsource ih

theorem worded_of_mem_warnings {ts : List Token} {w : Diagnostic}
    (hw : w ∈ Condition.warnings ts) : w.Worded := by
  obtain ⟨t, -, rfl⟩ := List.mem_map.mp hw
  rfl

theorem Tag.At.worded {right : List Char} {t : Tag} (h : Tag.At right c t notes next) :
    ∀ w ∈ notes, w.Worded := by
  cases h with
  | ifTrue => exact fun w ↦ worded_of_mem_warnings
  | elseIf => exact fun w ↦ worded_of_mem_warnings
  | _ => exact List.forall_mem_nil _

/-- What there is to say about a splitting is worded for its place. -/
theorem Splits.worded (h : Splits d c spans notes) : ∀ w ∈ notes, w.Worded := by
  induction h with
  | done => exact List.forall_mem_nil _
  | char h hleft hr ih => exact ih
  | dangling => exact List.forall_mem_nil _
  | untagged hleft hne h hr ih => exact ih
  | tag hleft h hsource hr ih => exact List.forall_mem_append.mpr ⟨h.worded, ih⟩

theorem left_standard : Delimiters.standard.left.toList = ['\x7b'] := rfl

theorem Splits.char_extend {a : Char} (h : c.rest = a :: cs)
    (hleft : ¬ Delimiters.standard.left.toList <+: c.rest)
    (hr : Splits .standard ((c.advance 1).extend bs) spans notes) :
    Splits .standard (c.extend bs) (.text [a] :: spans) notes := by
  have hrest : (c.extend bs).rest = a :: (cs ++ bs) := by simp [h]
  refine .char hrest ?_ ?_
  · rw [hrest, left_standard, List.cons_prefix_cons]
    rintro ⟨rfl, -⟩
    exact hleft ⟨cs, h.symm⟩
  · rwa [Cursor.advance_extend (by simp [h])]

/-- A left brace with no tag behind it, but a right brace, is text before anything. -/
theorem Splits.untagged_extend {a : Char} (h : c.rest = '\x7b' :: a :: cs)
    (hclose : '\x7d' ∈ a :: cs) (huntagged : Untagged ['\x7d'] (c.advance 1))
    (hr : Splits .standard ((c.advance 2).extend bs) spans notes) :
    Splits .standard (c.extend bs) (.text ['\x7b', a] :: spans) notes := by
  have hrest : (c.extend bs).rest = '\x7b' :: a :: (cs ++ bs) := by simp [h]
  have htext : (c.extend bs).rest.take 2 = ['\x7b', a] := by rw [hrest]; rfl
  have hadvance (n : Nat) (hn : n ≤ 2) : (c.extend bs).advance n = (c.advance n).extend bs :=
    Cursor.advance_extend (by simp only [h, List.length_cons]; omega)
  have hinside : (c.advance 1).rest = a :: cs := by rw [Cursor.rest_advance, h]; rfl
  have huntagged' : Untagged ['\x7d'] ((c.extend bs).advance 1) := by
    rw [hadvance 1 (by omega)]
    exact huntagged.extend (hinside.symm ▸ hclose) bs
  have hne : ((c.extend bs).advance 1).rest ≠ [] := by
    rw [Cursor.rest_advance, hrest]
    exact List.cons_ne_nil _ _
  rw [← hadvance 2 (by omega)] at hr
  rw [← htext]
  exact .untagged ⟨a :: (cs ++ bs), hrest.symm⟩ hne huntagged' hr

theorem Splits.tag_extend {t : Tag} {source : List Char} {warned : Log}
    (hleft : Delimiters.standard.left.toList <+: c.rest)
    (h : Tag.At ['\x7d'] (c.advance 1) t warned next) (hsource : c.rest = source ++ next.rest)
    (hr : Splits .standard (next.extend bs) spans notes) :
    Splits .standard (c.extend bs) (.tag t source :: spans) (warned ++ notes) := by
  have hlen : 1 ≤ c.rest.length := hleft.length_le
  have hat : Tag.At ['\x7d'] ((c.extend bs).advance 1) t warned (next.extend bs) := by
    rw [Cursor.advance_extend hlen]
    exact h.extend bs
  have hcover : (c.extend bs).rest = source ++ (next.extend bs).rest := by
    rw [Cursor.rest_extend, hsource, Cursor.rest_extend, List.append_assoc]
  exact .tag (hleft.trans (List.prefix_append _ _)) hat hcover hr

/-- A template whose left braces have right braces behind them splits in front of another one as it
does on its own. -/
theorem Splits.append (h : Splits .standard c spans notes) (hguarded : Guarded c.rest)
    (hmore : Splits .standard ⟨c.total, bs⟩ more later) :
    Splits .standard (c.extend bs) (spans ++ more) (notes ++ later) := by
  induction h with
  | @done c h =>
    have hstop : c.extend bs = ⟨c.total, bs⟩ := by
      simp [Cursor.extend, Cursor.total, h]
    rw [hstop]
    exact hmore
  | @char c a cs spans notes h hleft hr ih =>
    refine .char_extend h hleft (ih (hguarded.of_suffix (List.drop_suffix _ _)) ?_)
    rwa [Cursor.total_advance]
  | @dangling c h =>
    -- nothing stands behind this brace, so no right brace does
    have hnone := hguarded [] (by rw [h]; exact List.suffix_rfl)
    exact absurd hnone (by simp)
  | @untagged c spans notes hleft hne h hr ih =>
    obtain ⟨inside, hinside⟩ := hleft
    have hclose : '\x7d' ∈ inside := hguarded inside (by rw [← hinside]; exact List.suffix_rfl)
    obtain ⟨a, cs, rfl⟩ := List.exists_cons_of_ne_nil (List.ne_nil_of_mem hclose)
    have htext : c.rest.take (Delimiters.standard.left.toList.length + 1) = ['\x7b', a] := by
      rw [← hinside]
      rfl
    rw [htext]
    refine .untagged_extend hinside.symm hclose h
      (ih (hguarded.of_suffix (List.drop_suffix _ _)) ?_)
    rwa [Cursor.total_advance]
  | @tag c next t source spans warned notes hleft h hsource hr ih =>
    have htotal : next.total = c.total := h.total_eq.trans Cursor.total_advance
    rw [List.append_assoc]
    refine .tag_extend hleft h hsource (ih (hguarded.of_suffix ⟨source, hsource.symm⟩) ?_)
    rwa [htotal]

/-- A template behind another one splits as it does on its own, that much further on. -/
theorem Splits.append_shift (h : Splits .standard (.ofText as) spans notes) (hguarded : Guarded as)
    (hmore : Splits .standard (.ofText bs) more later) :
    Splits .standard (.ofText (as ++ bs)) (spans ++ more)
      (notes ++ later.map (Diagnostic.shift (Text.byteLength as))) := by
  have hplace : (Cursor.ofText as).total = Text.byteLength as := Nat.zero_add _
  refine h.append hguarded ?_
  rw [hplace]
  exact hmore.shift _

/-! ### Trees inside trees -/

/-- A node put behind others; nodes are kept latest first. Text joins the text before it. -/
def place : Node → List Node → List Node
  | .text s, nodes => joinText s nodes
  | node, nodes => node :: nodes

/-- Nodes behind other nodes, both latest first. -/
def glue (outer inner : List Node) : List Node :=
  inner.foldr place outer

/-- Text joins the text before it, wherever that comes from. -/
theorem glue_joinText (outer : List Node) (s : String) (inner : List Node) :
    glue outer (joinText s inner) = joinText s (glue outer inner) := by
  cases inner with
  | nil => rfl
  | cons node inner =>
    cases node with
    | text t => exact (joinText_joinText t s (glue outer inner)).symm
    | «variable» p => rfl
    | conditional branches otherwise => rfl

/-- A tree in the place where another one is being filled. -/
def Tree.graft (base t : Tree) : Tree :=
  let filled := base.update fun outer ↦ glue outer t.root
  { filled with opened := t.opened ++ filled.opened }

theorem Tree.graft_empty (base : Tree) : base.graft .empty = base := by
  obtain ⟨root, opened⟩ := base
  cases opened <;> rfl

/-- What is filled outside of all blocks of a grafted tree is filled where it was grafted. -/
theorem Tree.graft_update {base t : Tree} {f : List Node → List Node}
    (hf : ∀ outer inner, glue outer (f inner) = f (glue outer inner)) :
    base.graft (t.update f) = (base.graft t).update f := by
  obtain ⟨root, opened⟩ := t
  cases opened with
  | cons b outer => rfl
  | nil =>
    have hupdate (base : Tree) (root : List Node) :
        base.graft ⟨root, []⟩ = base.update fun outer ↦ glue outer root := rfl
    rw [hupdate, Tree.update, hupdate, Tree.update_update]
    congr 1
    funext outer
    exact hf outer root

theorem Tree.graft_addText (base t : Tree) (cs : List Char) :
    base.graft (t.addText cs) = (base.graft t).addText cs := by
  unfold Tree.addText
  split
  · rfl
  · exact Tree.graft_update fun outer inner ↦ glue_joinText outer _ inner

variable {base t : Tree} {stack stack' : List Bool}

/-- A tag that changes the blocks of a grafted tree alone does the same there as on its own. -/
theorem Tree.graft_apply {tag : Tag} (h : List.Forall₂ OpenBlock.Fits stack t.opened)
    (hnest : tag.nest? stack = some stack') :
    base.graft (t.apply tag) = (base.graft t).apply tag := by
  obtain ⟨root, opened⟩ := t
  cases tag with
  | «show» p => exact Tree.graft_update fun outer inner ↦ rfl
  | ifTrue e => rfl
  | elseIf e =>
    obtain ⟨inner, rfl, -⟩ := nest?_elseIf.mp hnest
    cases h with
    | cons hb houter => rfl
  | otherwise =>
    obtain ⟨inner, rfl, -⟩ := nest?_otherwise.mp hnest
    cases h with
    | cons hb houter => rfl
  | endIf =>
    obtain ⟨inElse, rfl⟩ := nest?_endIf.mp hnest
    cases h with
    | @cons _ b _ opened hb houter =>
      -- closing a block fills what is around it, and that may be the place of the graft
      exact Tree.graft_update (t := ⟨root, opened⟩) fun outer inner ↦ rfl

theorem Tree.graft_grow {span : Span} (h : List.Forall₂ OpenBlock.Fits stack t.opened)
    (hnest : nestAll? [span] stack = some stack') :
    base.graft (t.grow span) = (base.graft t).grow span := by
  cases span with
  | text cs => exact Tree.graft_addText base t cs
  | tag tag source =>
    rw [nestAll?, Option.bind_eq_some_iff] at hnest
    obtain ⟨stack'', hnest, -⟩ := hnest
    exact Tree.graft_apply h hnest

/-- Spans that change no blocks but those of a grafted tree grow there as on their own. -/
theorem Tree.graft_foldl_grow (base : Tree) (h : List.Forall₂ OpenBlock.Fits stack t.opened)
    (hnest : nestAll? spans stack = some stack') :
    base.graft (spans.foldl Tree.grow t) = spans.foldl Tree.grow (base.graft t) ∧
      List.Forall₂ OpenBlock.Fits stack' (spans.foldl Tree.grow t).opened := by
  induction spans generalizing t stack with
  | nil =>
    obtain rfl := Option.some.inj hnest
    exact ⟨rfl, h⟩
  | cons span spans ih =>
    rw [← List.singleton_append, nestAll?_append, Option.bind_eq_some_iff] at hnest
    obtain ⟨stack₁, hfirst, hnest⟩ := hnest
    have htail := ih (Tree.fits_grow h hfirst) hnest
    rw [Tree.graft_grow h hfirst] at htail
    exact htail

theorem opened_foldl_grow (hnest : nestAll? spans [] = some []) :
    (spans.foldl Tree.grow .empty).opened = [] :=
  List.forall₂_nil_left_iff.mp (Tree.graft_foldl_grow .empty .nil hnest).2

/-- Spans with all their blocks closed only fill nodes, and they fill those of any tree as those of
a tree of their own. -/
theorem foldl_grow_eq_update (base : Tree) (hnest : nestAll? spans [] = some []) :
    spans.foldl Tree.grow base =
      base.update fun outer ↦ glue outer (spans.foldl Tree.grow .empty).root := by
  have hgraft := (Tree.graft_foldl_grow base (t := .empty) .nil hnest).1
  rw [Tree.graft_empty] at hgraft
  rw [← hgraft, Tree.graft, opened_foldl_grow hnest]
  rfl

end Template

/-! ### Nodes one behind the other -/

namespace Node

open Template (joinText place glue)

variable (context : Context)

theorem renderList_append (nodes more : List Node) :
    renderList context (nodes ++ more) = renderList context nodes ++ renderList context more := by
  induction nodes with
  | nil => exact (String.empty_append).symm
  | cons node nodes ih => rw [List.cons_append, renderList, renderList, ih, String.append_assoc]

theorem renderList_singleton (node : Node) : renderList context [node] = node.render context :=
  String.append_empty

theorem renderList_reverse_place (node : Node) (nodes : List Node) :
    renderList context (place node nodes).reverse =
      renderList context nodes.reverse ++ node.render context := by
  have hcons (first : Node) (nodes : List Node) : renderList context (first :: nodes).reverse =
      renderList context nodes.reverse ++ first.render context := by
    rw [List.reverse_cons, renderList_append, renderList_singleton]
  cases node with
  | «variable» p => exact hcons _ _
  | conditional branches otherwise => exact hcons _ _
  | text s =>
    cases nodes with
    | nil => exact hcons _ _
    | cons last nodes =>
      cases last with
      | text t =>
        rw [place, joinText, hcons, hcons, String.append_assoc]
        rfl
      | «variable» p => exact hcons _ _
      | conditional branches otherwise => exact hcons _ _

/-- What nodes show behind other nodes does not depend on where texts are joined. -/
theorem renderList_reverse_glue (outer inner : List Node) :
    renderList context (glue outer inner).reverse =
      renderList context outer.reverse ++ renderList context inner.reverse := by
  induction inner with
  | nil => exact (String.append_empty).symm
  | cons node inner ih =>
    have hglue : glue outer (node :: inner) = place node (glue outer inner) := rfl
    rw [hglue, renderList_reverse_place, ih, List.reverse_cons, renderList_append,
      renderList_singleton, String.append_assoc]

end Node

namespace Program

open Template

variable {template more : String} {p q : Program}

/-- Two templates one behind the other compile when both do and each left brace of the first one has
a right brace behind it. What there is to say about them is said about the first one, and about the
second one as much further on as the first one is long. They show what they show one by one. -/
theorem render_of_append (hp : compile .standard template = .ok p)
    (hq : compile .standard more = .ok q) (hguarded : Guarded template.toList) :
    ∃ r, compile .standard (template ++ more) = .ok r ∧
      r.warnings = p.warnings ++
        q.warnings.map (Diagnostic.shift (Text.byteLength template.toList)) ∧
      (∀ w ∈ q.warnings, w.Worded) ∧
      ∀ context, r.render context = p.render context ++ q.render context := by
  obtain ⟨spans, notes, hsplits, hnest, rfl⟩ := compile_eq_ok_iff.mp hp
  obtain ⟨spans', notes', hsplits', hnest', rfl⟩ := compile_eq_ok_iff.mp hq
  have hboth := hsplits.append_shift hguarded hsplits'
  rw [← String.toList_append] at hboth
  have hnested : nestAll? (spans ++ spans') [] = some [] := by
    rw [nestAll?_append, hnest, Option.bind_some, hnest']
  refine ⟨_, compile_eq_ok_iff.mpr ⟨_, _, hboth, hnested, rfl⟩, rfl, hsplits'.worded,
    fun context ↦ ?_⟩
  rw [Program.render, List.foldl_append, foldl_grow_eq_update _ hnest', Tree.update,
    opened_foldl_grow hnest]
  exact Node.renderList_reverse_glue context _ _

/-- Two tags that meet, the second one with something to say. -/
theorem render_of_append_tags :
    Guarded "a\x7b%x\x7d".toList ∧ ∃ p q r, compile .standard "a\x7b%x\x7d" = .ok p ∧
      compile .standard "\x7bif %x = 1\x7db\x7b/if\x7d" = .ok q ∧
      compile .standard ("a\x7b%x\x7d" ++ "\x7bif %x = 1\x7db\x7b/if\x7d") = .ok r ∧
      r.warnings = p.warnings ++ q.warnings.map (Diagnostic.shift 5) ∧
      ∀ context, r.render context = p.render context ++ q.render context := by
  have hcompiles : (compile .standard "a\x7b%x\x7d").toBool = true ∧
      (compile .standard "\x7bif %x = 1\x7db\x7b/if\x7d").toBool = true := by
    decide +kernel
  obtain ⟨p, hp⟩ := exists_of_toBool hcompiles.1
  obtain ⟨q, hq⟩ := exists_of_toBool hcompiles.2
  have hguarded : Guarded "a\x7b%x\x7d".toList := by
    simp [guarded_cons, guarded_nil]
  obtain ⟨r, hr, hwarnings, -, hrender⟩ := render_of_append hp hq hguarded
  exact ⟨hguarded, p, q, r, hp, hq, hr, hwarnings, hrender⟩

end Program

end Stencil
