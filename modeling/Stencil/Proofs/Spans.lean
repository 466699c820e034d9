import Stencil.Program
import Stencil.Proofs.Tags

/-!
# The spans of a template

A template splits into text and tags. The splitting looks at the source alone; the open blocks and
the tree are computed from the spans afterwards. A scan that leaves no error has done all three at
once, and every splitting whose tags are nested as they should be is the work of such a scan.

Text is split into as small pieces as possible, so that what comes before a place and what comes
behind it can be split independently.

## Main definitions

* `Template.Span`: a piece of a template.
* `Template.Splits`: how a template splits into spans, and what there is to say about it.
* `Template.nestAll?`: how spans change the open blocks.
* `Template.Tree.grow`: a tree with a span added.

## Main results

* `Template.Splits.unique`: a template splits in one way only.
* `Template.splits_of_run`, `Template.run_of_splits`: scans without an error are splittings.
* `Program.compile_eq_ok_iff`: the programs of the templates that compile.
-/

namespace Stencil

namespace Template

open Text (Cursor)

/-- A piece of a template. -/
inductive Span
  | text (cs : List Char)
  /-- A tag and its whole source. -/
  | tag (t : Tag) (source : List Char)

/-- The source of a span. -/
def Span.source : Span → List Char
  | text cs => cs
  | tag _ source => source

/-- How a template splits into spans from a place on, and what there is to say about it. -/
inductive Splits (d : Delimiters) : Cursor → List Span → Log → Prop
  | done {c : Cursor} (h : c.rest = []) : Splits d c [] []
  | char {c : Cursor} {a : Char} {cs : List Char} {spans : List Span} {notes : Log}
      (h : c.rest = a :: cs) (hleft : ¬ d.left.toList <+: c.rest)
      (hr : Splits d (c.advance 1) spans notes) : Splits d c (.text [a] :: spans) notes
  /-- The left delimiter at the end of the template is text. -/
  | dangling {c : Cursor} (h : c.rest = d.left.toList) : Splits d c [.text d.left.toList] []
  /-- A left delimiter without a tag behind it is text, with the character behind it. -/
  | untagged {c : Cursor} {spans : List Span} {notes : Log} (hleft : d.left.toList <+: c.rest)
      (hne : (c.advance d.left.toList.length).rest ≠ [])
      (h : Untagged d.right.toList (c.advance d.left.toList.length))
      (hr : Splits d (c.advance (d.left.toList.length + 1)) spans notes) :
      Splits d c (.text (c.rest.take (d.left.toList.length + 1)) :: spans) notes
  | tag {c next : Cursor} {t : Tag} {source : List Char} {spans : List Span} {warned notes : Log}
      (hleft : d.left.toList <+: c.rest)
      (h : Tag.At d.right.toList (c.advance d.left.toList.length) t warned next)
      (hsource : c.rest = source ++ next.rest) (hr : Splits d next spans notes) :
      Splits d c (.tag t source :: spans) (warned ++ notes)

/-- The open blocks after some spans, if their tags may stand where they do. -/
def nestAll? : List Span → List Bool → Option (List Bool)
  | [], stack => some stack
  | .text _ :: spans, stack => nestAll? spans stack
  | .tag t _ :: spans, stack => (t.nest? stack).bind (nestAll? spans)

/-- A tree with a span added. -/
def Tree.grow (t : Tree) : Span → Tree
  | .text cs => t.addText cs
  | .tag tag _ => t.apply tag

variable {d : Delimiters} {c next : Cursor} {spans : List Span} {notes : Log}

theorem left_ne_nil (d : Delimiters) : d.left.toList ≠ [] := by
  simpa using d.left_ne_empty

theorem right_ne_nil (d : Delimiters) : d.right.toList ≠ [] := by
  simpa using d.right_ne_empty

/-- The spans cover the template exactly. -/
theorem Splits.flatMap_source (h : Splits d c spans notes) :
    spans.flatMap Span.source = c.rest := by
  induction h with
  | done h => rw [h, List.flatMap_nil]
  | char h hleft hr ih =>
    rw [List.flatMap_cons, ih, Cursor.rest_advance, h]
    rfl
  | dangling h => rw [h, List.flatMap_singleton, Span.source]
  | untagged hleft hne h hr ih =>
    rw [List.flatMap_cons, ih, Cursor.rest_advance]
    exact List.take_append_drop _ _
  | tag hleft h hsource hr ih => rw [List.flatMap_cons, ih, hsource, Span.source]

/-- The source of a tag spells the tag. -/
theorem Splits.spells (h : Splits d c spans notes) :
    ∀ t source, Span.tag t source ∈ spans → t.Spells d source := by
  induction h with
  | done => simp
  | char h hleft hr ih => simpa using ih
  | dangling => simp
  | untagged hleft hne h hr ih => simpa using ih
  | @tag c next t source spans warned notes hleft h hsource hr ih =>
    intro t' source' hmem
    rcases List.mem_cons.mp hmem with heq | hmem
    · obtain ⟨rfl, rfl⟩ := Span.tag.inj heq
      obtain ⟨inside, hinside, hspells⟩ := h.cut
      obtain ⟨ds, hds⟩ := hleft
      have hcover : source' ++ next.rest = (d.left.toList ++ inside) ++ next.rest := by
        rw [← hsource, List.append_assoc, ← hinside, Cursor.rest_advance, ← hds, List.drop_left]
      rwa [List.append_cancel_right hcover]
    · exact ih t' source' hmem

/-- A template splits in one way only. -/
theorem Splits.unique {spans' : List Span} {notes' : Log} (h : Splits d c spans notes)
    (h' : Splits d c spans' notes') :
    spans' = spans ∧ notes' = notes := by
  induction h generalizing spans' notes' with
  | @done c h =>
    cases h' with
    | done => exact ⟨rfl, rfl⟩
    | char h' => simp [h] at h'
    | dangling h' => exact absurd (h'.symm.trans h) (left_ne_nil d)
    | untagged hleft' => simp [h, d.left_ne_empty] at hleft'
    | tag hleft' => simp [h, d.left_ne_empty] at hleft'
  | @char c a cs spans notes h hleft hr ih =>
    cases h' with
    | done h' => simp [h] at h'
    | char h' hleft' hr' =>
      obtain ⟨rfl, rfl⟩ := List.cons.inj (h.symm.trans h')
      obtain ⟨rfl, rfl⟩ := ih hr'
      exact ⟨rfl, rfl⟩
    | dangling h' => exact absurd ⟨[], by rw [h', List.append_nil]⟩ hleft
    | untagged hleft' => exact absurd hleft' hleft
    | tag hleft' => exact absurd hleft' hleft
  | @dangling c h =>
    have hleft : d.left.toList <+: c.rest := ⟨[], by rw [h, List.append_nil]⟩
    have hend : (c.advance d.left.toList.length).rest = [] := by simp [h]
    cases h' with
    | done h' => exact absurd (h.symm.trans h') (left_ne_nil d)
    | char h' hleft' => exact absurd hleft hleft'
    | dangling => exact ⟨rfl, rfl⟩
    | untagged hleft' hne' => exact absurd hend hne'
    | tag hleft' hat' => exact absurd hend hat'.rest_ne_nil
  | @untagged c spans notes hleft hne h hr ih =>
    cases h' with
    | done h' => simp [h', d.left_ne_empty] at hleft
    | char h' hleft' => exact absurd hleft hleft'
    | dangling h' => exact absurd (by simp [h']) hne
    | untagged hleft' hne' h' hr' =>
      obtain ⟨rfl, rfl⟩ := ih hr'
      exact ⟨rfl, rfl⟩
    | tag hleft' hat' => exact absurd h (hat'.not_untagged (right_ne_nil d))
  | @tag c next t source spans warned notes hleft hat hsource hr ih =>
    cases h' with
    | done h' => simp [h', d.left_ne_empty] at hleft
    | char h' hleft' => exact absurd hleft hleft'
    | dangling h' => exact absurd (by simp [h']) hat.rest_ne_nil
    | untagged hleft' hne' h' => exact absurd h' (hat.not_untagged (right_ne_nil d))
    | tag hleft' hat' hsource' hr' =>
      obtain ⟨rfl, rfl, rfl⟩ := hat.unique (right_ne_nil d) hat'
      obtain ⟨rfl, rfl⟩ := ih hr'
      rw [hsource] at hsource'
      rw [List.append_cancel_right hsource']
      exact ⟨rfl, rfl⟩

/-! ### Text in small pieces -/

/-- Text in pieces of one character. -/
def chars (cs : List Char) : List Span :=
  cs.map fun a ↦ .text [a]

theorem advance_advance (c : Cursor) (m n : Nat) : (c.advance m).advance n = c.advance (m + n) := by
  simp only [Cursor.advance, List.take_add, Text.byteLength_append, List.drop_drop, Nat.add_assoc]

theorem joinText_joinText (s₁ s₂ : String) (nodes : List Node) :
    joinText s₂ (joinText s₁ nodes) = joinText (s₁ ++ s₂) nodes := by
  cases nodes with
  | nil => rfl
  | cons node nodes =>
    cases node with
    | text s => simp [joinText, String.append_assoc]
    | «variable» p => rfl
    | conditional branches otherwise => rfl

theorem Tree.update_update (t : Tree) (f g : List Node → List Node) :
    (t.update f).update g = t.update (g ∘ f) := by
  obtain ⟨root, opened⟩ := t
  cases opened <;> rfl

/-- Text may be added in pieces. -/
theorem Tree.addText_append (t : Tree) (as bs : List Char) :
    t.addText (as ++ bs) = (t.addText as).addText bs := by
  by_cases has : as = []
  · simp [addText, has]
  by_cases hbs : bs = []
  · simp [addText, hbs]
  rw [addText, addText, addText, if_neg has, if_neg hbs, if_neg (by simp [has]), update_update]
  congr 1
  funext nodes
  rw [Function.comp_apply, joinText_joinText, String.ofList_append]

theorem foldl_grow_chars (t : Tree) (cs : List Char) :
    (chars cs).foldl Tree.grow t = t.addText cs := by
  induction cs generalizing t with
  | nil => rfl
  | cons a cs ih =>
    rw [← List.singleton_append, Tree.addText_append, ← ih]
    rfl

theorem nestAll?_append (spans more : List Span) (stack : List Bool) :
    nestAll? (spans ++ more) stack = (nestAll? spans stack).bind (nestAll? more) := by
  induction spans generalizing stack with
  | nil => rfl
  | cons span spans ih =>
    cases span with
    | text cs => exact ih stack
    | tag t source =>
      rw [List.cons_append, nestAll?, nestAll?, Option.bind_assoc]
      congr 1
      funext stack'
      exact ih stack'

theorem nestAll?_chars (cs : List Char) (stack : List Bool) :
    nestAll? (chars cs) stack = some stack := by
  induction cs with
  | nil => rfl
  | cons a cs ih => exact ih

/-- Up to the next left delimiter everything is text. -/
theorem Splits.of_find? {n : Nat} (hfind : find? d.left.toList c.rest = some n)
    (h : Splits d (c.advance n) spans notes) :
    Splits d c (chars (c.rest.take n) ++ spans) notes := by
  induction n generalizing c with
  | zero => simpa [chars, Cursor.advance] using h
  | succ n ih =>
    cases hrest : c.rest with
    | nil => simp [hrest, find?] at hfind
    | cons a cs =>
      rw [hrest, find?] at hfind
      split at hfind
      · simp at hfind
      rename_i hleft
      rw [List.isPrefixOf_iff_prefix, ← hrest] at hleft
      have hnext : (c.advance 1).rest = cs := by simp [hrest]
      have hfind' : find? d.left.toList (c.advance 1).rest = some n := by
        rw [hnext]
        simpa using hfind
      have htail := ih hfind' (by rw [advance_advance, Nat.add_comm]; exact h)
      rw [hnext] at htail
      exact .char hrest hleft htail

/-- Without a left delimiter everything is text. -/
theorem splits_of_find?_eq_none (h : find? d.left.toList c.rest = none) :
    Splits d c (chars c.rest) [] := by
  generalize hrest : c.rest = cs at h ⊢
  induction cs generalizing c with
  | nil => exact .done hrest
  | cons a cs ih =>
    rw [find?] at h
    split at h
    · simp at h
    rename_i hleft
    rw [List.isPrefixOf_iff_prefix, ← hrest] at hleft
    exact .char hrest hleft (ih (by simp [hrest]) (by simpa using h))

theorem prefix_of_find? {n : Nat} {cs : List Char} (h : find? d.left.toList cs = some n) :
    d.left.toList <+: cs.drop n := by
  induction cs generalizing n with
  | nil => simp [find?, d.left_ne_empty] at h
  | cons a cs ih =>
    rw [find?] at h
    split at h
    · rename_i hleft
      rw [← Option.some.inj h]
      exact List.isPrefixOf_iff_prefix.mp hleft
    · obtain ⟨m, hm, rfl⟩ := Option.map_eq_some_iff.mp h
      exact ih hm

/-! ### What a scan does along its spans -/

/-- No blocks are open but those of conditions. -/
def Blocks.OnlyIfs (b : Blocks) : Prop :=
  b.byKind = [] ∨ ∃ frames, b.byKind = [(ifKind, frames)]

theorem fold_ifKind : Blocks.fold ifKind = ifKind := by
  decide +kernel

theorem Blocks.OnlyIfs.setKind {b : Blocks} (h : b.OnlyIfs) (frames : List Frame) :
    (b.setKind ifKind frames).OnlyIfs := by
  refine Or.inr ⟨frames, ?_⟩
  rw [Blocks.setKind, fold_ifKind]
  rcases h with h | ⟨old, h⟩ <;> simp [h, Entries.put]

theorem Blocks.OnlyIfs.after {b : Blocks} (h : b.OnlyIfs) (offset : Nat) (t : Tag) :
    (b.after offset t).OnlyIfs := by
  cases t with
  | ifTrue e => exact h.setKind _
  | otherwise =>
    simp only [Blocks.after, Blocks.markElse]
    split
    · exact h
    · exact h.setKind _
  | endIf =>
    simp only [Blocks.after, Blocks.pop]
    split
    · exact h
    · exact h.setKind _
  | «show» p => exact h
  | elseIf e => exact h

variable {s s' s₁ : Scan}

/-- What a scan does on its way along some spans: it keeps what there is to say, and follows the
open blocks and the tree. -/
structure Follows (s : Scan) (spans : List Span) (notes : Log) (s' : Scan) : Prop where
  log : s'.log = s.log ++ notes
  stack : nestAll? spans s.blocks.stack = some s'.blocks.stack
  tree : s'.tree = spans.foldl Tree.grow s.tree
  onlyIfs : s.blocks.OnlyIfs → s'.blocks.OnlyIfs

theorem Follows.append {more : List Span} {later : Log} (h : Follows s spans notes s₁)
    (h' : Follows s₁ more later s') : Follows s (spans ++ more) (notes ++ later) s' where
  log := by rw [h'.log, h.log, List.append_assoc]
  stack := by rw [nestAll?_append, h.stack, Option.bind_some, h'.stack]
  tree := by rw [h'.tree, h.tree, List.foldl_append]
  onlyIfs := h'.onlyIfs ∘ h.onlyIfs

theorem follows_chars (s : Scan) (n : Nat) :
    Follows s (chars (s.cursor.rest.take n)) [] (s.takeText n) where
  log := (List.append_nil _).symm
  stack := nestAll?_chars _ _
  tree := (foldl_grow_chars _ _).symm
  onlyIfs := id

theorem follows_text (s : Scan) (n : Nat) :
    Follows s [.text (s.cursor.rest.take n)] [] (s.takeText n) where
  log := (List.append_nil _).symm
  stack := rfl
  tree := rfl
  onlyIfs := id

theorem follows_tag {t : Tag} {stack : List Bool} (h : t.nest? s.blocks.stack = some stack)
    (source : List Char) (offset : Nat) (next : Cursor) (notes : Log) :
    Follows s [.tag t source] notes
      ⟨next, s.log ++ notes, s.blocks.after offset t, s.tree.apply t⟩ where
  log := rfl
  stack := by
    rw [nestAll?, h, Option.bind_some, nestAll?, Blocks.stack_after h]
  tree := rfl
  onlyIfs := fun hif ↦ hif.after offset t

theorem exists_source {t : Tag} (hleft : d.left.toList <+: c.rest)
    (h : Tag.At d.right.toList (c.advance d.left.toList.length) t notes next) :
    ∃ source, c.rest = source ++ next.rest := by
  obtain ⟨inside, hinside, -⟩ := h.cut
  obtain ⟨ds, hds⟩ := hleft
  refine ⟨d.left.toList ++ inside, ?_⟩
  rw [List.append_assoc, ← hinside, Cursor.rest_advance, ← hds, List.drop_left]

/-- The last round of a scan takes what is left as text. -/
theorem splits_of_finished (h : step d s = .finished s') :
    ∃ spans, Splits d s.cursor spans [] ∧ Follows s spans [] s' := by
  unfold step at h
  dsimp only at h
  cases hfind : find? d.left.toList s.cursor.rest with
  | none =>
    simp only [hfind, Round.finished.injEq] at h
    subst h
    refine ⟨_, splits_of_find?_eq_none hfind, ?_⟩
    have hall := follows_chars s s.cursor.rest.length
    rwa [List.take_length] at hall
  | some n =>
    simp only [hfind] at h
    split at h
    · rename_i hinside
      obtain rfl := Round.finished.inj h
      have hbegins := prefix_of_find? hfind
      have hle : (s.takeText n).cursor.rest.length ≤ d.left.toList.length := by
        simpa using hinside
      have hrest : (s.takeText n).cursor.rest = d.left.toList :=
        (hbegins.eq_of_length_le hle).symm
      refine ⟨_, .of_find? hfind (.dangling hrest), ?_⟩
      have hend := follows_text (s.takeText n) (s.takeText n).cursor.rest.length
      rw [List.take_length, hrest] at hend
      exact (follows_chars s n).append (by rw [hrest]; exact hend)
    · simp only [settle] at h
      split at h <;> simp at h

theorem settle_unmatched (left : List Char) (s : Scan) :
    settle left s ⟨.unmatched, s.blocks, []⟩ = .next (s.takeText (left.length + 1)) := by
  simp [settle, Scan.takeText]

/-- A round without an error takes the text before a left delimiter, and a tag or some text behind
it. -/
theorem splits_of_next (h : step d s = .next s') (hclean : s'.log.hasErrors = false) :
    ∃ spans notes, Follows s spans notes s' ∧ ∀ {more later},
      Splits d s'.cursor more later → Splits d s.cursor (spans ++ more) (notes ++ later) := by
  unfold step at h
  dsimp only at h
  cases hfind : find? d.left.toList s.cursor.rest with
  | none => simp [hfind] at h
  | some n =>
    simp only [hfind] at h
    split at h
    · simp at h
    rename_i hne
    have hbegins := prefix_of_find? hfind
    generalize htrial : readTag d.right.toList (s.takeText n).blocks (s.takeText n).cursor.offset
      ((s.takeText n).cursor.advance d.left.toList.length) = trial at h
    have hnotes : trial.notes.hasErrors = false := by
      have hlog : s'.log = s.log ++ trial.notes := by
        unfold settle at h
        dsimp only at h
        split at h
        · rw [← Round.next.inj h]
          rfl
        · rw [← Round.next.inj h]
          rfl
        · simp at h
      rw [hlog, Condition.hasErrors_append, Bool.or_eq_false_iff] at hclean
      exact hclean.2
    have hfound := readTag_cases (right_ne_nil d) (by rw [htrial]; exact hnotes)
    rw [htrial] at hfound
    rcases hfound with ⟨huntagged, rfl⟩ | ⟨t, notes, next, stack, hat, hnest, rfl⟩
    · rw [settle_unmatched] at h
      obtain rfl := Round.next.inj h
      refine ⟨_, [], (follows_chars s n).append (follows_text (s.takeText n)
        (d.left.toList.length + 1)), ?_⟩
      intro more later hr
      rw [List.append_assoc, List.nil_append]
      exact .of_find? hfind (.untagged hbegins hne huntagged hr)
    · obtain rfl := Round.next.inj h
      obtain ⟨source, hsource⟩ := exists_source hbegins hat
      refine ⟨_, _, (follows_chars s n).append (follows_tag hnest source _ next notes), ?_⟩
      intro more later hr
      rw [List.append_assoc, List.nil_append]
      exact .of_find? hfind (.tag hbegins hat hsource hr)

/-- A scan that leaves no error splits its template. -/
theorem splits_of_run {size : Nat} (h : run d size s = .ok s')
    (hclean : s'.log.hasErrors = false) :
    ∃ spans notes, Splits d s.cursor spans notes ∧ Follows s spans notes s' := by
  fun_induction run d size s with
  | case1 s s₁ hstep =>
    obtain rfl := Except.ok.inj h
    obtain ⟨spans, hsplits, hfollows⟩ := splits_of_finished hstep
    exact ⟨spans, [], hsplits, hfollows⟩
  | case2 s log hstep => simp at h
  | case3 s s₁ hstep hahead ih =>
    obtain ⟨more, later, hsplits, hfollows⟩ := ih h
    have hclean₁ : s₁.log.hasErrors = false := by
      rw [hfollows.log, Condition.hasErrors_append, Bool.or_eq_false_iff] at hclean
      exact hclean.1
    obtain ⟨spans, notes, hround, hextend⟩ := splits_of_next hstep hclean₁
    exact ⟨_, _, hextend hsplits, hround.append hfollows⟩
  | case4 s s₁ hstep hstalled => simp at h

/-! ### Every nested splitting is the work of a scan -/

theorem takeText_zero (s : Scan) : s.takeText 0 = s := by
  simp [Scan.takeText, Cursor.advance, Tree.addText]

theorem takeText_add (s : Scan) (m n : Nat) : s.takeText (m + n) = (s.takeText m).takeText n := by
  simp only [Scan.takeText, ← advance_advance, List.take_add, Tree.addText_append,
    Cursor.rest_advance]

/-- Text before the next left delimiter may be taken in two steps. -/
theorem step_char {a : Char} {cs : List Char} (hrest : s.cursor.rest = a :: cs)
    (hleft : ¬ d.left.toList <+: s.cursor.rest) : step d s = step d (s.takeText 1) := by
  have hnext : (s.takeText 1).cursor.rest = cs := by simp [Scan.takeText, hrest]
  have hfind : find? d.left.toList s.cursor.rest = (find? d.left.toList cs).map (· + 1) := by
    rw [hrest] at hleft ⊢
    rw [find?, if_neg (List.isPrefixOf_iff_prefix.not.mpr hleft)]
  unfold step
  dsimp only
  rw [hfind, hnext]
  cases find? d.left.toList cs with
  | none =>
    have hlen : s.cursor.rest.length = 1 + cs.length := by
      rw [hrest, List.length_cons, Nat.add_comm]
    simp only [Option.map_none, hlen, takeText_add]
  | some n =>
    simp only [Option.map_some, Nat.add_comm n 1, takeText_add]

/-- A round that begins at a left delimiter. -/
theorem step_left (hleft : d.left.toList <+: s.cursor.rest) :
    step d s = if (s.cursor.advance d.left.toList.length).rest = [] then
        .finished (s.takeText s.cursor.rest.length)
      else settle d.left.toList s (readTag d.right.toList s.blocks s.cursor.offset
        (s.cursor.advance d.left.toList.length)) := by
  have hfind : find? d.left.toList s.cursor.rest = some 0 := by
    cases hrest : s.cursor.rest with
    | nil =>
      rw [hrest, List.prefix_nil] at hleft
      exact absurd hleft (left_ne_nil d)
    | cons a cs => rw [find?, if_pos (List.isPrefixOf_iff_prefix.mpr (hrest ▸ hleft))]
  unfold step
  simp only [hfind, takeText_zero]

variable {size : Nat}

theorem run_of_finished (h : step d s = .finished s') : run d size s = .ok s' := by
  rw [run, h]

theorem run_of_next (h : step d s = .next s₁) (hahead : s.cursor.offset < s₁.cursor.offset)
    (hsize : s₁.cursor.offset ≤ size) : run d size s = run d size s₁ := by
  rw [run, h]
  exact if_pos ⟨hahead, hsize⟩

theorem run_of_step_eq (hstep : step d s = step d s₁) (hle : s.cursor.offset ≤ s₁.cursor.offset)
    (h : run d size s₁ = .ok s') : run d size s = .ok s' := by
  rw [run] at h ⊢
  rw [hstep]
  cases hs : step d s₁ with
  | finished s₂ => simpa [hs] using h
  | halted log => simp [hs] at h
  | next s₂ =>
    simp only [hs] at h ⊢
    split at h
    · rename_i hahead
      rwa [if_pos ⟨Nat.lt_of_le_of_lt hle hahead.1, hahead.2⟩]
    · simp at h

/-- A place behind another one in the same source. -/
theorem offset_lt {xs : List Char} (hrest : c.rest = xs ++ next.rest) (hne : xs ≠ [])
    (htotal : next.total = c.total) : c.offset < next.offset := by
  obtain ⟨a, as, rfl⟩ := List.exists_cons_of_ne_nil hne
  have hpos := Char.utf8Size_pos a
  simp only [Cursor.total, hrest, List.cons_append, Text.byteLength_cons,
    Text.byteLength_append] at htotal
  omega

theorem offset_le (htotal : c.total = size) : c.offset ≤ size := by
  rw [← htotal]
  exact Nat.le_add_right _ _

/-- A splitting whose tags are nested as they should be is the work of a scan. -/
theorem run_of_splits {stack : List Bool} (h : Splits d c spans notes) (hc : s.cursor = c)
    (hsize : c.total = size) (hnest : nestAll? spans s.blocks.stack = some stack) :
    ∃ s', run d size s = .ok s' ∧ Follows s spans notes s' := by
  -- along the splitting, since the rounds of a run may take more than one span at a time
  induction h generalizing s with
  | @done c h =>
    subst hc
    have hfind : find? d.left.toList [] = none := by simp [find?, d.left_ne_empty]
    refine ⟨s, run_of_finished ?_, (List.append_nil _).symm, rfl, rfl, id⟩
    unfold step
    simp only [h, hfind, List.length_nil, takeText_zero]
  | @char c a cs spans notes h hleft hr ih =>
    subst hc
    obtain ⟨s', hrun, hfollows⟩ := ih (s := s.takeText 1) rfl
      (by rw [Cursor.total_advance, hsize]) hnest
    refine ⟨s', run_of_step_eq (step_char h hleft) (Nat.le_add_right _ _) hrun, ?_⟩
    have hone := follows_text s 1
    rw [h] at hone
    exact hone.append hfollows
  | @dangling c h =>
    subst hc
    refine ⟨s.takeText s.cursor.rest.length, run_of_finished ?_, ?_⟩
    · rw [step_left ⟨[], by rw [h, List.append_nil]⟩, if_pos (by simp [h])]
    · have hall := follows_text s s.cursor.rest.length
      rw [List.take_length] at hall
      rwa [← h]
  | @untagged c spans notes hleft hne h hr ih =>
    subst hc
    obtain ⟨s', hrun, hfollows⟩ := ih (s := s.takeText (d.left.toList.length + 1)) rfl
      (by rw [Cursor.total_advance, hsize]) hnest
    have hstep : step d s = .next (s.takeText (d.left.toList.length + 1)) := by
      rw [step_left hleft, if_neg hne, readTag_of_untagged h, settle_unmatched]
    have htotal : (s.takeText (d.left.toList.length + 1)).cursor.total = s.cursor.total :=
      Cursor.total_advance
    have hahead : s.cursor.offset < (s.takeText (d.left.toList.length + 1)).cursor.offset := by
      refine offset_lt (List.take_append_drop _ _).symm ?_ htotal
      intro hnil
      rcases List.take_eq_nil_iff.mp hnil with hzero | hnil
      · simp at hzero
      · simp [hnil] at hne
    refine ⟨s', ?_, (follows_text s _).append hfollows⟩
    rw [run_of_next hstep hahead (offset_le (htotal.trans hsize)), hrun]
  | @tag c next t source spans warned notes hleft h hsource hr ih =>
    subst hc
    rw [nestAll?, Option.bind_eq_some_iff] at hnest
    obtain ⟨stack', hnest, hmore⟩ := hnest
    let s₁ : Scan := ⟨next, s.log ++ warned, s.blocks.after s.cursor.offset t, s.tree.apply t⟩
    have htotal : next.total = s.cursor.total := h.total_eq.trans Cursor.total_advance
    obtain ⟨s', hrun, hfollows⟩ := ih (s := s₁) rfl (htotal.trans hsize)
      (by rw [Blocks.stack_after hnest]; exact hmore)
    have hstep : step d s = .next s₁ := by
      rw [step_left hleft, if_neg h.rest_ne_nil, readTag_of_at (right_ne_nil d) h hnest]
      rfl
    have hspells := (Splits.tag hleft h hsource hr).spells t source List.mem_cons_self
    have hahead : s.cursor.offset < s₁.cursor.offset := offset_lt hsource hspells.ne_nil htotal
    refine ⟨s', ?_, (follows_tag hnest source s.cursor.offset next warned).append hfollows⟩
    rw [run_of_next hstep hahead (offset_le (htotal.trans hsize)), hrun]

/-! ### Templates that compile -/

theorem Blocks.OnlyIfs.drain_eq {b : Blocks} (h : b.OnlyIfs) :
    b.drain = (b.ofKind ifKind).map (ifKind, ·) := by
  rw [Blocks.drain, Blocks.ofKind, fold_ifKind]
  rcases h with h | ⟨frames, h⟩ <;> simp [h, Entries.get?]

theorem onlyIfs_empty : Blocks.empty.OnlyIfs :=
  Or.inl rfl

/-- A finished scan leaves no error when none was made on the way and no block is open. -/
theorem hasErrors_finalLog (h : s.blocks.OnlyIfs) :
    s.finalLog.hasErrors = false ↔ s.log.hasErrors = false ∧ s.blocks.stack = [] := by
  rw [Scan.finalLog, Condition.hasErrors_append, Bool.or_eq_false_iff, h.drain_eq, Blocks.stack]
  refine and_congr_right fun _ ↦ ?_
  cases s.blocks.ofKind ifKind with
  | nil => simp [Log.hasErrors]
  | cons frame outer =>
    simp [Log.hasErrors, unended, Fault.locate, Fault.about, Diagnostic.isError, Fault.severity]

theorem finalLog_eq (h : s.blocks.OnlyIfs) (hstack : s.blocks.stack = []) :
    s.finalLog = s.log := by
  rw [Blocks.stack, List.map_eq_nil_iff] at hstack
  rw [Scan.finalLog, h.drain_eq, hstack, List.map_nil, List.map_nil, List.append_nil]

/-- There is nothing to say about the tags of a splitting but for single equals signs. -/
theorem Tag.At.hasErrors {right : List Char} {t : Tag} (h : Tag.At right c t notes next) :
    notes.hasErrors = false := by
  cases h with
  | ifTrue => exact Condition.hasErrors_warnings _
  | elseIf => exact Condition.hasErrors_warnings _
  | _ => rfl

theorem Splits.hasErrors (h : Splits d c spans notes) : notes.hasErrors = false := by
  induction h with
  | done => rfl
  | char h hleft hr ih => exact ih
  | dangling => rfl
  | untagged hleft hne h hr ih => exact ih
  | tag hleft h hsource hr ih => rw [Condition.hasErrors_append, h.hasErrors, ih, Bool.or_false]

end Template

open Template

theorem Program.compile_of_scan {d : Delimiters} {template : String} {s : Scan}
    (h : Template.scan d template.toList = .ok s) :
    Program.compile d template =
      if s.finalLog.hasErrors then .error s.finalLog
      else .ok ⟨currentVersion, s.nodes, s.finalLog⟩ := by
  rw [Program.compile, h]
  rfl

/-- The templates that compile are those that split into spans whose tags are nested as they should
be. The program is grown from the spans, and its warnings are what there is to say about them. -/
theorem Program.compile_eq_ok_iff {d : Delimiters} {template : String} {p : Program} :
    Program.compile d template = .ok p ↔
      ∃ spans notes, Splits d (.ofText template.toList) spans notes ∧
        nestAll? spans [] = some [] ∧
          p = ⟨currentVersion, (spans.foldl Tree.grow .empty).root.reverse, notes⟩ := by
  constructor
  · intro h
    cases hrun : Template.scan d template.toList with
    | error log =>
      rw [Program.compile, hrun] at h
      exact absurd h (by rintro ⟨⟩)
    | ok s =>
      rw [Program.compile_of_scan hrun] at h
      split at h
      · simp at h
      rename_i hclean
      simp only [Bool.not_eq_true] at hclean
      have hlog : s.log.hasErrors = false := by
        rw [Scan.finalLog, Condition.hasErrors_append, Bool.or_eq_false_iff] at hclean
        exact hclean.1
      obtain ⟨spans, notes, hsplits, hfollows⟩ := splits_of_run hrun hlog
      have hif := hfollows.onlyIfs onlyIfs_empty
      have hended := ((hasErrors_finalLog hif).mp hclean).2
      refine ⟨spans, notes, hsplits, hfollows.stack.trans (congrArg some hended), ?_⟩
      rw [← Except.ok.inj h, finalLog_eq hif hended, hfollows.log, Scan.nodes, hfollows.tree]
      rfl
  · rintro ⟨spans, notes, hsplits, hnest, rfl⟩
    obtain ⟨s, hrun, hfollows⟩ :
        ∃ s, Template.scan d template.toList = .ok s ∧
          Follows (.start template.toList) spans notes s :=
      run_of_splits hsplits rfl (Nat.zero_add _) hnest
    have hif := hfollows.onlyIfs onlyIfs_empty
    have hended : s.blocks.stack = [] := Option.some.inj (hfollows.stack.symm.trans hnest)
    have hlog : s.log = notes := hfollows.log
    have hclean := (hasErrors_finalLog hif).mpr ⟨by rw [hlog]; exact hsplits.hasErrors, hended⟩
    rw [Program.compile_of_scan hrun, hclean, finalLog_eq hif hended, hlog, Scan.nodes,
      hfollows.tree]
    rfl

end Stencil
