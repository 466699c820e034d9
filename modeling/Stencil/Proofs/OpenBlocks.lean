import Stencil.Proofs.Visits

/-!
# Open blocks and open nodes

A scan knows twice what is open: the open blocks decide which tags may stand at a place, and the
tree holds the nodes that are being filled. Each is changed on its own, and errors on the way leave
some of the changes out. Between any two rounds both have the same blocks open; as long as there was
no error they also agree on the part that each block is in.

## Main definitions

* `Template.Reached`: the states of a scan between its rounds.
* `Template.Scan.Adds`: the tag that the next round adds to the tree.
* `Template.InStep`: the open blocks and the tree of a scan agree.

## Main results

* `Template.moves_readTag`: what an attempt may do to the open blocks.
* `Template.InStep.next`: a round keeps the open blocks and the tree in step.
* `Template.opened_of_reached`: they are in step in every state that a scan reaches.
-/

namespace Stencil.Template

open Text (Cursor)

variable {d : Delimiters} {template right : List Char} {s s' : Scan} {b : Blocks} {t : Tag}
  {offset : Nat} {c : Cursor}

/-- The states of a scan before its first round, between two rounds, and after the last one. -/
inductive Reached (d : Delimiters) (template : List Char) : Scan → Prop
  | start : Reached d template (.start template)
  | next {s s' : Scan} (h : Reached d template s) (hstep : step d s = .next s') :
      Reached d template s'
  | finished {s s' : Scan} (h : Reached d template s) (hstep : step d s = .finished s') :
      Reached d template s'

/-- The next round of a scan finds a tag and adds it to the tree, which has taken the text before
the tag. -/
def Scan.Adds (d : Delimiters) (s : Scan) (t : Tag) (tree : Tree) : Prop :=
  ∃ n next, find? d.left.toList s.cursor.rest = some n ∧ tree = (s.takeText n).tree ∧
    (readTag d.right.toList (s.takeText n).blocks (s.takeText n).cursor.offset
      ((s.takeText n).cursor.advance d.left.toList.length)).attempt = .tag t next

/-- The tags that go on with an open block or end it. -/
def Tag.Continues : Tag → Prop
  | .elseIf _ | .otherwise | .endIf => True
  | .show _ | .ifTrue _ => False

/-! ### What an attempt does to the open blocks -/

/-- What an attempt may do to the open blocks: a tag changes them as it should, and one that goes on
with a block finds one open. Without a tag they stay as they are. -/
inductive Moves (b : Blocks) (offset : Nat) : Trial → Prop
  | tag {t : Tag} {next : Cursor} {notes : Log} (h : t.Continues → b.stack ≠ []) :
      Moves b offset ⟨.tag t next, b.after offset t, notes⟩
  | unmatched {notes : Log} : Moves b offset ⟨.unmatched, b, notes⟩
  | halted {notes : Log} : Moves b offset ⟨.halted, b, notes⟩

theorem stack_ne_nil_of_current? {f : Frame} (h : b.current? ifKind = some f) : b.stack ≠ [] := by
  obtain ⟨outer, hstack⟩ := stack_of_current? h
  simp [hstack]

theorem moves_readVariable : Moves b offset (readVariable right b c) := by
  unfold readVariable
  split
  · exact .unmatched
  split
  · exact .tag (t := .show _) False.elim
  · exact .halted

theorem moves_readIf : Moves b offset (readIf right b offset c) := by
  unfold readIf
  split
  · exact .tag (t := .ifTrue _) False.elim
  · exact .unmatched
  · exact .halted

theorem moves_readElseIf : Moves b offset (readElseIf right b c) := by
  unfold readElseIf
  split
  · exact .halted
  rename_i f hcurrent
  dsimp only
  split
  · exact .tag (t := .elseIf _) fun _ ↦ stack_ne_nil_of_current? hcurrent
  · exact .unmatched
  · exact .halted

theorem moves_readElse : Moves b offset (readElse right b c) := by
  unfold readElse
  split
  · exact .halted
  split
  · exact .unmatched
  rename_i f hcurrent
  split
  · exact .unmatched
  · exact .tag (t := .otherwise) fun _ ↦ stack_ne_nil_of_current? hcurrent

theorem moves_readEndIf : Moves b offset (readEndIf right b c) := by
  unfold readEndIf
  split
  · exact .halted
  split
  · exact .unmatched
  rename_i hcurrent
  obtain ⟨f, hf⟩ := Option.ne_none_iff_exists'.mp (by simpa using hcurrent)
  exact .tag (t := .endIf) fun _ ↦ stack_ne_nil_of_current? hf

theorem moves_readTag (right : List Char) (b : Blocks) (offset : Nat) (c : Cursor) :
    Moves b offset (readTag right b offset c) := by
  unfold readTag
  split
  · exact moves_readVariable
  unfold readNamed
  split
  · exact .unmatched
  dsimp only
  split
  · exact moves_readIf
  split
  · exact moves_readElseIf
  split
  · exact moves_readElse
  split
  · exact moves_readEndIf
  · exact .unmatched

/-! ### How many blocks are open -/

/-- The number of open blocks after a tag. -/
def Tag.countOpen (n : Nat) : Tag → Nat
  | .ifTrue _ => n + 1
  | .endIf => n - 1
  | .show _ | .elseIf _ | .otherwise => n

theorem length_stack_after (b : Blocks) (offset : Nat) (t : Tag) :
    (b.after offset t).stack.length = t.countOpen b.stack.length := by
  simp only [Blocks.stack, List.length_map]
  cases t with
  | «show» p => rfl
  | ifTrue e => rw [Blocks.after, Blocks.push, Blocks.ofKind_setKind]; rfl
  | elseIf e => rfl
  | otherwise =>
    rw [Blocks.after, Blocks.markElse]
    cases h : b.ofKind ifKind with
    | nil => simp [h, Tag.countOpen]
    | cons f outer => simp [Blocks.ofKind_setKind, Tag.countOpen]
  | endIf =>
    rw [Blocks.after, Blocks.pop]
    cases h : b.ofKind ifKind with
    | nil => simp [h, Tag.countOpen]
    | cons f outer => simp [Blocks.ofKind_setKind, Tag.countOpen]

theorem length_opened_update (tree : Tree) (f : List Node → List Node) :
    (tree.update f).opened.length = tree.opened.length := by
  obtain ⟨root, opened⟩ := tree
  cases opened <;> rfl

theorem length_opened_addText (tree : Tree) (cs : List Char) :
    (tree.addText cs).opened.length = tree.opened.length := by
  unfold Tree.addText
  split
  · rfl
  · exact length_opened_update _ _

theorem length_opened_startPart (tree : Tree) (test : Option Expr) :
    (tree.startPart test).opened.length = tree.opened.length := by
  obtain ⟨root, opened⟩ := tree
  cases opened <;> rfl

theorem length_opened_apply (tree : Tree) (t : Tag) :
    (tree.apply t).opened.length = t.countOpen tree.opened.length := by
  cases t with
  | «show» p => exact length_opened_update _ _
  | ifTrue e => rfl
  | elseIf e => exact length_opened_startPart _ _
  | otherwise => exact length_opened_startPart _ _
  | endIf =>
    obtain ⟨root, opened⟩ := tree
    cases opened with
    | nil => rfl
    | cons b outer => exact length_opened_update _ _

/-! ### Rounds -/

/-- The open blocks and the tree of a scan agree. -/
structure InStep (s : Scan) : Prop where
  onlyIfs : s.blocks.OnlyIfs
  length_eq : s.tree.opened.length = s.blocks.stack.length
  /-- As long as there was no error, each block is in the part that it is filled in. -/
  fits : s.log.hasErrors = false → List.Forall₂ OpenBlock.Fits s.blocks.stack s.tree.opened

theorem inStep_start (template : List Char) : InStep (.start template) where
  onlyIfs := onlyIfs_empty
  length_eq := rfl
  fits := fun _ ↦ .nil

theorem InStep.takeText (h : InStep s) (n : Nat) : InStep (s.takeText n) where
  onlyIfs := h.onlyIfs
  length_eq := (length_opened_addText _ _).trans h.length_eq
  fits := fun hclean ↦ by
    simp only [Scan.takeText, Tree.addText]
    split
    · exact h.fits hclean
    · exact Tree.fits_update (h.fits hclean) _

/-- More to say about a scan does not change what is open. -/
theorem InStep.note (h : InStep s) (notes : Log) :
    InStep { s with log := s.log ++ notes } where
  onlyIfs := h.onlyIfs
  length_eq := h.length_eq
  fits := fun hclean ↦ by
    rw [Condition.hasErrors_append, Bool.or_eq_false_iff] at hclean
    exact h.fits hclean.1

/-- A tag that was found changes the open blocks and the tree alike. -/
theorem InStep.tag {next : Cursor} {notes : Log} (h : InStep s) (hright : right ≠ [])
    (hread : readTag right s.blocks offset c = ⟨.tag t next, s.blocks.after offset t, notes⟩) :
    InStep ⟨next, s.log ++ notes, s.blocks.after offset t, s.tree.apply t⟩ where
  onlyIfs := h.onlyIfs.after offset t
  length_eq := by rw [length_stack_after, length_opened_apply, h.length_eq]
  fits := fun hclean ↦ by
    -- only without an error of its own is the tag where it may stand
    rw [Condition.hasErrors_append, Bool.or_eq_false_iff] at hclean
    obtain ⟨hold, hnotes⟩ := hclean
    have hclean : Log.hasErrors (readTag right s.blocks offset c).notes = false := by
      rw [hread]
      exact hnotes
    have hfound := readTag_cases hright hclean
    rw [hread] at hfound
    rcases hfound with ⟨-, hnone⟩ | ⟨t', notes', next', stack, -, hnest, hsame⟩
    · simp at hnone
    · simp only [Trial.mk.injEq, Attempt.tag.injEq] at hsame
      obtain ⟨⟨rfl, rfl⟩, -, rfl⟩ := hsame
      rw [Blocks.stack_after hnest]
      exact (Tree.visits_apply (h.fits hold) hnest).2

theorem InStep.settle (h : InStep s) (hright : right ≠ []) (left : List Char)
    (hround : settle left s (readTag right s.blocks offset c) = .next s') : InStep s' := by
  generalize hread : readTag right s.blocks offset c = trial at hround
  have hmoves := moves_readTag right s.blocks offset c
  rw [hread] at hmoves
  cases hmoves with
  | tag hfound =>
    obtain rfl := Round.next.inj hround
    exact h.tag hright hread
  | unmatched =>
    obtain rfl := Round.next.inj hround
    exact (h.note _).takeText _
  | halted => simp [Template.settle] at hround

/-- A round keeps the open blocks and the tree in step. -/
theorem InStep.next (h : InStep s) (hstep : step d s = .next s') : InStep s' := by
  unfold step at hstep
  dsimp only at hstep
  split at hstep
  · simp at hstep
  rename_i n hfind
  split at hstep
  · simp at hstep
  · exact (h.takeText n).settle (right_ne_nil d) _ hstep

theorem InStep.finished (h : InStep s) (hstep : step d s = .finished s') : InStep s' := by
  unfold step at hstep
  dsimp only at hstep
  split at hstep
  · obtain rfl := Round.finished.inj hstep
    exact h.takeText _
  rename_i n hfind
  split at hstep
  · obtain rfl := Round.finished.inj hstep
    exact (h.takeText n).takeText _
  · simp only [Template.settle] at hstep
    split at hstep <;> simp at hstep

theorem Reached.inStep (h : Reached d template s) : InStep s := by
  induction h with
  | start => exact inStep_start template
  | next h hstep ih => exact ih.next hstep
  | finished h hstep ih => exact ih.finished hstep

theorem Blocks.OnlyIfs.ofKind_eq_nil (h : b.OnlyIfs) {kind : String}
    (hkind : Blocks.fold kind ≠ ifKind) : b.ofKind kind = [] := by
  rw [Blocks.ofKind]
  rcases h with h | ⟨frames, h⟩
  · rw [h]
    rfl
  · rw [h, Entries.get?_cons, if_neg hkind]
    rfl

/-- The tag that a round adds is the one that the tree changes by. -/
theorem Scan.Adds.next {tree : Tree} (h : s.Adds d t tree) :
    ∃ s', step d s = .next s' ∧ s'.tree = tree.apply t := by
  obtain ⟨n, next, hfind, rfl, hattempt⟩ := h
  have hne : ((s.takeText n).cursor.advance d.left.toList.length).rest ≠ [] := by
    intro hnil
    have hnone (right : List Char) (b : Blocks) (offset : Nat) {c : Cursor} (hc : c.rest = []) :
        readTag right b offset c = ⟨.unmatched, b, []⟩ := by
      rw [readTag, hc, if_neg (by simp), readNamed, hc]
      rfl
    rw [hnone _ _ _ hnil] at hattempt
    simp at hattempt
  unfold step
  simp only [hfind, if_neg hne, settle, hattempt]
  exact ⟨_, rfl, rfl⟩

/-- A tag that goes on with a block finds one open in the tree. -/
theorem InStep.opened_ne_nil (h : InStep s) {tree : Tree} (hadds : s.Adds d t tree)
    (ht : t.Continues) : tree.opened ≠ [] := by
  obtain ⟨n, next, -, rfl, hattempt⟩ := hadds
  have hmoves := moves_readTag d.right.toList (s.takeText n).blocks (s.takeText n).cursor.offset
    ((s.takeText n).cursor.advance d.left.toList.length)
  generalize readTag d.right.toList (s.takeText n).blocks (s.takeText n).cursor.offset
    ((s.takeText n).cursor.advance d.left.toList.length) = trial at hmoves hattempt
  cases hmoves with
  | tag hfound =>
    obtain ⟨rfl, rfl⟩ := Attempt.tag.inj hattempt
    rw [← List.length_pos_iff, (h.takeText n).length_eq]
    exact List.length_pos_iff.mpr (hfound ht)
  | unmatched => simp at hattempt
  | halted => simp at hattempt

/-- In every state that a scan reaches, whatever errors there were, the tree has as many blocks open
as there are open blocks, all of them of conditions. A round changes the tree by the tag that it
adds, and if the tag goes on with a block then one is open in the tree. As long as there was no
error, the else part of an open block has begun exactly when its node in the tree is filled there,
and no else part has been put in its place yet. -/
theorem opened_of_reached (h : Reached d template s) :
    s.tree.opened.length = (s.blocks.ofKind ifKind).length ∧
      (∀ kind, Blocks.fold kind ≠ ifKind → s.blocks.ofKind kind = []) ∧
      (∀ t tree, s.Adds d t tree → (∃ s', step d s = .next s' ∧ s'.tree = tree.apply t) ∧
        (t.Continues → tree.opened ≠ [])) ∧
      (s.log.hasErrors = false →
        List.Forall₂ (fun (f : Frame) b ↦ (f.hasElse = true ↔ b.test = none) ∧ b.otherwise = none)
          (s.blocks.ofKind ifKind) s.tree.opened) := by
  have hstep := h.inStep
  refine ⟨?_, fun kind ↦ hstep.onlyIfs.ofKind_eq_nil,
    fun t tree hadds ↦ ⟨hadds.next, hstep.opened_ne_nil hadds⟩, fun hclean ↦ ?_⟩
  · rw [hstep.length_eq, Blocks.stack, List.length_map]
  · refine (List.forall₂_map_left_iff.mp (hstep.fits hclean)).imp fun f b hfits ↦ ?_
    exact ⟨hfits.2, hfits.1⟩

/-- The scan after a round that is not the last one. -/
def Scan.next? (d : Delimiters) (s : Scan) : Option Scan :=
  match step d s with
  | .next s' => some s'
  | .finished _ | .halted _ => none

theorem Reached.of_next? (h : Reached d template s) (hnext : s.next? d = some s') :
    Reached d template s' := by
  unfold Scan.next? at hnext
  split at hnext
  · rename_i s₁ hstep
    obtain rfl := Option.some.inj hnext
    exact h.next hstep
  · simp at hnext
  · simp at hnext

/-- A block with an else part, and a block inside of it without one. -/
theorem opened_of_reached_nested :
    ∃ s, Reached .standard "\x7bif %a\x7dx\x7belse\x7d\x7bif %b\x7dy".toList s ∧
      s.blocks.stack = [false, true] ∧ s.log.hasErrors = false ∧ s.tree.opened.length = 2 ∧
        ∃ inner outer, s.tree.opened = [inner, outer] ∧ inner.test ≠ none ∧ outer.test = none := by
  let start : Scan := .start "\x7bif %a\x7dx\x7belse\x7d\x7bif %b\x7dy".toList
  have hsome : (((start.next? .standard).bind (Scan.next? .standard)).bind
      (Scan.next? .standard)).isSome = true := by
    decide +kernel
  have hstack : (((start.next? .standard).bind (Scan.next? .standard)).bind
      (Scan.next? .standard)).map (fun s ↦ (s.blocks.stack, s.log.hasErrors)) =
        some ([false, true], false) := by
    decide +kernel
  obtain ⟨s, hs⟩ := Option.isSome_iff_exists.mp hsome
  rw [hs] at hstack
  obtain ⟨hstack, hclean⟩ := Prod.mk.inj (Option.some.inj hstack)
  obtain ⟨s₂, hs₂, hs⟩ := Option.bind_eq_some_iff.mp hs
  obtain ⟨s₁, hs₁, hs₂⟩ := Option.bind_eq_some_iff.mp hs₂
  have hreached := ((Reached.start.of_next? hs₁).of_next? hs₂).of_next? hs
  obtain ⟨hlength, -, -, hfits⟩ := opened_of_reached hreached
  refine ⟨s, hreached, hstack, hclean, ?_, ?_⟩
  · rw [hlength, ← List.length_map Frame.hasElse]
    exact congrArg List.length hstack
  · obtain ⟨f, frames, hframes, hf, hrest⟩ := exists_frames hstack
    obtain ⟨g, frames, rfl, hg, hrest⟩ := List.map_eq_cons_iff.mp hrest
    obtain rfl := List.map_eq_nil_iff.mp hrest
    have hboth := hfits hclean
    rw [hframes] at hboth
    obtain ⟨inner, rest, hinner, hboth, hopened⟩ := List.forall₂_cons_left_iff.mp hboth
    obtain ⟨outer, rest, houter, hnil, rfl⟩ := List.forall₂_cons_left_iff.mp hboth
    obtain rfl := List.forall₂_nil_left_iff.mp hnil
    refine ⟨inner, outer, hopened, fun hnone ↦ ?_, houter.1.mp hg⟩
    rw [hinner.1.mpr hnone] at hf
    exact absurd hf (by decide)

end Stencil.Template
