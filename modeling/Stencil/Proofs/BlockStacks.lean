import Mathlib.Data.List.ModifyLast
import Stencil.Proofs.ByteOrder
import Stencil.Template.Blocks

/-!
# Open blocks as stacks

The open blocks of a template are kept in one table, in which a kind stays when its last block is
closed. What is answered from this table, one request after the other, is what a stack for each kind
answers: the blocks of a kind are opened and closed at the end of a list that no block of another
kind is in.

## Main definitions

* `Template.Blocks.Request`, `Template.Blocks.Answer`: what is asked and what is answered.
* `Template.Blocks.answers`: the answers to some requests, one after the other.
* `Template.Stacks`: a stack for each kind, and `Template.Stacks.Runs`: its answers.
* `Template.Represents`: open blocks that represent a stack for each kind.

## Main results

* `Template.Represents.answer`: one request keeps the blocks and the stacks together.
* `Template.Blocks.answers_empty_eq_iff`: the answers from no open blocks are those of the stacks.
-/

namespace Stencil.Template

/-! ### Requests -/

namespace Blocks

/-- What is asked of open blocks. -/
inductive Request
  | push (kind : String) (offset : Nat)
  | pop (kind : String)
  | current (kind : String)
  | markElse (kind : String)
  | drain

/-- What is answered: nothing, the innermost block of a kind if there is one, or all blocks. -/
inductive Answer
  | done
  | block (frame? : Option Frame)
  | all (frames : List (String × Frame))

/-- The answer to a request and the blocks after it. A block that is closed or marked is answered as
it was until then. -/
def answer (b : Blocks) : Request → Answer × Blocks
  | .push kind offset => (.done, b.push kind offset)
  | .pop kind => (.block (b.current? kind), b.pop kind)
  | .current kind => (.block (b.current? kind), b)
  | .markElse kind => (.block (b.current? kind), b.markElse kind)
  | .drain => (.all b.drain, empty)

/-- The answers to some requests, each made of the blocks that the one before has left. -/
def answers (b : Blocks) : List Request → List Answer
  | [] => []
  | r :: rs => (b.answer r).1 :: (b.answer r).2.answers rs

end Blocks

/-! ### A stack for each kind -/

/-- A name with the capital letters of ASCII made small. -/
def lowerCase (name : String) : String :=
  name.map fun c ↦ if 'A' ≤ c ∧ c ≤ 'Z' then Char.ofNat (c.toNat + 32) else c

/-- The open blocks of each kind by its name in lower case, outermost block first. -/
abbrev Stacks :=
  String → List Frame

namespace Stacks

/-- No open blocks. -/
def empty : Stacks := fun _ ↦ []

/-- The stacks with that of one kind changed. -/
def change (m : Stacks) (kind : String) (f : List Frame → List Frame) : Stacks :=
  Function.update m (lowerCase kind) (f (m (lowerCase kind)))

/-- The blocks of one kind in a list of blocks of all kinds. -/
def blocksOf (kind : String) (frames : List (String × Frame)) : List Frame :=
  (frames.filter (·.1 = kind)).map Prod.snd

/-- Every open block once, with its kind: the kinds in the order of their bytes, and the blocks of a
kind from the innermost outwards. -/
structure Drains (m : Stacks) (frames : List (String × Frame)) : Prop where
  ordered : frames.Pairwise fun e e' ↦ Text.utf8 e.1.toList ≤ Text.utf8 e'.1.toList
  blocksOf_eq : ∀ kind, blocksOf kind frames = (m kind).reverse

/-- The stacks after a request. -/
def after (m : Stacks) : Blocks.Request → Stacks
  | .push kind offset => m.change kind (· ++ [⟨offset, false⟩])
  | .pop kind => m.change kind List.dropLast
  | .current _ => m
  | .markElse kind => m.change kind (List.modifyLast fun f ↦ { f with hasElse := true })
  | .drain => empty

/-- What stacks answer to a request. -/
inductive Answers (m : Stacks) : Blocks.Request → Blocks.Answer → Prop
  | push (kind : String) (offset : Nat) : Answers m (.push kind offset) .done
  | pop (kind : String) : Answers m (.pop kind) (.block (m (lowerCase kind)).getLast?)
  | current (kind : String) : Answers m (.current kind) (.block (m (lowerCase kind)).getLast?)
  | markElse (kind : String) : Answers m (.markElse kind) (.block (m (lowerCase kind)).getLast?)
  | drain {frames : List (String × Frame)} (h : m.Drains frames) : Answers m .drain (.all frames)

/-- What stacks answer to some requests, one after the other. -/
inductive Runs : Stacks → List Blocks.Request → List Blocks.Answer → Prop
  | nil {m : Stacks} : Runs m [] []
  | cons {m : Stacks} {r : Blocks.Request} {a : Blocks.Answer} {rs : List Blocks.Request}
      {as : List Blocks.Answer} (h : m.Answers r a) (hr : Runs (m.after r) rs as) :
      Runs m (r :: rs) (a :: as)

variable {m : Stacks} {kind : String} {f : List Frame → List Frame}
  {frames frames' : List (String × Frame)}

theorem change_apply (kind' : String) :
    m.change kind f kind' =
      if kind' = lowerCase kind then f (m (lowerCase kind)) else m kind' :=
  Function.update_apply _ _ _ _

theorem change_eq_self (h : f (m (lowerCase kind)) = m (lowerCase kind)) : m.change kind f = m := by
  rw [change, h, Function.update_eq_self]

theorem blocksOf_cons (kind : String) (e : String × Frame) (frames : List (String × Frame)) :
    blocksOf kind (e :: frames) =
      if e.1 = kind then e.2 :: blocksOf kind frames else blocksOf kind frames := by
  rw [blocksOf, List.filter_cons]
  split_ifs with h h' h'
  · rfl
  · exact absurd (of_decide_eq_true h) h'
  · exact absurd (decide_eq_true h') h
  · rfl

theorem blocksOf_append (kind : String) (frames frames' : List (String × Frame)) :
    blocksOf kind (frames ++ frames') = blocksOf kind frames ++ blocksOf kind frames' := by
  rw [blocksOf, List.filter_append, List.map_append]
  rfl

theorem blocksOf_map (kind name : String) (frames : List Frame) :
    blocksOf kind (frames.map (name, ·)) = if name = kind then frames else [] := by
  rw [blocksOf, List.filter_map, List.map_map]
  split_ifs with h
  · simp [h, Function.comp_def]
  · simp [h, Function.comp_def]

/-- The first kind of blocks in order is the least one. -/
theorem fst_le_of_blocksOf {e e' : String × Frame}
    (h : (e :: frames).Pairwise fun e e' ↦ e.1 ≤ e'.1)
    (heq : ∀ kind, blocksOf kind (e :: frames) = blocksOf kind (e' :: frames')) : e.1 ≤ e'.1 := by
  have hmem : e'.2 ∈ blocksOf e'.1 (e :: frames) := by
    rw [heq, blocksOf_cons, if_pos rfl]
    exact List.mem_cons_self
  obtain ⟨g, hg, -⟩ := List.mem_map.mp hmem
  obtain ⟨hg, hkind⟩ := List.mem_filter.mp hg
  rw [← of_decide_eq_true hkind]
  rcases List.mem_cons.mp hg with rfl | hg
  · exact le_refl _
  · exact (List.pairwise_cons.mp h).1 g hg

/-- The order of kinds and the blocks of each kind determine a list of blocks. -/
theorem eq_of_blocksOf (h : frames.Pairwise fun e e' ↦ e.1 ≤ e'.1)
    (h' : frames'.Pairwise fun e e' ↦ e.1 ≤ e'.1)
    (heq : ∀ kind, blocksOf kind frames = blocksOf kind frames') : frames = frames' := by
  have hnil {e : String × Frame} {frames : List (String × Frame)} :
      blocksOf e.1 (e :: frames) ≠ [] := by
    rw [blocksOf_cons, if_pos rfl]
    exact List.cons_ne_nil _ _
  induction frames generalizing frames' with
  | nil =>
    cases frames' with
    | nil => rfl
    | cons e' frames' => exact absurd (heq e'.1).symm hnil
  | cons e frames ih =>
    cases frames' with
    | nil => exact absurd (heq e.1) hnil
    | cons e' frames' =>
      have hkind : e.1 = e'.1 :=
        le_antisymm (fst_le_of_blocksOf h heq) (fst_le_of_blocksOf h' fun kind ↦ (heq kind).symm)
      have hhead := heq e.1
      rw [blocksOf_cons, blocksOf_cons, if_pos rfl, if_pos hkind.symm] at hhead
      obtain rfl : e = e' := Prod.ext hkind (List.cons.inj hhead).1
      have htail (kind : String) : blocksOf kind frames = blocksOf kind frames' := by
        have hboth := heq kind
        rw [blocksOf_cons, blocksOf_cons] at hboth
        split_ifs at hboth
        · exact (List.cons.inj hboth).2
        · exact hboth
      rw [ih (List.pairwise_cons.mp h).2 (List.pairwise_cons.mp h').2 htail]

/-- Stacks have their open blocks in one order only. -/
theorem Drains.unique (h : m.Drains frames) (h' : m.Drains frames') : frames = frames' :=
  eq_of_blocksOf (h.ordered.imp Text.utf8_le_utf8_iff.mp) (h'.ordered.imp Text.utf8_le_utf8_iff.mp)
    fun kind ↦ (h.blocksOf_eq kind).trans (h'.blocksOf_eq kind).symm

end Stacks

/-! ### Blocks that represent stacks -/

/-- Open blocks represent stacks: the kinds are in order, and each has its blocks, innermost block
first. A kind may be there without any. -/
structure Represents (b : Blocks) (m : Stacks) : Prop where
  ordered : b.byKind.Pairwise fun e e' ↦ e.1 < e'.1
  frames_eq : ∀ kind, (Entries.get? b.byKind kind).getD [] = (m kind).reverse

theorem toLower_eq (c : Char) :
    c.toLower = if 'A' ≤ c ∧ c ≤ 'Z' then Char.ofNat (c.toNat + 32) else c := by
  by_cases h : 'A' ≤ c ∧ c ≤ 'Z'
  · have hle : c.val.toNat ≤ 90 := h.2
    have hlower : c.toLower = ⟨c.val + 32, _⟩ := dif_pos h
    have hnat : c.toLower.toNat = c.toNat + 32 := by
      rw [hlower]
      exact (UInt32.toNat_add _ _).trans (Nat.mod_eq_of_lt (show c.val.toNat + 32 < _ by omega))
    rw [if_pos h, ← hnat, Char.ofNat_toNat]
  · rw [if_neg h]
    exact dif_neg h

theorem fold_eq_lowerCase (kind : String) : Blocks.fold kind = lowerCase kind :=
  congrArg (kind.map ·) (funext toLower_eq)

theorem represents_empty : Represents .empty .empty :=
  ⟨.nil, fun _ ↦ rfl⟩

/-- The blocks of one kind among those of all entries. -/
theorem blocksOf_flatMap {entries : Entries (List Frame)}
    (h : entries.Pairwise fun e e' ↦ e.1 < e'.1) (kind : String) :
    Stacks.blocksOf kind (entries.flatMap fun e ↦ e.2.map (e.1, ·)) =
      (Entries.get? entries kind).getD [] := by
  induction entries with
  | nil => rfl
  | cons e rest ih =>
    obtain ⟨hfirst, hrest⟩ := List.pairwise_cons.mp h
    rw [List.flatMap_cons, Stacks.blocksOf_append, Stacks.blocksOf_map, ih hrest,
      Entries.get?_cons]
    by_cases hkind : e.1 = kind
    · have hnone : Entries.get? rest kind = none :=
        List.lookup_eq_none_iff.mpr fun e' he' ↦ by
          simpa using hkind ▸ (hfirst e' he').ne
      rw [if_pos hkind, if_pos hkind.symm, hnone, Option.getD_none, List.append_nil,
        Option.getD_some]
    · rw [if_neg hkind, if_neg (Ne.symm hkind), List.nil_append]

namespace Represents

variable {b : Blocks} {m : Stacks} {kind : String} {f : List Frame → List Frame}
  {frames : List Frame} {r : Blocks.Request} {a : Blocks.Answer} {rs : List Blocks.Request}
  {as : List Blocks.Answer}

theorem ofKind (h : Represents b m) (kind : String) :
    b.ofKind kind = (m (lowerCase kind)).reverse := by
  rw [Blocks.ofKind, h.frames_eq, fold_eq_lowerCase]

theorem current? (h : Represents b m) (kind : String) :
    b.current? kind = (m (lowerCase kind)).getLast? := by
  rw [Blocks.current?, h.ofKind, List.head?_reverse]

/-- Blocks with those of one kind replaced, whether the kind was there or not. -/
theorem setKind (h : Represents b m) (hframes : frames = (f (m (lowerCase kind))).reverse) :
    Represents (b.setKind kind frames) (m.change kind f) where
  ordered := Entries.pairwise_put h.ordered _ _
  frames_eq := fun kind' ↦ by
    rw [Blocks.setKind, Entries.get?_put, Stacks.change_apply, fold_eq_lowerCase]
    split_ifs
    · exact hframes
    · exact h.frames_eq kind'

theorem drains (h : Represents b m) : m.Drains b.drain where
  ordered := by
    rw [Blocks.drain, List.pairwise_flatMap]
    refine ⟨fun e _ ↦ ?_, h.ordered.imp fun {e e'} hlt ↦ ?_⟩
    · exact List.pairwise_map.mpr (List.pairwise_of_forall fun _ _ ↦ List.le_refl _)
    · intro x hx y hy
      obtain ⟨_, -, rfl⟩ := List.mem_map.mp hx
      obtain ⟨_, -, rfl⟩ := List.mem_map.mp hy
      exact Text.utf8_le_utf8_iff.mpr hlt.le
  blocksOf_eq := fun kind ↦ (blocksOf_flatMap h.ordered kind).trans (h.frames_eq kind)

theorem push (h : Represents b m) (kind : String) (offset : Nat) :
    Represents (b.push kind offset) (m.change kind (· ++ [⟨offset, false⟩])) := by
  refine h.setKind ?_
  rw [h.ofKind, List.reverse_concat]

/-- Blocks with the innermost one of a kind changed, if there is one. -/
theorem changeInnermost (h : Represents b m) (g : Frame → List Frame → List Frame)
    (hnil : f [] = []) (hconcat : ∀ frames frame,
      f (frames ++ [frame]) = (g frame frames.reverse).reverse) :
    Represents (match b.ofKind kind with
      | [] => b
      | frame :: outer => b.setKind kind (g frame outer)) (m.change kind f) := by
  have hofKind := h.ofKind kind
  split
  · rename_i heq
    rw [heq, eq_comm, List.reverse_eq_nil_iff] at hofKind
    rwa [Stacks.change_eq_self (by rw [hofKind, hnil])]
  · rename_i frame outer heq
    rw [heq, eq_comm, List.reverse_eq_cons_iff] at hofKind
    refine h.setKind ?_
    rw [hofKind, hconcat, List.reverse_reverse, List.reverse_reverse]

theorem pop (h : Represents b m) (kind : String) :
    Represents (b.pop kind) (m.change kind List.dropLast) :=
  h.changeInnermost (fun _ outer ↦ outer) rfl fun frames frame ↦ by
    rw [List.dropLast_concat, List.reverse_reverse]

theorem markElse (h : Represents b m) (kind : String) : Represents (b.markElse kind)
    (m.change kind (List.modifyLast fun f ↦ { f with hasElse := true })) :=
  h.changeInnermost (fun frame outer ↦ { frame with hasElse := true } :: outer) rfl
    fun frames frame ↦ by
      rw [List.modifyLast_concat, List.reverse_cons, List.reverse_reverse]

/-- A request keeps the blocks and the stacks together. -/
theorem answer (h : Represents b m) (r : Blocks.Request) :
    Represents (b.answer r).2 (m.after r) := by
  cases r with
  | push kind offset => exact h.push kind offset
  | pop kind => exact h.pop kind
  | current kind => exact h
  | markElse kind => exact h.markElse kind
  | drain => exact represents_empty

/-- The answer to a request is the one that the stacks have. -/
theorem answer_eq_iff (h : Represents b m) : (b.answer r).1 = a ↔ m.Answers r a := by
  constructor
  · rintro rfl
    cases r with
    | push kind offset => exact .push kind offset
    | pop kind =>
      rw [Blocks.answer, h.current?]
      exact .pop kind
    | current kind =>
      rw [Blocks.answer, h.current?]
      exact .current kind
    | markElse kind =>
      rw [Blocks.answer, h.current?]
      exact .markElse kind
    | drain => exact .drain h.drains
  · intro ha
    cases ha with
    | push => rfl
    | pop | current | markElse => exact congrArg Blocks.Answer.block (h.current? _)
    | drain hdrains => exact congrArg Blocks.Answer.all (h.drains.unique hdrains)

/-- The answers to some requests are those that the stacks have. -/
theorem answers_eq_iff (h : Represents b m) : b.answers rs = as ↔ m.Runs rs as := by
  induction rs generalizing b m as with
  | nil =>
    constructor
    · rintro rfl
      exact .nil
    · rintro ⟨⟩
      rfl
  | cons r rs ih =>
    constructor
    · rintro rfl
      exact .cons (h.answer_eq_iff.mp rfl) ((ih (h.answer r)).mp rfl)
    · rintro (_ | ⟨ha, hr⟩)
      rw [Blocks.answers, h.answer_eq_iff.mpr ha, (ih (h.answer r)).mpr hr]

end Represents

/-- The blocks of each kind are a stack of its own: what is answered to requests in any order, from
no open blocks on, is what a stack for each kind answers. -/
theorem Blocks.answers_empty_eq_iff (rs : List Blocks.Request) (as : List Blocks.Answer) :
    Blocks.empty.answers rs = as ↔ Stacks.empty.Runs rs as :=
  represents_empty.answers_eq_iff

end Stencil.Template
