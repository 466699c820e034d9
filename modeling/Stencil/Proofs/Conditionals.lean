import Stencil.Proofs.Concatenation

/-!
# Blocks written out of conditions and templates

A block is put together from the texts of its conditions and from templates that stand in its arms.
When each of these compiles on its own, the block compiles into one conditional, and the parts of
that conditional are the expressions and nodes of the texts. The templates may hold blocks of their
own; they never touch the one they stand in.

## Main definitions

* `Template.Fragment`: a text that splits on its own and may stand in front of others.
* `Template.Arm`, `Template.writeBlock`: the source of a block.
* `Template.Arm.Compiles`: what the texts of an arm compile to.
* `Template.Collects`: the arms that a tree with one open block has collected.

## Main results

* `Template.Collects.arm`: a block with one more arm.
* `Program.render_of_writeBlock`: a block shows its first arm whose condition is true.
-/

namespace Stencil

namespace Template

open Text (Cursor)
open Condition (Accepts)

variable {as bs cs : List Char} {spans more : List Span} {notes : Log}

/-! ### Fragments of templates -/

/-- A text that splits into spans on its own and may stand in front of any other. -/
structure Fragment (cs : List Char) (spans : List Span) : Prop where
  guarded : Guarded cs
  splits : ∃ notes, Splits .standard (.ofText cs) spans notes

theorem Fragment.append (h : Fragment as spans) (h' : Fragment bs more) :
    Fragment (as ++ bs) (spans ++ more) := by
  obtain ⟨notes, hsplits⟩ := h.splits
  obtain ⟨later, hlater⟩ := h'.splits
  exact ⟨h.guarded.append h'.guarded, _, hsplits.append_shift h.guarded hlater⟩

theorem fragment_nil : Fragment [] [] :=
  ⟨guarded_nil, [], .done rfl⟩

/-- A tag up to the end of its text is a fragment. -/
theorem fragment_of_tag (cs : List Char) {t : Tag} {stop : Nat}
    (h : Tag.At ['\x7d'] ⟨1, cs ++ ['\x7d']⟩ t notes ⟨stop, []⟩) :
    Fragment ('\x7b' :: (cs ++ ['\x7d'])) [.tag t ('\x7b' :: (cs ++ ['\x7d']))] := by
  refine ⟨guarded_of_last ('\x7b' :: cs), notes ++ [], ?_⟩
  exact .tag ⟨cs ++ ['\x7d'], rfl⟩ h (List.append_nil _).symm (.done rfl)

/-! ### Blocks and their arms -/

/-- A condition, and the template to show when it is the first one that is true. -/
structure Arm where
  condition : String
  body : String

/-- The source of an arm, whose tag has a name. -/
def Arm.write (name : String) (a : Arm) : String :=
  "\x7b" ++ name ++ " " ++ a.condition ++ "\x7d" ++ a.body

/-- The source of the arms behind the first one. -/
def writeArms : List Arm → String
  | [] => ""
  | a :: arms => a.write "elseif" ++ writeArms arms

/-- The source of an else part. -/
def writeElse : Option String → String
  | some body => "\x7belse\x7d" ++ body
  | none => ""

/-- The source of a block. -/
def writeBlock (first : Arm) (arms : List Arm) (otherwise : Option String) : String :=
  first.write "if" ++ writeArms arms ++ writeElse otherwise ++ "\x7b/if\x7d"

/-- A template that compiles on its own, and each of whose left braces has a right brace behind
it. -/
structure SelfContained (body : String) (p : Program) : Prop where
  compiled : Program.compile .standard body = .ok p
  guarded : Guarded body.toList

/-- What the condition and the template of an arm compile to. The condition is read with a right
brace behind it, and to that brace. -/
structure Arm.Compiles (a : Arm) (branch : Expr × Program) : Prop where
  accepted : ∃ stop notes, Condition.compile Delimiters.standard.right.toList
    (.ofText (a.condition ++ "\x7d").toList) = (.accepted branch.1 ⟨stop, []⟩, notes)
  body : SelfContained a.body branch.2

theorem SelfContained.fragment {body : String} {p : Program} (h : SelfContained body p) :
    ∃ spans, Fragment body.toList spans ∧ nestAll? spans [] = some [] ∧
      p.nodes = (spans.foldl Tree.grow .empty).root.reverse := by
  obtain ⟨spans, notes, hsplits, hnest, rfl⟩ := Program.compile_eq_ok_iff.mp h.compiled
  exact ⟨spans, ⟨h.guarded, notes, hsplits⟩, hnest, rfl⟩

/-- An accepted condition is accepted behind the name of a tag and a blank. -/
theorem Arm.Compiles.accepts {a : Arm} {branch : Expr × Program} (h : a.Compiles branch) (k : Nat) :
    ∃ body stop, Accepts ['\x7d'] ⟨k, ' ' :: (a.condition.toList ++ ['\x7d'])⟩ body branch.1
      ⟨stop, []⟩ := by
  obtain ⟨stop, notes, hcompile⟩ := h.accepted
  obtain ⟨body, haccepts, -⟩ :=
    (Condition.compile_eq_accepted_iff (right_ne_nil _)).mp hcompile
  have hmoved := haccepts.shift (k + 1)
  rw [String.toList_append] at hmoved
  exact ⟨_, _, hmoved.blank (o := k) rfl⟩

/-- The tag of an arm is a fragment, when its name makes it the tag `t`. -/
theorem Arm.Compiles.fragment {a : Arm} {branch : Expr × Program} (h : a.Compiles branch)
    (name : String) (t : Tag)
    (hat : ∀ o cs body next,
      Accepts ['\x7d'] ⟨o + Text.byteLength name.toList, ' ' :: cs⟩ body branch.1 next →
        Tag.At ['\x7d'] ⟨o, name.toList ++ ' ' :: cs⟩ t (Condition.warnings body) next) :
    ∃ source, Fragment ("\x7b" ++ name ++ " " ++ a.condition ++ "\x7d").toList
      [.tag t source] := by
  obtain ⟨body, stop, haccepts⟩ := h.accepts (1 + Text.byteLength name.toList)
  have htag := hat 1 _ _ _ haccepts
  have hinside : name.toList ++ ' ' :: (a.condition.toList ++ ['\x7d']) =
      (name.toList ++ ' ' :: a.condition.toList) ++ ['\x7d'] := by
    rw [List.append_assoc, List.cons_append]
  rw [hinside] at htag
  have hsource : ("\x7b" ++ name ++ " " ++ a.condition ++ "\x7d").toList =
      '\x7b' :: ((name.toList ++ ' ' :: a.condition.toList) ++ ['\x7d']) := by
    simp
  rw [hsource]
  exact ⟨_, fragment_of_tag _ htag⟩

theorem fragment_else : ∃ source, Fragment "\x7belse\x7d".toList [.tag .otherwise source] :=
  ⟨_, fragment_of_tag "else".toList (.otherwise (n := 4) ⟨rfl, rfl⟩ ⟨[], rfl⟩)⟩

theorem fragment_endIf : ∃ source, Fragment "\x7b/if\x7d".toList [.tag .endIf source] :=
  ⟨_, fragment_of_tag "/if".toList (.endIf (n := 3) ⟨rfl, rfl⟩ ⟨[], rfl⟩)⟩

/-! ### Open blocks around spans -/

variable {stack stack' : List Bool}

theorem Tag.nest?_append {t : Tag} (h : t.nest? stack = some stack') (outer : List Bool) :
    t.nest? (stack ++ outer) = some (stack' ++ outer) := by
  cases t with
  | «show» p =>
    obtain rfl := Option.some.inj h
    rfl
  | ifTrue e =>
    obtain rfl := Option.some.inj h
    rfl
  | elseIf e =>
    obtain ⟨inner, rfl, rfl⟩ := nest?_elseIf.mp h
    rfl
  | otherwise =>
    obtain ⟨inner, rfl, rfl⟩ := nest?_otherwise.mp h
    rfl
  | endIf =>
    obtain ⟨inElse, rfl⟩ := nest?_endIf.mp h
    rfl

/-- Blocks that are open around spans stay as they are. -/
theorem nestAll?_append_right (h : nestAll? spans stack = some stack') (outer : List Bool) :
    nestAll? spans (stack ++ outer) = some (stack' ++ outer) := by
  induction spans generalizing stack with
  | nil =>
    obtain rfl := Option.some.inj h
    rfl
  | cons span spans ih =>
    cases span with
    | text cs => exact ih h
    | tag t source =>
      rw [nestAll?, Option.bind_eq_some_iff] at h
      obtain ⟨stack₁, hfirst, hrest⟩ := h
      rw [nestAll?, Tag.nest?_append hfirst, Option.bind_some]
      exact ih hrest

theorem root_foldl_grow (hnest : nestAll? spans [] = some []) :
    glue [] (spans.foldl Tree.grow .empty).root = (spans.foldl Tree.grow .empty).root :=
  (congrArg Tree.root (foldl_grow_eq_update .empty hnest)).symm

/-- Spans with all their blocks closed become the body of a block that has none yet. -/
theorem foldl_grow_body {b : OpenBlock} (hbody : b.body = [])
    (hnest : nestAll? spans [] = some []) : spans.foldl Tree.grow ⟨[], [b]⟩ =
      ⟨[], [{ b with body := (spans.foldl Tree.grow .empty).root }]⟩ := by
  rw [foldl_grow_eq_update _ hnest]
  simp only [Tree.update, hbody, root_foldl_grow hnest]

/-! ### The conditional of a block -/

/-- A tree has one open block, outside of its else part, and the block has these branches up to
now. -/
def Collects (branches : List (Expr × List Node)) (t : Tree) : Prop :=
  ∃ b, t = ⟨[], [b]⟩ ∧ b.finishPart = ⟨branches.reverse, none, [], none⟩

variable {branches : List (Expr × List Node)} {t : Tree} {e : Expr} {source : List Char}

theorem collects_first (hnest : nestAll? spans [] = some []) :
    Collects [(e, (spans.foldl Tree.grow .empty).root.reverse)]
      ((.tag (.ifTrue e) source :: spans).foldl Tree.grow .empty) := by
  have hopen : Tree.empty.grow (.tag (.ifTrue e) source) = ⟨[], [.start e]⟩ := rfl
  rw [List.foldl_cons, hopen, foldl_grow_body rfl hnest]
  exact ⟨_, rfl, rfl⟩

theorem Collects.startPart (h : Collects branches t) (test : Option Expr) :
    t.startPart test = ⟨[], [⟨branches.reverse, test, [], none⟩]⟩ := by
  obtain ⟨b, rfl, hb⟩ := h
  simp only [Tree.startPart, OpenBlock.startPart, hb]

/-- One more arm gives one more branch. -/
theorem Collects.arm (h : Collects branches t) (e : Expr) (source : List Char)
    (hnest : nestAll? spans [] = some []) :
    Collects (branches ++ [(e, (spans.foldl Tree.grow .empty).root.reverse)])
      ((.tag (.elseIf e) source :: spans).foldl Tree.grow t) := by
  have hopen : t.grow (.tag (.elseIf e) source) =
      ⟨[], [⟨branches.reverse, some e, [], none⟩]⟩ := h.startPart (some e)
  rw [List.foldl_cons, hopen, foldl_grow_body rfl hnest]
  refine ⟨_, rfl, ?_⟩
  rw [List.reverse_append]
  rfl

theorem grow_endIf (b : OpenBlock) :
    (⟨[], [b]⟩ : Tree).grow (.tag .endIf source) = ⟨[b.close], []⟩ := rfl

/-- The end tag makes a conditional of the branches. -/
theorem Collects.close (h : Collects branches t) (source : List Char) :
    t.grow (.tag .endIf source) = ⟨[.conditional branches none], []⟩ := by
  obtain ⟨b, rfl, hb⟩ := h
  rw [grow_endIf]
  simp only [OpenBlock.close, hb, List.reverse_reverse]

/-- With an else part, the conditional has that as well. -/
theorem Collects.close_else (h : Collects branches t) (hnest : nestAll? spans [] = some [])
    (source' : List Char) :
    ((.tag .otherwise source :: spans).foldl Tree.grow t).grow (.tag .endIf source') =
      ⟨[.conditional branches (some (spans.foldl Tree.grow .empty).root.reverse)], []⟩ := by
  have hopen : t.grow (.tag .otherwise source) = ⟨[], [⟨branches.reverse, none, [], none⟩]⟩ :=
    h.startPart none
  rw [List.foldl_cons, hopen, foldl_grow_body rfl hnest, grow_endIf]
  simp only [OpenBlock.close, OpenBlock.finishPart, List.reverse_reverse]

/-! ### The spans of a block -/

/-- The branch that an arm compiles to. -/
def branchOf (branch : Expr × Program) : Expr × List Node :=
  (branch.1, branch.2.nodes)

variable {compiled : List (Expr × Program)}

theorem Arm.Compiles.exists_if {a : Arm} {branch : Expr × Program} (h : a.Compiles branch) :
    ∃ spans, Fragment (a.write "if").toList spans ∧ nestAll? spans [] = some [false] ∧
      Collects [branchOf branch] (spans.foldl Tree.grow .empty) := by
  obtain ⟨source, htag⟩ := h.fragment "if" (.ifTrue branch.1)
    fun o cs body next haccepts ↦ .ifTrue (n := 2) ⟨rfl, rfl⟩ haccepts
  obtain ⟨spans, hbody, hnest, hnodes⟩ := h.body.fragment
  refine ⟨.tag (.ifTrue branch.1) source :: spans, ?_, nestAll?_append_right hnest [false], ?_⟩
  · rw [Arm.write, String.toList_append]
    exact htag.append hbody
  · rw [branchOf, hnodes]
    exact collects_first hnest

/-- The arms behind the first one give their branches to the block that is open around them. -/
theorem exists_arms {arms : List Arm} (h : List.Forall₂ Arm.Compiles arms compiled) :
    ∃ spans, Fragment (writeArms arms).toList spans ∧ nestAll? spans [false] = some [false] ∧
      ∀ branches t, Collects branches t →
        Collects (branches ++ compiled.map branchOf) (spans.foldl Tree.grow t) := by
  induction h with
  | nil => exact ⟨[], fragment_nil, rfl, fun branches t ht ↦ by rwa [List.map_nil, List.append_nil]⟩
  | @cons a branch arms compiled ha harms ih =>
    obtain ⟨more, hmore, hnestMore, hcollects⟩ := ih
    obtain ⟨source, htag⟩ := ha.fragment "elseif" (.elseIf branch.1)
      fun o cs body next haccepts ↦ .elseIf (n := 6) ⟨rfl, rfl⟩ haccepts
    obtain ⟨spans, hbody, hnest, hnodes⟩ := ha.body.fragment
    refine ⟨.tag (.elseIf branch.1) source :: spans ++ more, ?_, ?_, fun branches t ht ↦ ?_⟩
    · rw [writeArms, Arm.write, String.toList_append, String.toList_append]
      exact (htag.append hbody).append hmore
    · have hopen : nestAll? spans [false] = some [false] := nestAll?_append_right hnest [false]
      rw [nestAll?_append, nestAll?, Tag.nest?, Option.bind_some, hopen, Option.bind_some,
        hnestMore]
    · have hfirst := ht.arm branch.1 source hnest
      rw [← hnodes] at hfirst
      have hall := hcollects _ _ hfirst
      rw [List.append_assoc] at hall
      rw [List.foldl_append]
      exact hall

/-- The else part, if there is one, and the end tag make a conditional of the block that is open
around them. -/
theorem exists_end {otherwise : Option String} {fallback : Option Program}
    (h : Option.Rel SelfContained otherwise fallback) :
    ∃ spans, Fragment (writeElse otherwise ++ "\x7b/if\x7d").toList spans ∧
      nestAll? spans [false] = some [] ∧ ∀ branches t, Collects branches t →
        spans.foldl Tree.grow t = ⟨[.conditional branches (fallback.map Program.nodes)], []⟩ := by
  obtain ⟨source, hend⟩ := fragment_endIf
  cases h with
  | none =>
    refine ⟨[.tag .endIf source], ?_, rfl, fun branches t ht ↦ ht.close source⟩
    rw [writeElse, String.empty_append]
    exact hend
  | @some body q hq =>
    obtain ⟨source', helse⟩ := fragment_else
    obtain ⟨spans, hbody, hnest, hnodes⟩ := hq.fragment
    refine ⟨.tag .otherwise source' :: spans ++ [.tag .endIf source], ?_, ?_,
      fun branches t ht ↦ ?_⟩
    · rw [writeElse, String.toList_append, String.toList_append]
      exact (helse.append hbody).append hend
    · have hopen : nestAll? spans [true] = some [true] := nestAll?_append_right hnest [true]
      rw [nestAll?_append, nestAll?, Tag.nest?, Option.bind_some, hopen]
      rfl
    · rw [List.foldl_append, Option.map_some, hnodes]
      exact ht.close_else hnest source

end Template

namespace Node

open Template (branchOf)

variable (context : Context)

/-- A conditional shows its first branch whose test is true. -/
theorem renderBranches_eq_find? (branches : List (Expr × List Node)) :
    renderBranches context branches = (branches.find? fun b ↦ (b.1.eval context).truthy).map
      fun b ↦ renderList context b.2 := by
  induction branches with
  | nil => rfl
  | cons b branches ih =>
    obtain ⟨test, body⟩ := b
    rw [renderBranches, List.find?_cons, ih]
    cases (test.eval context).truthy <;> rfl

/-- A conditional of programs shows the first one whose test is true. -/
theorem render_conditional_map (compiled : List (Expr × Program)) (fallback : Option Program) :
    render context (.conditional (compiled.map branchOf) (fallback.map Program.nodes)) =
      match compiled.find? fun branch ↦ (branch.1.eval context).truthy with
      | some branch => branch.2.render context
      | none => (fallback.map (·.render context)).getD "" := by
  have hfind : (compiled.map branchOf).find? (fun b ↦ (b.1.eval context).truthy) =
      (compiled.find? fun branch ↦ (branch.1.eval context).truthy).map branchOf := List.find?_map
  rw [render, renderBranches_eq_find?, hfind]
  cases compiled.find? fun branch ↦ (branch.1.eval context).truthy with
  | some branch => rfl
  | none => cases fallback <;> rfl

end Node

/-- A condition that is read to the right delimiter at the end of its text. -/
theorem Condition.exists_of_accepted {right : List Char} {c : Text.Cursor}
    (h : (match compile right c with
      | (.accepted _ next, _) => next.rest.isEmpty
      | _ => false) = true) :
    ∃ e stop notes, compile right c = (.accepted e ⟨stop, []⟩, notes) := by
  split at h
  · rename_i e next notes hcompile
    obtain ⟨stop, rest⟩ := next
    obtain rfl := List.isEmpty_iff.mp h
    exact ⟨e, stop, notes, hcompile⟩
  · simp at h

namespace Program

open Template

/-- A block compiles when its conditions are accepted and its templates compile on their own, each
left brace of a template having a right brace behind it. It is one conditional, made of the parts
as they are on their own. It shows the first arm whose condition is true, and the else part when
there is none. -/
theorem render_of_writeBlock {first : Arm} {arms : List Arm} {otherwise : Option String}
    {compiled : List (Expr × Program)} {fallback : Option Program}
    (harms : List.Forall₂ Arm.Compiles (first :: arms) compiled)
    (helse : Option.Rel SelfContained otherwise fallback) :
    ∃ p, compile .standard (writeBlock first arms otherwise) = .ok p ∧
      p.nodes = [.conditional (compiled.map branchOf) (fallback.map nodes)] ∧
        ∀ context, p.render context =
          match compiled.find? fun branch ↦ (branch.1.eval context).truthy with
          | some branch => branch.2.render context
          | none => (fallback.map (·.render context)).getD "" := by
  cases harms with
  | @cons _ branch _ compiled hfirst harms =>
    obtain ⟨spans₁, hfragment₁, hnest₁, hcollects₁⟩ := hfirst.exists_if
    obtain ⟨spans₂, hfragment₂, hnest₂, hcollects₂⟩ := exists_arms harms
    obtain ⟨spans₃, hfragment₃, hnest₃, hclose⟩ := exists_end helse
    have hfragment := (hfragment₁.append hfragment₂).append hfragment₃
    rw [← String.toList_append, ← String.toList_append, ← String.append_assoc] at hfragment
    obtain ⟨notes, hsplits⟩ := hfragment.splits
    have hnest : nestAll? (spans₁ ++ spans₂ ++ spans₃) [] = some [] := by
      rw [nestAll?_append, nestAll?_append, hnest₁, Option.bind_some, hnest₂, Option.bind_some,
        hnest₃]
    have htree : (spans₁ ++ spans₂ ++ spans₃).foldl Tree.grow .empty =
        ⟨[.conditional ((branch :: compiled).map branchOf) (fallback.map nodes)], []⟩ := by
      rw [List.foldl_append, List.foldl_append, hclose _ _ (hcollects₂ _ _ hcollects₁)]
      rfl
    refine ⟨_, compile_eq_ok_iff.mpr ⟨_, _, hsplits, hnest, rfl⟩, ?_, fun context ↦ ?_⟩
    · rw [htree]
      rfl
    · rw [render, htree, List.reverse_singleton, Node.renderList_singleton]
      exact Node.render_conditional_map context _ fallback

/-- What the arms of a block show, one of them with a block of its own. -/
theorem render_of_nested_block :
    ∃ p compiled, ∃ fallback : Program,
      compile .standard ("\x7bif %x\x7da\x7belseif %y = 1\x7d\x7bif %z\x7db\x7b/if\x7d" ++
        "\x7belse\x7dc\x7b/if\x7d") = .ok p ∧
      List.Forall₂ Arm.Compiles [⟨"%x", "a"⟩, ⟨"%y = 1", "\x7bif %z\x7db\x7b/if\x7d"⟩] compiled ∧
        SelfContained "c" fallback ∧ ∀ context, p.render context =
          match compiled.find? fun branch ↦ (branch.1.eval context).truthy with
          | some branch => branch.2.render context
          | none => fallback.render context := by
  obtain ⟨e₁, haccepted₁⟩ := @Condition.exists_of_accepted Delimiters.standard.right.toList
    (.ofText ("%x" ++ "\x7d").toList) (by decide +kernel)
  obtain ⟨e₂, haccepted₂⟩ := @Condition.exists_of_accepted Delimiters.standard.right.toList
    (.ofText ("%y = 1" ++ "\x7d").toList) (by decide +kernel)
  have hcompiles : (compile .standard "a").toBool = true ∧
      (compile .standard "\x7bif %z\x7db\x7b/if\x7d").toBool = true ∧
        (compile .standard "c").toBool = true := by
    decide +kernel
  obtain ⟨p₁, hp₁⟩ := exists_of_toBool hcompiles.1
  obtain ⟨p₂, hp₂⟩ := exists_of_toBool hcompiles.2.1
  obtain ⟨q, hq⟩ := exists_of_toBool hcompiles.2.2
  have hguarded : Guarded "a".toList ∧ Guarded "\x7bif %z\x7db\x7b/if\x7d".toList ∧
      Guarded "c".toList := by
    simp [guarded_cons, guarded_nil]
  have harms : List.Forall₂ Arm.Compiles
      [⟨"%x", "a"⟩, ⟨"%y = 1", "\x7bif %z\x7db\x7b/if\x7d"⟩] [(e₁, p₁), (e₂, p₂)] :=
    .cons ⟨haccepted₁, hp₁, hguarded.1⟩ (.cons ⟨haccepted₂, hp₂, hguarded.2.1⟩ .nil)
  have helse : SelfContained "c" q := ⟨hq, hguarded.2.2⟩
  obtain ⟨p, hp, -, hrender⟩ := render_of_writeBlock harms (.some helse)
  exact ⟨p, _, q, hp, harms, helse, hrender⟩

end Program

end Stencil
