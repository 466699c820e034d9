import Mathlib.Data.List.Forall2
import Stencil.Proofs.Spellings
import Stencil.Proofs.Variables

/-!
# Positions and the keys that spell them

A position in a list is also found under the key that is its decimal text, and in a map a position
finds what stands under that text. So the two ways to write an index mean the same, for every value
and every integer: a negative one finds nothing in a list, since its text starts with a minus. A path
may have either of them at each of its steps, and a program may have either path in each place.

## Main definitions

* `Path.Respelled`: a path with the texts of some positions as keys in their place.
* `Expr.Alike`, `Node.Alike`, `Program.Alike`: what differs in its paths only.

## Main results

* `Numeral.index?_decimal`: the position that the decimal text of an integer spells.
* `Value.atIndex?_eq_atKey?`: a position and its text find the same.
* `Path.Respelled.resolve?_eq`: a path finds the same with its positions spelled as keys.
* `Program.Alike.render_eq`: a program shows the same if its paths have the same values.
* `Program.render_of_respelled`: the three levels taken together.
-/

namespace Stencil

/-! ### One index -/

namespace Numeral

/-- Digits alone spell the position that is their number. -/
theorem index?_digits {n : Nat} (h : n < 0x10000000000000000) : index? (digits 10 n) = some n := by
  unfold index?
  split
  · rename_i rest hplus
    have hdigit : '+'.isDigit = true := by
      refine isDigit_of_mem_digits (n := n) ?_
      rw [hplus]
      exact List.mem_cons_self
    nomatch hdigit
  · simp only [natural?_digits, Option.bind_eq_bind, Option.bind_some, if_pos h]

/-- A minus spells no position. -/
theorem index?_minus (cs : List Char) : index? ('-' :: cs) = none := by
  simp [index?, natural?]

/-- The position that the decimal text of an integer spells is the integer, unless it is
negative. -/
theorem index?_decimal (n : Int64) :
    index? (decimal n.toInt) = if 0 ≤ n.toInt then some n.toInt.toNat else none := by
  have hlt := n.toInt_lt
  cases hn : n.toInt with
  | ofNat k =>
    rw [hn, Int.ofNat_eq_natCast] at hlt
    exact index?_digits (by omega)
  | negSucc k => exact index?_minus _

end Numeral

/-- What stands at a position stands under the decimal text of the position. -/
theorem Value.atIndex?_eq_atKey? (v : Value) (n : Int64) :
    v.atIndex? n = v.atKey? (intText n) := by
  cases v with
  | list items =>
    rw [atIndex?, atKey?, toList_intText, Numeral.index?_decimal]
    split <;> rfl
  | _ => rfl

/-! ### Paths -/

namespace Path

/-- A step, or a key in place of the position that it spells. -/
inductive Step.Respelled : Step → Step → Prop
  | refl (s : Step) : Respelled s s
  | field (n : Int64) : Respelled (.position n) (.field (Value.intText n))
  | entry (n : Int64) : Respelled (.position n) (.entry (Value.intText n))

/-- A path with keys in place of some of the positions among its steps. -/
structure Respelled (p q : Path) : Prop where
  base_eq : q.base = p.base
  steps : List.Forall₂ Step.Respelled p.steps q.steps

variable {p q : Path} {s t : Step}

theorem Step.Respelled.follow?_eq (h : s.Respelled t) (v : Value) : v.follow? t = v.follow? s := by
  cases h with
  | refl => rfl
  | field n => exact (v.atIndex?_eq_atKey? n).symm
  | entry n => exact (v.atIndex?_eq_atKey? n).symm

theorem followAll?_eq {steps steps' : List Step} (h : List.Forall₂ Step.Respelled steps steps')
    (v : Value) : v.followAll? steps' = v.followAll? steps := by
  induction h generalizing v with
  | nil => rfl
  | cons hstep _ ih =>
    rw [Value.followAll?, Value.followAll?, hstep.follow?_eq]
    exact Option.bind_congr fun w _ ↦ ih w

/-- A path finds the same with its positions spelled as keys. -/
theorem Respelled.resolve?_eq (h : p.Respelled q) (context : Context) :
    q.resolve? context = p.resolve? context := by
  rw [resolve?, resolve?, h.base_eq]
  exact Option.bind_congr fun v _ ↦ followAll?_eq h.steps v

end Path

/-! ### Programs that differ in their paths -/

variable {R : Path → Path → Prop} {context : Context}

namespace Expr

section

variable (R : Path → Path → Prop)

mutual

/-- Expressions that differ in their paths only, which are related. -/
inductive Alike : Expr → Expr → Prop
  | path {p q : Path} (h : R p q) : Alike (path p) (path q)
  | literal (v : Value) : Alike (literal v) (literal v)
  | callEmpty (f : Function) : Alike (call f none) (call f none)
  | call {f : Function} {a b : Expr} (h : Alike a b) : Alike (call f (some a)) (call f (some b))
  | unary {op : UnaryOp} {a b : Expr} (h : Alike a b) : Alike (unary op a) (unary op b)
  | group {a b : Expr} (h : Alike a b) : Alike (group a) (group b)
  | chain {a b : Expr} {rest rest' : List (BinaryOp × Expr)} (h : Alike a b)
      (hrest : AlikeRest rest rest') : Alike (chain a rest) (chain b rest')

/-- Operators and operands that differ in their paths only. -/
inductive AlikeRest : List (BinaryOp × Expr) → List (BinaryOp × Expr) → Prop
  | nil : AlikeRest [] []
  | cons {op : BinaryOp} {a b : Expr} {rest rest' : List (BinaryOp × Expr)} (h : Alike a b)
      (hrest : AlikeRest rest rest') : AlikeRest ((op, a) :: rest) ((op, b) :: rest')

end

end

mutual

/-- An expression computes the same if its paths have the same values. -/
theorem Alike.eval_eq (hR : ∀ p q, R p q → q.valueIn context = p.valueIn context) {e e' : Expr} :
    Alike R e e' → e'.eval context = e.eval context
  | .path h => hR _ _ h
  | .literal _ => rfl
  | .callEmpty _ => rfl
  | .call h => by rw [eval, eval, h.eval_eq hR]
  | .unary h => by rw [eval, eval, h.eval_eq hR]
  | .group h => by rw [eval, eval, h.eval_eq hR]
  | .chain h hrest => by rw [eval, eval, h.eval_eq hR, hrest.evalRest_eq hR]

theorem AlikeRest.evalRest_eq (hR : ∀ p q, R p q → q.valueIn context = p.valueIn context)
    {rest rest' : List (BinaryOp × Expr)} : AlikeRest R rest rest' → ∀ acc : Value,
      evalRest context acc rest' = evalRest context acc rest
  | .nil, _ => rfl
  | .cons h hrest, acc => by
    rw [evalRest_cons, evalRest_cons, h.eval_eq hR, hrest.evalRest_eq hR]

end

end Expr

namespace Node

section

variable (R : Path → Path → Prop)

mutual

/-- Nodes that differ in their paths only, which are related. -/
inductive Alike : Node → Node → Prop
  | text (s : String) : Alike (text s) (text s)
  | variable {p q : Path} (h : R p q) : Alike (.variable p) (.variable q)
  | conditional {branches branches' : List (Expr × List Node)}
      {otherwise otherwise' : Option (List Node)} (h : AlikeBranches branches branches')
      (helse : AlikeElse otherwise otherwise') :
      Alike (conditional branches otherwise) (conditional branches' otherwise')

/-- Sequences of nodes that differ in their paths only. -/
inductive AlikeList : List Node → List Node → Prop
  | nil : AlikeList [] []
  | cons {a b : Node} {nodes nodes' : List Node} (h : Alike a b) (hnodes : AlikeList nodes nodes') :
      AlikeList (a :: nodes) (b :: nodes')

/-- Branches that differ in their paths only. -/
inductive AlikeBranches : List (Expr × List Node) → List (Expr × List Node) → Prop
  | nil : AlikeBranches [] []
  | cons {test test' : Expr} {body body' : List Node} {branches branches' : List (Expr × List Node)}
      (h : test.Alike R test') (hbody : AlikeList body body')
      (hbranches : AlikeBranches branches branches') :
      AlikeBranches ((test, body) :: branches) ((test', body') :: branches')

/-- Else parts that differ in their paths only. -/
inductive AlikeElse : Option (List Node) → Option (List Node) → Prop
  | none : AlikeElse none none
  | some {body body' : List Node} (h : AlikeList body body') : AlikeElse (some body) (some body')

end

end

mutual

theorem Alike.render_eq (hR : ∀ p q, R p q → q.valueIn context = p.valueIn context)
    {node node' : Node} : Alike R node node' → node'.render context = node.render context
  | .text _ => rfl
  | .variable (p := p) (q := q) h => by
    have hp : (q.resolve? context).getD .null = (p.resolve? context).getD .null := hR p q h
    rw [render, render, showValue_getD, hp, ← showValue_getD]
  | .conditional h helse => by
    rw [render, render, h.renderBranches_eq hR, helse.renderElse_eq hR]

/-- Nodes show the same if their paths have the same values. -/
theorem AlikeList.renderList_eq (hR : ∀ p q, R p q → q.valueIn context = p.valueIn context)
    {nodes nodes' : List Node} :
    AlikeList R nodes nodes' → renderList context nodes' = renderList context nodes
  | .nil => rfl
  | .cons h hnodes => by rw [renderList, renderList, h.render_eq hR, hnodes.renderList_eq hR]

theorem AlikeBranches.renderBranches_eq
    (hR : ∀ p q, R p q → q.valueIn context = p.valueIn context)
    {branches branches' : List (Expr × List Node)} : AlikeBranches R branches branches' →
      renderBranches context branches' = renderBranches context branches
  | .nil => rfl
  | .cons h hbody hbranches => by
    rw [renderBranches, renderBranches, h.eval_eq hR, hbody.renderList_eq hR,
      hbranches.renderBranches_eq hR]

theorem AlikeElse.renderElse_eq (hR : ∀ p q, R p q → q.valueIn context = p.valueIn context)
    {otherwise otherwise' : Option (List Node)} : AlikeElse R otherwise otherwise' →
      renderElse context otherwise' = renderElse context otherwise
  | .none => rfl
  | .some h => h.renderList_eq hR

end

end Node

namespace Program

/-- Programs that differ in their paths only, which are related. -/
def Alike (R : Path → Path → Prop) (p q : Program) : Prop :=
  Node.AlikeList R p.nodes q.nodes

/-- A program shows the same if its paths have the same values. -/
theorem Alike.render_eq {p q : Program} (h : p.Alike R q)
    (hR : ∀ p q, R p q → q.valueIn context = p.valueIn context) :
    q.render context = p.render context :=
  Node.AlikeList.renderList_eq hR h

/-- A position and its decimal text find the same in every value. So paths find the same in every
context, and programs show the same, whichever of the two stands at each step of each path. -/
theorem render_of_respelled :
    (∀ (v : Value) (n : Int64), v.atIndex? n = v.atKey? (Value.intText n)) ∧
    (∀ (context : Context) (p q : Path), p.Respelled q →
      q.resolve? context = p.resolve? context) ∧
    ∀ (context : Context) (p q : Program), p.Alike Path.Respelled q →
      q.render context = p.render context := by
  refine ⟨Value.atIndex?_eq_atKey?, fun context p q h ↦ h.resolve?_eq context,
    fun context p q h ↦ h.render_eq fun p q h ↦ ?_⟩
  rw [Path.valueIn, Path.valueIn, h.resolve?_eq]

/-- A position in a list and a negative one in a map, tested and shown, and the keys that spell
them. -/
theorem render_of_respelled_nested :
    ∃ (context : Context) (p q : Program),
      context = Context.empty.insert "x" (.list [.text "y", .map [("-3", .int 7)]]) ∧
      p.nodes = [.conditional [(.group (.path ⟨"x", [.position 1, .position (-3)]⟩),
        [.variable ⟨"x", [.position 0]⟩])] none] ∧
      q.nodes = [.conditional [(.group (.path ⟨"x", [.entry "1", .field "-3"]⟩),
        [.variable ⟨"x", [.field "0"]⟩])] none] ∧
      Path.Respelled ⟨"x", [.position 1, .position (-3)]⟩ ⟨"x", [.entry "1", .field "-3"]⟩ ∧
      Path.resolve? ⟨"x", [.entry "1", .field "-3"]⟩ context =
        Path.resolve? ⟨"x", [.position 1, .position (-3)]⟩ context ∧
      p.Alike Path.Respelled q ∧ q.render context = p.render context ∧
      p.render context = "y" := by
  let context := Context.empty.insert "x" (.list [.text "y", .map [("-3", .int 7)]])
  let p : Program := ⟨currentVersion, [.conditional
    [(.group (.path ⟨"x", [.position 1, .position (-3)]⟩), [.variable ⟨"x", [.position 0]⟩])] none],
    []⟩
  let q : Program := ⟨currentVersion, [.conditional
    [(.group (.path ⟨"x", [.entry "1", .field "-3"]⟩), [.variable ⟨"x", [.field "0"]⟩])] none], []⟩
  have hzero : Value.intText 0 = "0" := by decide +kernel
  have hone : Value.intText 1 = "1" := by decide +kernel
  have hminus : Value.intText (-3) = "-3" := by decide +kernel
  have htest : Path.Respelled ⟨"x", [.position 1, .position (-3)]⟩
      ⟨"x", [.entry "1", .field "-3"]⟩ :=
    ⟨rfl, .cons (hone ▸ .entry 1) (.cons (hminus ▸ .field (-3)) .nil)⟩
  have hshown : Path.Respelled ⟨"x", [.position 0]⟩ ⟨"x", [.field "0"]⟩ :=
    ⟨rfl, .cons (hzero ▸ .field 0) .nil⟩
  have halike : p.Alike Path.Respelled q :=
    .cons (.conditional (.cons (.group (.path htest)) (.cons (.variable hshown) .nil) .nil) .none)
      .nil
  obtain ⟨-, hresolve, hrender⟩ := render_of_respelled
  exact ⟨context, p, q, rfl, rfl, rfl, htest, hresolve context _ _ htest, halike,
    hrender context p q halike, by decide +kernel⟩

end Program

end Stencil
