import Stencil.Render

/-!
# Chains without precedence

A chain is computed from left to right, whatever its operators are. An operand that a logical
operator does not look at is passed over by itself, and what follows it goes on as if it had been
computed, so that the value of a chain is a fold over its operators. A prefix of a chain can
therefore stand between parentheses, at any depth and as often as wanted, down to an expression
where every chain has one operator and nothing is left to precedence.

## Main definitions

* `Expr.Regroups`: an expression with parentheses around some prefixes of its chains.
* `Expr.leftNested`: an expression with all of these parentheses.
* `Expr.Paired`: expressions whose chains have at most one operator.

## Main results

* `Expr.evalRest_eq_foldl`: a chain is a fold of its operators over the values of its operands.
* `Expr.Regroups.eval_eq`: parentheses around prefixes do not change a value.
* `Expr.regroups_leftNested`, `Expr.paired_leftNested`: every expression can be parenthesised until
  its chains have at most one operator.
* `Expr.eval_chain_eq_foldl`: the value of a chain, and of a chain with parentheses.
-/

namespace Stencil.Expr

variable {context : Context} {e e' : Expr}

/-! ### The value of a chain -/

/-- What follows a value applies its operators one after the other. -/
theorem evalRest_eq_foldl (context : Context) (acc : Value) (rest : List (BinaryOp × Expr)) :
    evalRest context acc rest =
      rest.foldl (fun acc p ↦ Value.binary p.1 acc (p.2.eval context)) acc := by
  induction rest generalizing acc with
  | nil => rfl
  | cons p rest ih => rw [evalRest_cons, ih, List.foldl_cons]

theorem evalRest_append (context : Context) (acc : Value) (before after : List (BinaryOp × Expr)) :
    evalRest context acc (before ++ after) =
      evalRest context (evalRest context acc before) after := by
  simp only [evalRest_eq_foldl, List.foldl_append]

/-! ### Parentheses around prefixes -/

/-- An expression with parentheses around some prefixes of its chains, at any depth. -/
inductive Regroups : Expr → Expr → Prop
  | refl (e : Expr) : Regroups e e
  | trans {a b c : Expr} (h : Regroups a b) (h' : Regroups b c) : Regroups a c
  | call {f : Function} {a b : Expr} (h : Regroups a b) : Regroups (call f (some a)) (call f (some b))
  | unary {op : UnaryOp} {a b : Expr} (h : Regroups a b) : Regroups (unary op a) (unary op b)
  | group {a b : Expr} (h : Regroups a b) : Regroups (group a) (group b)
  | first {a b : Expr} {rest : List (BinaryOp × Expr)} (h : Regroups a b) :
      Regroups (chain a rest) (chain b rest)
  | operand {a b : Expr} (first : Expr) (op : BinaryOp) (before after : List (BinaryOp × Expr))
      (h : Regroups a b) :
      Regroups (chain first (before ++ (op, a) :: after)) (chain first (before ++ (op, b) :: after))
  | enclose (first : Expr) (before after : List (BinaryOp × Expr)) :
      Regroups (chain first (before ++ after)) (chain (group (chain first before)) after)

/-- Parentheses around prefixes do not change a value. -/
theorem Regroups.eval_eq (h : Regroups e e') : e'.eval context = e.eval context := by
  induction h with
  | refl => rfl
  | trans _ _ ih ih' => rw [ih', ih]
  | call _ ih => rw [eval, eval, ih]
  | unary _ ih => rw [eval, eval, ih]
  | group _ ih => rw [eval, eval, ih]
  | first _ ih => rw [eval, eval, ih]
  | operand first op before after _ ih =>
    rw [eval, eval, evalRest_append, evalRest_append, evalRest_cons, evalRest_cons, ih]
  | enclose first before after => rw [eval, eval, eval, eval, evalRest_append]

/-! ### All parentheses -/

mutual

/-- An expression with parentheses around every prefix of its chains that is a chain. -/
def leftNested : Expr → Expr
  | path p => path p
  | literal v => literal v
  | call f (some arg) => call f (some arg.leftNested)
  | call f none => call f none
  | unary op operand => unary op operand.leftNested
  | chain first rest => nestRest first.leftNested rest
  | group inner => group inner.leftNested

/-- A chain with parentheses around what comes before each operator after the first. -/
def nestRest (first : Expr) : List (BinaryOp × Expr) → Expr
  | [] => chain first []
  | (op, e) :: rest =>
    if rest.isEmpty then chain first [(op, e.leftNested)]
    else nestRest (group (chain first [(op, e.leftNested)])) rest

end

mutual

theorem regroups_leftNested : ∀ e : Expr, Regroups e e.leftNested
  | path _ | literal _ | call _ none => .refl _
  | call _ (some arg) => .call (regroups_leftNested arg)
  | unary _ operand => .unary (regroups_leftNested operand)
  | group inner => .group (regroups_leftNested inner)
  | chain first rest => (regroups_leftNested first).first.trans (regroups_nestRest _ rest)

theorem regroups_nestRest : ∀ (first : Expr) (rest : List (BinaryOp × Expr)),
    Regroups (chain first rest) (nestRest first rest)
  | first, [] => .refl _
  | first, (op, e) :: rest => by
    have hoperand : Regroups (chain first ((op, e) :: rest))
        (chain first ((op, e.leftNested) :: rest)) :=
      .operand first op [] rest (regroups_leftNested e)
    refine hoperand.trans ?_
    rw [nestRest]
    split
    · rename_i hnil
      rw [List.isEmpty_iff.mp hnil]
      exact .refl _
    · have henclose := Regroups.enclose first [(op, e.leftNested)] rest
      exact henclose.trans (regroups_nestRest _ rest)

end

/-- The expressions whose chains have at most one operator, at any depth. -/
inductive Paired : Expr → Prop
  | path (p : Path) : Paired (path p)
  | literal (v : Value) : Paired (literal v)
  | call {f : Function} {arg : Expr} (h : arg.Paired) : Paired (call f (some arg))
  | callEmpty (f : Function) : Paired (call f none)
  | unary {op : UnaryOp} {operand : Expr} (h : operand.Paired) : Paired (unary op operand)
  | group {inner : Expr} (h : inner.Paired) : Paired (group inner)
  | single {first : Expr} (h : first.Paired) : Paired (chain first [])
  | pair {first operand : Expr} {op : BinaryOp} (h : first.Paired) (h' : operand.Paired) :
      Paired (chain first [(op, operand)])

mutual

theorem paired_leftNested : ∀ e : Expr, e.leftNested.Paired
  | path _ => .path _
  | literal _ => .literal _
  | call _ none => .callEmpty _
  | call _ (some arg) => .call (paired_leftNested arg)
  | unary _ operand => .unary (paired_leftNested operand)
  | group inner => .group (paired_leftNested inner)
  | chain first rest => paired_nestRest rest (paired_leftNested first)

theorem paired_nestRest {first : Expr} : ∀ rest : List (BinaryOp × Expr), first.Paired →
    (nestRest first rest).Paired
  | [], h => .single h
  | (op, e) :: rest, h => by
    rw [nestRest]
    split
    · exact .pair h (paired_leftNested e)
    · exact paired_nestRest rest (.group (.pair h (paired_leftNested e)))

end

/-- A chain is the fold of its operators over the values of its operands. Parentheses around a prefix
of it do not change its value, nor do further ones around prefixes of the chains in it, and with all
of them no chain has more than one operator. -/
theorem eval_chain_eq_foldl (context : Context) (first : Expr) (rest : List (BinaryOp × Expr)) :
    (chain first rest).eval context =
        rest.foldl (fun acc p ↦ Value.binary p.1 acc (p.2.eval context)) (first.eval context) ∧
      (∀ before after, rest = before ++ after →
        (chain (group (chain first before)) after).eval context =
          (chain first rest).eval context) ∧
      (∀ e, Regroups (chain first rest) e → e.eval context = (chain first rest).eval context) ∧
      Regroups (chain first rest) (chain first rest).leftNested ∧
      (chain first rest).leftNested.Paired := by
  refine ⟨by rw [eval, evalRest_eq_foldl], ?_, fun e h ↦ h.eval_eq,
    regroups_leftNested _, paired_leftNested _⟩
  rintro before after rfl
  exact (Regroups.enclose first before after).eval_eq

/-- A conjunction whose second operand is not looked at, in front of a disjunction and a sum: with
parentheses around the conjunction, and with all of them, the value is that of the chain. -/
theorem eval_chain_eq_foldl_conjunction :
    let x := path ⟨"x", []⟩
    let rest := [(.and, x), (.or, literal (.int 2)), (.add, literal (.int 3))]
    let nested := chain (group (chain (group (chain (literal (.bool false)) [(.and, x)]))
      [(.or, literal (.int 2))])) [(.add, literal (.int 3))]
    (chain (group (chain (literal (.bool false)) [(.and, x)])) rest.tail).eval .empty = .int 4 ∧
      Regroups (chain (literal (.bool false)) rest) nested ∧ nested.eval .empty = .int 4 := by
  intro x rest nested
  obtain ⟨-, henclosed, hregroups, hnested, -⟩ :=
    eval_chain_eq_foldl .empty (literal (.bool false)) rest
  exact ⟨henclosed [(.and, x)] rest.tail rfl, hnested, hregroups _ hnested⟩

end Stencil.Expr
