import Mathlib.Data.Option.Basic
import Stencil.Proofs.Numerals
import Stencil.Render

/-!
# Integers and their texts

A variable may hold an integer or the decimal text of it: no template without a strict comparison
notices. What conditions look at in a value (its number, its truth, its text, its parts) is the same
for both, so that two runs of a template stay side by side, their values being equal or an integer
in one and its text in the other.

## Main definitions

* `Value.PassesFor`: a value, or a text in place of the integer that it spells.
* `Expr.operators`, `Node.operators`, `Program.operators`: all operators between two operands.

## Main results

* `Value.PassesFor.binary`: operators that are not strict do not tell such values apart.
* `Expr.passesFor_eval`: expressions compute such values from such values.
* `Program.render_insert_intText`: a template shows the same for an integer and for its text.
-/

namespace Stencil

/-! ### What values show of themselves -/

namespace Value

/-- A value, or a text in place of the integer that it spells. -/
inductive PassesFor : Value → Value → Prop
  | refl (v : Value) : PassesFor v v
  | text (n : Int64) : PassesFor (.int n) (.text (intText n))

theorem toList_intText (n : Int64) : (intText n).toList = Numeral.decimal n.toInt :=
  String.toList_ofList

theorem ofText?_intText (n : Int64) : Number.ofText? (intText n) = some (.int n) := by
  unfold Number.ofText?
  rw [toList_intText, Text.trim_of_forall fun c ↦ Numeral.isBlank_of_mem_decimal]
  simp only [Numeral.integer?_decimal]

theorem intText_ne_empty (n : Int64) : intText n ≠ "" := by
  rw [Ne, ← String.toList_eq_nil_iff, toList_intText]
  exact Numeral.decimal_ne_nil _

theorem intText_eq_zero_iff (n : Int64) : intText n = "0" ↔ n = 0 := by
  rw [← String.toList_inj, toList_intText, show "0".toList = ['0'] from rfl,
    Numeral.decimal_eq_zero_iff, ← Int64.toInt_zero, Int64.toInt_inj]

namespace PassesFor

variable {a a' b b' v w : Value}

theorem truthy_eq (h : PassesFor v w) : w.truthy = v.truthy := by
  cases h with
  | refl => rfl
  | text n =>
    have hzero : (intText n == "0") = (n == 0) := by
      rw [Bool.eq_iff_iff, beq_iff_eq, beq_iff_eq, intText_eq_zero_iff]
    rw [truthy, truthy, isEmpty, isEmpty, hzero, beq_eq_false_iff_ne.mpr (intText_ne_empty n),
      Bool.false_or]

theorem display_eq (h : PassesFor v w) : w.display = v.display := by
  cases h <;> rfl

theorem number?_eq (h : PassesFor v w) : w.number? = v.number? := by
  cases h with
  | refl => rfl
  | text n => exact ofText?_intText n

theorem isNumeric_eq (h : PassesFor v w) : w.isNumeric = v.isNumeric := by
  cases h with
  | refl => rfl
  | text n =>
    have htext : (Value.text (intText n)).isNumeric = (Number.ofText? (intText n)).isSome := rfl
    rw [htext, ofText?_intText]
    rfl

theorem isTruth_eq (h : PassesFor v w) : w.isTruth = v.isTruth := by
  cases h <;> rfl

theorem isCollection_eq (h : PassesFor v w) : w.isCollection = v.isCollection := by
  cases h <;> rfl

theorem int?_eq (h : PassesFor v w) : w.int? = v.int? := by
  rw [int?, int?, h.number?_eq]

theorem size_eq (h : PassesFor v w) : w.size = v.size := by
  cases h <;> rfl

/-- Neither an integer nor a text has parts. -/
theorem follow?_eq (h : PassesFor v w) (s : Path.Step) : w.follow? s = v.follow? s := by
  cases h with
  | refl => rfl
  | text n => cases s <;> rfl

/-- A list or a map is equal to neither an integer nor its text. -/
theorem same_eq (ha : PassesFor a a') (hb : PassesFor b b')
    (h : a.isCollection = true ∨ b.isCollection = true) : a'.same b' = a.same b := by
  cases ha with
  | refl =>
    cases hb with
    | refl => rfl
    | text n => cases a <;> first | rfl | simp [isCollection] at h
  | text m =>
    cases hb with
    | refl => cases b <;> first | rfl | simp [isCollection] at h
    | text n => simp [isCollection] at h

theorem compare?_eq (ha : PassesFor a a') (hb : PassesFor b b') :
    a'.compare? b' = a.compare? b := by
  simp only [compare?, ha.isNumeric_eq, hb.isNumeric_eq, ha.number?_eq, hb.number?_eq,
    ha.isTruth_eq, hb.isTruth_eq, ha.truthy_eq, hb.truthy_eq, ha.display_eq, hb.display_eq]

theorem looseEq_eq (ha : PassesFor a a') (hb : PassesFor b b') :
    a'.looseEq b' = a.looseEq b := by
  simp only [looseEq, ha.isTruth_eq, hb.isTruth_eq, ha.truthy_eq, hb.truthy_eq,
    ha.isCollection_eq, hb.isCollection_eq, ha.isNumeric_eq, hb.isNumeric_eq,
    ha.compare?_eq hb, ha.display_eq, hb.display_eq]
  split
  · rfl
  split
  · rename_i h
    exact ha.same_eq hb (by simpa using h)
  · rfl

theorem onNumbers_eq (op : BinaryOp) (ha : PassesFor a a') (hb : PassesFor b b') :
    onNumbers op a' b' = onNumbers op a b := by
  rw [onNumbers, onNumbers, ha.number?_eq, hb.number?_eq]

theorem onInts_eq (op : BinaryOp) (ha : PassesFor a a') (hb : PassesFor b b') :
    onInts op a' b' = onInts op a b := by
  rw [onInts, onInts, ha.int?_eq, hb.int?_eq]

/-- Operators that are not strict do not tell such values apart. -/
theorem binary {op : BinaryOp} (hop : op ≠ .strictEq ∧ op ≠ .strictNe) (ha : PassesFor a a')
    (hb : PassesFor b b') : PassesFor (Value.binary op a b) (Value.binary op a' b') := by
  have heq (h : Value.binary op a' b' = Value.binary op a b) :
      PassesFor (Value.binary op a b) (Value.binary op a' b') :=
    h ▸ .refl _
  cases op with
  | strictEq => exact absurd rfl hop.1
  | strictNe => exact absurd rfl hop.2
  | comma => exact hb
  | eq | ne => exact heq (by simp only [Value.binary, ha.looseEq_eq hb])
  | lt | gt | le | ge => exact heq (by simp only [Value.binary, ha.compare?_eq hb])
  | add | sub | mul | div | mod => exact heq (ha.onNumbers_eq _ hb)
  | bitAnd | bitOr | bitXor | shiftLeft | shiftRight => exact heq (ha.onInts_eq _ hb)
  | and | or => exact heq (by simp only [Value.binary, ha.truthy_eq, hb.truthy_eq])

theorem unary (op : UnaryOp) (h : PassesFor v w) :
    PassesFor (Value.unary op v) (Value.unary op w) := by
  cases op with
  | silence => exact h
  | not => rw [Value.unary, Value.unary, h.truthy_eq]; exact .refl _
  | bitNot => rw [Value.unary, Value.unary, h.int?_eq]; exact .refl _

theorem call_eq (f : Function) (h : PassesFor v w) : Value.call f w = Value.call f v := by
  cases f with
  | length => rw [Value.call, Value.call, h.size_eq]
  | uppercase => rw [Value.call, Value.call, h.display_eq]
  | lowercase => rw [Value.call, Value.call, h.display_eq]

end PassesFor

end Value

/-! ### Paths -/

/-- Two contexts with the same names, the values of the second one passing for those of the
first. -/
def Context.PassesFor (c c' : Context) : Prop :=
  ∀ name, Option.Rel Value.PassesFor (c.get? name) (c'.get? name)

theorem Context.passesFor_insert {context : Context} {x : String} {n : Int64}
    (hx : context.get? x = some (.int n)) :
    context.PassesFor (context.insert x (.text (Value.intText n))) := by
  intro name
  rw [insert, get?, get?, Entries.get?_put]
  by_cases h : name = x
  · rw [if_pos h, h, ← get?, hx]
    exact .some (.text n)
  · rw [if_neg h]
    cases Entries.get? context.vars name with
    | none => exact .none
    | some v => exact .some (.refl v)

theorem Value.PassesFor.followAll? {v w : Value} (h : v.PassesFor w) (steps : List Path.Step) :
    Option.Rel Value.PassesFor (v.followAll? steps) (w.followAll? steps) := by
  cases steps with
  | nil => exact .some h
  | cons s steps =>
    rw [Value.followAll?, Value.followAll?, h.follow?_eq]
    cases (v.follow? s).bind (·.followAll? steps) with
    | none => exact .none
    | some u => exact .some (.refl u)

variable {c c' : Context}

theorem Path.passesFor_resolve? (h : c.PassesFor c') (p : Path) :
    Option.Rel Value.PassesFor (p.resolve? c) (p.resolve? c') := by
  have hbase := h p.base
  rw [Path.resolve?, Path.resolve?]
  cases hv : c.get? p.base <;> cases hw : c'.get? p.base <;> rw [hv, hw] at hbase <;> cases hbase
  · exact .none
  · rename_i hvalue
    exact hvalue.followAll? _

/-! ### Expressions -/

namespace Expr

mutual

/-- The operators between two operands in an expression, at any depth. -/
def operators : Expr → List BinaryOp
  | path _ | literal _ | call _ none => []
  | call _ (some arg) => arg.operators
  | unary _ operand => operand.operators
  | chain first rest => first.operators ++ operatorsRest rest
  | group inner => inner.operators

/-- The operators between and in the operands after the first. -/
def operatorsRest : List (BinaryOp × Expr) → List BinaryOp
  | [] => []
  | (op, e) :: rest => op :: (e.operators ++ operatorsRest rest)

end

mutual

/-- Expressions without a strict comparison compute from values that pass for others values that
pass for others. -/
theorem passesFor_eval (h : c.PassesFor c') : ∀ e : Expr,
    (∀ op ∈ e.operators, op ≠ .strictEq ∧ op ≠ .strictNe) → (e.eval c).PassesFor (e.eval c')
  | path p, _ => by
    have hp := Path.passesFor_resolve? h p
    rw [eval, eval]
    cases hv : p.resolve? c <;> cases hw : p.resolve? c' <;> rw [hv, hw] at hp <;> cases hp
    · exact .refl _
    · assumption
  | literal v, _ => .refl v
  | call f none, _ => .refl _
  | call f (some arg), hops => by
    rw [eval, eval, (passesFor_eval h arg hops).call_eq]
    exact .refl _
  | unary op operand, hops => (passesFor_eval h operand hops).unary op
  | group inner, hops => passesFor_eval h inner hops
  | chain first rest, hops => by
    rw [operators, List.forall_mem_append] at hops
    exact passesFor_evalRest h rest hops.2 (passesFor_eval h first hops.1)

theorem passesFor_evalRest (h : c.PassesFor c') : ∀ rest : List (BinaryOp × Expr),
    (∀ op ∈ operatorsRest rest, op ≠ .strictEq ∧ op ≠ .strictNe) → ∀ {acc acc' : Value},
      acc.PassesFor acc' → (evalRest c acc rest).PassesFor (evalRest c' acc' rest)
  | [], _, _, _, hacc => hacc
  | (op, e) :: rest, hops, acc, acc', hacc => by
    rw [operatorsRest, List.forall_mem_cons, List.forall_mem_append] at hops
    obtain ⟨hop, hoperand, hrest⟩ := hops
    rw [evalRest_cons, evalRest_cons]
    exact passesFor_evalRest h rest hrest (hacc.binary hop (passesFor_eval h e hoperand))

end

end Expr

/-! ### Nodes -/

namespace Node

mutual

/-- The operators between two operands in the tests of a node, at any depth. -/
def operators : Node → List BinaryOp
  | text _ | .variable _ => []
  | conditional branches otherwise => operatorsBranches branches ++ operatorsElse otherwise

/-- The operators in a sequence of nodes. -/
def operatorsList : List Node → List BinaryOp
  | [] => []
  | node :: nodes => node.operators ++ operatorsList nodes

/-- The operators in the tests and the bodies of branches. -/
def operatorsBranches : List (Expr × List Node) → List BinaryOp
  | [] => []
  | (test, body) :: branches => test.operators ++ (operatorsList body ++ operatorsBranches branches)

/-- The operators in an else part, if there is one. -/
def operatorsElse : Option (List Node) → List BinaryOp
  | some body => operatorsList body
  | none => []

end

theorem showValue_eq {v w : Option Value} (h : Option.Rel Value.PassesFor v w) :
    showValue w = showValue v := by
  cases h with
  | none => rfl
  | some h => rw [showValue, showValue, h.truthy_eq, h.display_eq]

mutual

theorem render_eq (h : c.PassesFor c') : ∀ node : Node,
    (∀ op ∈ node.operators, op ≠ .strictEq ∧ op ≠ .strictNe) → node.render c' = node.render c
  | text _, _ => rfl
  | .variable p, _ => showValue_eq (Path.passesFor_resolve? h p)
  | conditional branches otherwise, hops => by
    rw [operators, List.forall_mem_append] at hops
    rw [render, render, renderBranches_eq h branches hops.1, renderElse_eq h otherwise hops.2]

theorem renderList_eq (h : c.PassesFor c') : ∀ nodes : List Node,
    (∀ op ∈ operatorsList nodes, op ≠ .strictEq ∧ op ≠ .strictNe) →
      renderList c' nodes = renderList c nodes
  | [], _ => rfl
  | node :: nodes, hops => by
    rw [operatorsList, List.forall_mem_append] at hops
    rw [renderList, renderList, render_eq h node hops.1, renderList_eq h nodes hops.2]

theorem renderBranches_eq (h : c.PassesFor c') : ∀ branches : List (Expr × List Node),
    (∀ op ∈ operatorsBranches branches, op ≠ .strictEq ∧ op ≠ .strictNe) →
      renderBranches c' branches = renderBranches c branches
  | [], _ => rfl
  | (test, body) :: branches, hops => by
    rw [operatorsBranches, List.forall_mem_append, List.forall_mem_append] at hops
    rw [renderBranches, renderBranches, (test.passesFor_eval h hops.1).truthy_eq,
      renderList_eq h body hops.2.1, renderBranches_eq h branches hops.2.2]

theorem renderElse_eq (h : c.PassesFor c') : ∀ otherwise : Option (List Node),
    (∀ op ∈ operatorsElse otherwise, op ≠ .strictEq ∧ op ≠ .strictNe) →
      renderElse c' otherwise = renderElse c otherwise
  | none, _ => rfl
  | some body, hops => renderList_eq h body hops

end

end Node

/-- The operators between two operands in the conditions of a program. -/
def Program.operators (p : Program) : List BinaryOp :=
  Node.operatorsList p.nodes

/-- Where a variable holds an integer it may hold the decimal text of it as well: a program without
strict comparisons shows the same. -/
theorem Program.render_insert_intText {p : Program}
    (hops : ∀ op ∈ p.operators, op ≠ .strictEq ∧ op ≠ .strictNe) {context : Context} {x : String}
    {n : Int64} (hx : context.get? x = some (.int n)) :
    p.render (context.insert x (.text (Value.intText n))) = p.render context :=
  Node.renderList_eq (Context.passesFor_insert hx) p.nodes hops

/-- A variable in a sum, in a comparison and shown. -/
theorem Program.render_insert_intText_sum :
    ∃ p : Program,
      p.nodes = [.conditional [(.chain (.path ⟨"x", []⟩) [(.add, .literal (.int 1)),
        (.eq, .literal (.int 6))], [.variable ⟨"x", []⟩])] none] ∧
      (∀ op ∈ p.operators, op ≠ .strictEq ∧ op ≠ .strictNe) ∧
      (Context.empty.insert "x" (.int 5)).get? "x" = some (.int 5) ∧
      p.render ((Context.empty.insert "x" (.int 5)).insert "x" (.text (Value.intText 5))) =
        p.render (Context.empty.insert "x" (.int 5)) ∧
      p.render (Context.empty.insert "x" (.int 5)) = "5" := by
  let p : Program := ⟨Program.currentVersion, [.conditional [(.chain (.path ⟨"x", []⟩)
    [(.add, .literal (.int 1)), (.eq, .literal (.int 6))], [.variable ⟨"x", []⟩])] none], []⟩
  have hops : ∀ op ∈ p.operators, op ≠ .strictEq ∧ op ≠ .strictNe := by decide
  have hx : (Context.empty.insert "x" (.int 5)).get? "x" = some (.int 5) := by
    rw [Context.insert, Context.get?, Entries.get?_put, if_pos rfl]
  exact ⟨p, rfl, hops, hx, p.render_insert_intText hops hx, by decide +kernel⟩

/-- A strict comparison tells an integer from its text. -/
example : Value.PassesFor (.int 5) (.text (Value.intText 5)) ∧
    (Value.binary .strictEq (.int 5) (.int 5)).truthy = true ∧
      (Value.binary .strictEq (.text (Value.intText 5)) (.int 5)).truthy = false :=
  ⟨.text 5, by decide, by decide⟩

end Stencil
