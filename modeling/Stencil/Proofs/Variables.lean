import Stencil.Render

/-!
# The variables of a program

A program looks at a context only through its paths. A path that starts at an unbound name finds
nothing, and one that starts at the null value finds the null value or nothing; neither is shown,
and in a condition both are the null value. So it is enough to know the values of the names that the
paths of a program start at, and an unbound name is the same as one bound to the null value.

## Main definitions

* `Path.valueIn`: the value of a path, null when it finds nothing.
* `Expr.paths`, `Node.paths`, `Program.paths`: all paths, at any depth.
* `Program.variables`: the names that the paths start at.
* `Context.Vacant`, `Context.AgreesOn`: a name without a value, and a name with one meaning in two
  contexts.

## Main results

* `Path.valueIn_eq_null`: a path into a vacant name has the null value, whatever its steps.
* `Expr.eval_congr`, `Node.renderList_congr`: what is computed depends on the values of paths alone.
* `Program.render_eq_of_agreesOn`: what a program shows depends on its variables alone.
-/

namespace Stencil

/-- The value of a path, null when it finds nothing. -/
def Path.valueIn (p : Path) (context : Context) : Value :=
  (p.resolve? context).getD .null

/-! ### All paths -/

namespace Expr

mutual

/-- The paths in an expression, at any depth. -/
def paths : Expr → List Path
  | path p => [p]
  | literal _ | call _ none => []
  | call _ (some arg) => arg.paths
  | unary _ operand => operand.paths
  | chain first rest => first.paths ++ pathsRest rest
  | group inner => inner.paths

/-- The paths in the operands after the first. -/
def pathsRest : List (BinaryOp × Expr) → List Path
  | [] => []
  | (_, e) :: rest => e.paths ++ pathsRest rest

end

end Expr

namespace Node

mutual

/-- The paths that a node shows or tests, at any depth. -/
def paths : Node → List Path
  | text _ => []
  | .variable p => [p]
  | conditional branches otherwise => pathsBranches branches ++ pathsElse otherwise

/-- The paths in a sequence of nodes. -/
def pathsList : List Node → List Path
  | [] => []
  | node :: nodes => node.paths ++ pathsList nodes

/-- The paths in the tests and the bodies of branches. -/
def pathsBranches : List (Expr × List Node) → List Path
  | [] => []
  | (test, body) :: branches => test.paths ++ (pathsList body ++ pathsBranches branches)

/-- The paths in an else part, if there is one. -/
def pathsElse : Option (List Node) → List Path
  | some body => pathsList body
  | none => []

end

end Node

/-- The paths of a program, in its tests and in what it shows. -/
def Program.paths (p : Program) : List Path :=
  Node.pathsList p.nodes

/-- The names that the paths of a program start at. -/
def Program.variables (p : Program) : List String :=
  p.paths.map Path.base

/-! ### What a program computes from the values of its paths -/

variable {c c' : Context}

/-- The null value has no parts. -/
theorem Value.follow?_null (s : Path.Step) : Value.null.follow? s = none := by
  cases s <;> rfl

/-- Nothing is shown like the null value. -/
theorem Node.showValue_getD (v : Option Value) :
    showValue v = showValue (some (v.getD .null)) := by
  cases v <;> rfl

namespace Expr

mutual

/-- An expression computes the same from the same values of its paths. -/
theorem eval_congr : ∀ e : Expr, (∀ p ∈ e.paths, p.valueIn c' = p.valueIn c) →
    e.eval c' = e.eval c
  | path p, h => h p (List.mem_singleton.mpr rfl)
  | literal _, _ => rfl
  | call _ none, _ => rfl
  | call f (some arg), h => by rw [eval, eval, eval_congr arg h]
  | unary op operand, h => by rw [eval, eval, eval_congr operand h]
  | group inner, h => eval_congr inner h
  | chain first rest, h => by
    rw [paths, List.forall_mem_append] at h
    rw [eval, eval, eval_congr first h.1, evalRest_congr rest h.2]

theorem evalRest_congr : ∀ rest : List (BinaryOp × Expr),
    (∀ p ∈ pathsRest rest, p.valueIn c' = p.valueIn c) → ∀ acc : Value,
      evalRest c' acc rest = evalRest c acc rest
  | [], _, _ => rfl
  | (op, e) :: rest, h, acc => by
    rw [pathsRest, List.forall_mem_append] at h
    rw [evalRest_cons, evalRest_cons, eval_congr e h.1, evalRest_congr rest h.2]

end

end Expr

namespace Node

mutual

/-- A node shows the same for the same values of its paths. -/
theorem render_congr : ∀ node : Node, (∀ p ∈ node.paths, p.valueIn c' = p.valueIn c) →
    node.render c' = node.render c
  | text _, _ => rfl
  | .variable p, h => by
    have hp : (p.resolve? c').getD .null = (p.resolve? c).getD .null :=
      h p (List.mem_singleton.mpr rfl)
    rw [render, render, showValue_getD, hp, ← showValue_getD]
  | conditional branches otherwise, h => by
    rw [paths, List.forall_mem_append] at h
    rw [render, render, renderBranches_congr branches h.1, renderElse_congr otherwise h.2]

theorem renderList_congr : ∀ nodes : List Node,
    (∀ p ∈ pathsList nodes, p.valueIn c' = p.valueIn c) →
      renderList c' nodes = renderList c nodes
  | [], _ => rfl
  | node :: nodes, h => by
    rw [pathsList, List.forall_mem_append] at h
    rw [renderList, renderList, render_congr node h.1, renderList_congr nodes h.2]

theorem renderBranches_congr : ∀ branches : List (Expr × List Node),
    (∀ p ∈ pathsBranches branches, p.valueIn c' = p.valueIn c) →
      renderBranches c' branches = renderBranches c branches
  | [], _ => rfl
  | (test, body) :: branches, h => by
    rw [pathsBranches, List.forall_mem_append, List.forall_mem_append] at h
    rw [renderBranches, renderBranches, test.eval_congr h.1, renderList_congr body h.2.1,
      renderBranches_congr branches h.2.2]

theorem renderElse_congr : ∀ otherwise : Option (List Node),
    (∀ p ∈ pathsElse otherwise, p.valueIn c' = p.valueIn c) →
      renderElse c' otherwise = renderElse c otherwise
  | none, _ => rfl
  | some body, h => renderList_congr body h

end

end Node

/-! ### Names with one meaning in two contexts -/

/-- A name without a value: unbound, or bound to the null value. -/
def Context.Vacant (c : Context) (name : String) : Prop :=
  c.get? name = none ∨ c.get? name = some .null

/-- A name means the same in two contexts: it is bound to one value, or it has no value. -/
def Context.AgreesOn (c c' : Context) (name : String) : Prop :=
  (∃ v, c.get? name = some v ∧ c'.get? name = some v) ∨ c.Vacant name ∧ c'.Vacant name

/-- A path into a vacant name has the null value, whatever its steps. -/
theorem Path.valueIn_eq_null {p : Path} (h : c.Vacant p.base) : p.valueIn c = .null := by
  rw [valueIn, resolve?]
  rcases h with h | h
  · rw [h]
    rfl
  · rw [h, Option.bind_some]
    cases p.steps with
    | nil => rfl
    | cons s steps => rw [Value.followAll?, Value.follow?_null]; rfl

theorem Path.valueIn_eq_of_agreesOn {p : Path} (h : c.AgreesOn c' p.base) :
    p.valueIn c' = p.valueIn c := by
  rcases h with ⟨v, hv, hv'⟩ | ⟨hc, hc'⟩
  · rw [valueIn, valueIn, resolve?, resolve?, hv, hv']
  · rw [valueIn_eq_null hc, valueIn_eq_null hc']

/-- What a program shows depends on the names that its paths start at, and on nothing else of the
context. An unbound name is the same as one bound to the null value. -/
theorem Program.render_eq_of_agreesOn {p : Program}
    (h : ∀ name ∈ p.variables, c.AgreesOn c' name) : p.render c' = p.render c :=
  Node.renderList_congr p.nodes fun q hq ↦
    Path.valueIn_eq_of_agreesOn (h q.base (List.mem_map_of_mem hq))

/-- A variable bound to the null value in one context and unbound in the other, tested inside of a
condition and shown with steps behind it, next to one that both contexts bind. -/
theorem Program.render_eq_of_agreesOn_nested :
    ∃ p : Program,
      p.nodes = [.conditional [(.unary .not (.group (.path ⟨"x", [.position 0]⟩)),
        [.variable ⟨"x", [.field "a"]⟩, .variable ⟨"y", []⟩])] none] ∧
      (∀ name ∈ p.variables, ((Context.empty.insert "y" (.int 7)).insert "x" .null).AgreesOn
        ((Context.empty.insert "z" (.int 1)).insert "y" (.int 7)) name) ∧
      p.render ((Context.empty.insert "z" (.int 1)).insert "y" (.int 7)) =
        p.render ((Context.empty.insert "y" (.int 7)).insert "x" .null) ∧
      p.render ((Context.empty.insert "y" (.int 7)).insert "x" .null) = "7" := by
  let p : Program := ⟨Program.currentVersion, [.conditional
    [(.unary .not (.group (.path ⟨"x", [.position 0]⟩)),
      [.variable ⟨"x", [.field "a"]⟩, .variable ⟨"y", []⟩])] none], []⟩
  have hnames : ∀ name ∈ p.variables,
      ((Context.empty.insert "y" (.int 7)).insert "x" .null).AgreesOn
        ((Context.empty.insert "z" (.int 1)).insert "y" (.int 7)) name := by
    have hx : ((Context.empty.insert "y" (.int 7)).insert "x" .null).AgreesOn
        ((Context.empty.insert "z" (.int 1)).insert "y" (.int 7)) "x" :=
      Or.inr ⟨Or.inr rfl, Or.inl rfl⟩
    have hy : ((Context.empty.insert "y" (.int 7)).insert "x" .null).AgreesOn
        ((Context.empty.insert "z" (.int 1)).insert "y" (.int 7)) "y" :=
      Or.inl ⟨.int 7, rfl, rfl⟩
    intro name hname
    have hmem : name ∈ ["x", "x", "y"] := hname
    simp only [List.mem_cons, List.not_mem_nil, or_false, or_self_left] at hmem
    rcases hmem with rfl | rfl
    · exact hx
    · exact hy
  exact ⟨p, rfl, hnames, Program.render_eq_of_agreesOn hnames, by decide +kernel⟩

end Stencil
