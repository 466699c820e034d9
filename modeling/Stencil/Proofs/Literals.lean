import Stencil.Proofs.Visits
import Stencil.Render

/-!
# Literals of programs

The literals in the tests of a program are what it says of values by itself. Replacing them leaves
everything else as it is, so that a program with other literals is equal to it exactly as far as
the literals are. In a program that was compiled they are the texts, truth values and numbers that
its template spells out.

## Main definitions

* `Expr.literals`, `Node.literals`, `Program.literals`: the literals of a program.
* `Expr.mapLiterals?`, `Node.mapLiterals?`, `Program.mapLiterals?`: a program with other literals.
* `Value.IsSpelled`: the values that the literals of a condition may have.

## Main results

* `Program.mapLiterals?_eq_some`: a program stays as it is when its literals do.
* `Program.literals_of_same`: in equal programs the literals are equal, one by one.
* `Condition.Accepts.meanings_eq`: a condition that is accepted says what its tokens say.
* `Program.isCollection_of_compile`: no literal of a template is a list or a map.
-/

namespace Stencil

/-! ### Literals and other literals -/

namespace Expr

mutual

/-- The literals of an expression. -/
def literals : Expr → List Value
  | path _ => []
  | literal v => [v]
  | call _ (some arg) => arg.literals
  | call _ none => []
  | unary _ operand => operand.literals
  | chain first rest => first.literals ++ literalsRest rest
  | group inner => inner.literals

/-- The literals of the operands after the first. -/
def literalsRest : List (BinaryOp × Expr) → List Value
  | [] => []
  | (_, e) :: rest => e.literals ++ literalsRest rest

end

mutual

/-- An expression with other literals, if there are such. -/
def mapLiterals? (f : Value → Option Value) : Expr → Option Expr
  | path p => some (path p)
  | literal v => (f v).map literal
  | call g (some arg) => (arg.mapLiterals? f).map fun arg ↦ call g (some arg)
  | call g none => some (call g none)
  | unary op operand => (operand.mapLiterals? f).map (unary op)
  | chain first rest => do return chain (← first.mapLiterals? f) (← mapLiteralsRest? f rest)
  | group inner => (inner.mapLiterals? f).map group

/-- Operators and operands with other literals. -/
def mapLiteralsRest? (f : Value → Option Value) :
    List (BinaryOp × Expr) → Option (List (BinaryOp × Expr))
  | [] => some []
  | (op, e) :: rest => do return (op, ← e.mapLiterals? f) :: (← mapLiteralsRest? f rest)

end

variable {f : Value → Option Value}

mutual

/-- An expression stays as it is when its literals do. -/
theorem mapLiterals?_eq_some :
    ∀ {e : Expr}, (∀ v ∈ e.literals, f v = some v) → e.mapLiterals? f = some e
  | path _, _ | call _ none, _ => rfl
  | literal v, h => by simp [mapLiterals?, h v (by simp [literals])]
  | call _ (some arg), h | unary _ arg, h | group arg, h => by
    rw [mapLiterals?, mapLiterals?_eq_some fun v hv ↦ h v (by rwa [literals]), Option.map_some]
  | chain first rest, h => by
    simp only [literals, List.forall_mem_append] at h
    simp [mapLiterals?, mapLiterals?_eq_some h.1, mapLiteralsRest?_eq_some h.2]

theorem mapLiteralsRest?_eq_some : ∀ {rest : List (BinaryOp × Expr)},
    (∀ v ∈ literalsRest rest, f v = some v) → mapLiteralsRest? f rest = some rest
  | [], _ => rfl
  | (op, e) :: rest, h => by
    simp only [literalsRest, List.forall_mem_append] at h
    simp [mapLiteralsRest?, mapLiterals?_eq_some h.1, mapLiteralsRest?_eq_some h.2]

end

mutual

theorem same_self : ∀ {e : Expr}, (∀ v ∈ e.literals, v.same v = true) → e.same e = true
  | path _, _ | call _ none, _ => by simp [same]
  | literal v, h => h v (by simp [literals])
  | call _ (some arg), h | unary _ arg, h | group arg, h => by
    simp [same, same_self (e := arg) fun v hv ↦ h v (by rwa [literals])]
  | chain first rest, h => by
    simp only [literals, List.forall_mem_append] at h
    simp [same, same_self h.1, sameRest_self h.2]

theorem sameRest_self : ∀ {rest : List (BinaryOp × Expr)},
    (∀ v ∈ literalsRest rest, v.same v = true) → sameRest rest rest = true
  | [], _ => rfl
  | (op, e) :: rest, h => by
    simp only [literalsRest, List.forall_mem_append] at h
    simp [sameRest, same_self h.1, sameRest_self h.2]

end

mutual

theorem literals_of_same : ∀ {e e' : Expr}, e.mapLiterals? f = some e' → e'.same e = true →
    ∀ v ∈ e.literals, ∃ w, f v = some w ∧ w.same v = true
  | path _, _, _, _ | call _ none, _, _, _ => by simp [literals]
  | literal v, e', h, hsame => by
    obtain ⟨w, hw, rfl⟩ := Option.map_eq_some_iff.mp h
    simpa [literals, same] using ⟨w, hw, hsame⟩
  | call _ (some arg), e', h, hsame | unary _ arg, e', h, hsame => by
    obtain ⟨arg', harg, rfl⟩ := Option.map_eq_some_iff.mp h
    simp only [same, Bool.and_eq_true] at hsame
    rw [literals]
    exact literals_of_same harg hsame.2
  | group inner, e', h, hsame => by
    obtain ⟨inner', hinner, rfl⟩ := Option.map_eq_some_iff.mp h
    rw [literals]
    exact literals_of_same hinner hsame
  | chain first rest, e', h, hsame => by
    simp only [mapLiterals?, Option.pure_def, Option.bind_eq_bind, Option.bind_eq_some_iff] at h
    obtain ⟨first', hfirst, rest', hrest, heq⟩ := h
    obtain rfl := Option.some.inj heq
    simp only [same, Bool.and_eq_true] at hsame
    exact List.forall_mem_append.mpr
      ⟨literals_of_same hfirst hsame.1, literalsRest_of_same hrest hsame.2⟩

theorem literalsRest_of_same : ∀ {rest rest' : List (BinaryOp × Expr)},
    mapLiteralsRest? f rest = some rest' → sameRest rest' rest = true →
    ∀ v ∈ literalsRest rest, ∃ w, f v = some w ∧ w.same v = true
  | [], _, _, _ => by simp [literalsRest]
  | (op, e) :: rest, _, h, hsame => by
    simp only [mapLiteralsRest?, Option.pure_def, Option.bind_eq_bind, Option.bind_eq_some_iff] at h
    obtain ⟨e', he, rest', hrest, heq⟩ := h
    obtain rfl := Option.some.inj heq
    simp only [sameRest, Bool.and_eq_true] at hsame
    exact List.forall_mem_append.mpr
      ⟨literals_of_same he hsame.1.2, literalsRest_of_same hrest hsame.2⟩

end

end Expr

namespace Node

mutual

/-- The literals in the tests of a node. -/
def literals : Node → List Value
  | text _ => []
  | .variable _ => []
  | conditional branches (some body) => literalsBranches branches ++ literalsList body
  | conditional branches none => literalsBranches branches

/-- The literals in the tests of a sequence of nodes. -/
def literalsList : List Node → List Value
  | [] => []
  | node :: nodes => node.literals ++ literalsList nodes

/-- The literals in a sequence of branches. -/
def literalsBranches : List (Expr × List Node) → List Value
  | [] => []
  | (test, body) :: branches => test.literals ++ literalsList body ++ literalsBranches branches

end

mutual

/-- A node with other literals, if there are such. -/
def mapLiterals? (f : Value → Option Value) : Node → Option Node
  | text s => some (text s)
  | .variable p => some (.variable p)
  | conditional branches (some body) => do
    return conditional (← mapLiteralsBranches? f branches) (some (← mapLiteralsList? f body))
  | conditional branches none => (mapLiteralsBranches? f branches).map (conditional · none)

/-- A sequence of nodes with other literals. -/
def mapLiteralsList? (f : Value → Option Value) : List Node → Option (List Node)
  | [] => some []
  | node :: nodes => do return (← node.mapLiterals? f) :: (← mapLiteralsList? f nodes)

/-- A sequence of branches with other literals. -/
def mapLiteralsBranches? (f : Value → Option Value) :
    List (Expr × List Node) → Option (List (Expr × List Node))
  | [] => some []
  | (test, body) :: branches => do
    return (← test.mapLiterals? f, ← mapLiteralsList? f body) :: (← mapLiteralsBranches? f branches)

end

variable {f : Value → Option Value}

mutual

/-- A node stays as it is when its literals do. -/
theorem mapLiterals?_eq_some :
    ∀ {node : Node}, (∀ v ∈ node.literals, f v = some v) → node.mapLiterals? f = some node
  | text _, _ | .variable _, _ => rfl
  | conditional branches (some body), h => by
    simp only [literals, List.forall_mem_append] at h
    simp [mapLiterals?, mapLiteralsBranches?_eq_some h.1, mapLiteralsList?_eq_some h.2]
  | conditional branches none, h => by
    rw [mapLiterals?, mapLiteralsBranches?_eq_some fun v hv ↦ h v (by rwa [literals]),
      Option.map_some]

theorem mapLiteralsList?_eq_some : ∀ {nodes : List Node},
    (∀ v ∈ literalsList nodes, f v = some v) → mapLiteralsList? f nodes = some nodes
  | [], _ => rfl
  | node :: nodes, h => by
    simp only [literalsList, List.forall_mem_append] at h
    simp [mapLiteralsList?, mapLiterals?_eq_some h.1, mapLiteralsList?_eq_some h.2]

theorem mapLiteralsBranches?_eq_some : ∀ {branches : List (Expr × List Node)},
    (∀ v ∈ literalsBranches branches, f v = some v) →
      mapLiteralsBranches? f branches = some branches
  | [], _ => rfl
  | (test, body) :: branches, h => by
    simp only [literalsBranches, List.forall_mem_append] at h
    simp [mapLiteralsBranches?, Expr.mapLiterals?_eq_some h.1.1, mapLiteralsList?_eq_some h.1.2,
      mapLiteralsBranches?_eq_some h.2]

end

mutual

theorem same_self : ∀ {node : Node}, (∀ v ∈ node.literals, v.same v = true) → node.same node = true
  | text _, _ | .variable _, _ => by simp [same]
  | conditional branches (some body), h => by
    simp only [literals, List.forall_mem_append] at h
    simp [same, sameBranches_self h.1, sameList_self h.2]
  | conditional branches none, h => by
    simp [same, sameBranches_self fun v hv ↦ h v (by rwa [literals])]

theorem sameList_self : ∀ {nodes : List Node},
    (∀ v ∈ literalsList nodes, v.same v = true) → sameList nodes nodes = true
  | [], _ => rfl
  | node :: nodes, h => by
    simp only [literalsList, List.forall_mem_append] at h
    simp [sameList, same_self h.1, sameList_self h.2]

theorem sameBranches_self : ∀ {branches : List (Expr × List Node)},
    (∀ v ∈ literalsBranches branches, v.same v = true) → sameBranches branches branches = true
  | [], _ => rfl
  | (test, body) :: branches, h => by
    simp only [literalsBranches, List.forall_mem_append] at h
    simp [sameBranches, Expr.same_self h.1.1, sameList_self h.1.2, sameBranches_self h.2]

end

mutual

theorem literals_of_same : ∀ {node node' : Node}, node.mapLiterals? f = some node' →
    node'.same node = true → ∀ v ∈ node.literals, ∃ w, f v = some w ∧ w.same v = true
  | text _, _, _, _ | .variable _, _, _, _ => by simp [literals]
  | conditional branches (some body), _, h, hsame => by
    simp only [mapLiterals?, Option.pure_def, Option.bind_eq_bind, Option.bind_eq_some_iff] at h
    obtain ⟨branches', hbranches, body', hbody, heq⟩ := h
    obtain rfl := Option.some.inj heq
    simp only [same, Bool.and_eq_true] at hsame
    exact List.forall_mem_append.mpr
      ⟨literalsBranches_of_same hbranches hsame.1, literalsList_of_same hbody hsame.2⟩
  | conditional branches none, _, h, hsame => by
    obtain ⟨branches', hbranches, rfl⟩ := Option.map_eq_some_iff.mp h
    rw [literals]
    exact literalsBranches_of_same hbranches hsame

theorem literalsList_of_same : ∀ {nodes nodes' : List Node},
    mapLiteralsList? f nodes = some nodes' → sameList nodes' nodes = true →
    ∀ v ∈ literalsList nodes, ∃ w, f v = some w ∧ w.same v = true
  | [], _, _, _ => by simp [literalsList]
  | node :: nodes, _, h, hsame => by
    simp only [mapLiteralsList?, Option.pure_def, Option.bind_eq_bind, Option.bind_eq_some_iff] at h
    obtain ⟨node', hnode, nodes', hnodes, heq⟩ := h
    obtain rfl := Option.some.inj heq
    simp only [sameList, Bool.and_eq_true] at hsame
    exact List.forall_mem_append.mpr
      ⟨literals_of_same hnode hsame.1, literalsList_of_same hnodes hsame.2⟩

theorem literalsBranches_of_same : ∀ {branches branches' : List (Expr × List Node)},
    mapLiteralsBranches? f branches = some branches' → sameBranches branches' branches = true →
    ∀ v ∈ literalsBranches branches, ∃ w, f v = some w ∧ w.same v = true
  | [], _, _, _ => by simp [literalsBranches]
  | (test, body) :: branches, _, h, hsame => by
    simp only [mapLiteralsBranches?, Option.pure_def, Option.bind_eq_bind,
      Option.bind_eq_some_iff] at h
    obtain ⟨test', htest, body', hbody, branches', hbranches, heq⟩ := h
    obtain rfl := Option.some.inj heq
    simp only [sameBranches, Bool.and_eq_true] at hsame
    exact List.forall_mem_append.mpr ⟨List.forall_mem_append.mpr
      ⟨Expr.literals_of_same htest hsame.1.1, literalsList_of_same hbody hsame.1.2⟩,
      literalsBranches_of_same hbranches hsame.2⟩

end

end Node

namespace Program

/-- The literals in all tests of a program. -/
def literals (p : Program) : List Value :=
  Node.literalsList p.nodes

/-- A program with other literals, if there are such. -/
def mapLiterals? (f : Value → Option Value) (p : Program) : Option Program :=
  (Node.mapLiteralsList? f p.nodes).map fun nodes ↦ { p with nodes := nodes }

variable {f : Value → Option Value} {p q : Program}

/-- A program stays as it is when its literals do. -/
theorem mapLiterals?_eq_some (h : ∀ v ∈ p.literals, f v = some v) : p.mapLiterals? f = some p := by
  rw [mapLiterals?, Node.mapLiteralsList?_eq_some h, Option.map_some]

/-- A program equals itself when its literals do. -/
theorem same_self (h : ∀ v ∈ p.literals, v.same v = true) : p.same p = true := by
  simp [same, Node.sameList_self h]

/-- In equal programs the literals are equal, one by one. -/
theorem literals_of_same (h : p.mapLiterals? f = some q) (hsame : q.same p = true) :
    ∀ v ∈ p.literals, ∃ w, f v = some w ∧ w.same v = true := by
  obtain ⟨nodes, hnodes, rfl⟩ := Option.map_eq_some_iff.mp h
  simp only [same, Bool.and_eq_true] at hsame
  exact Node.literalsList_of_same hnodes hsame.1.2

end Program

/-! ### Literals of templates -/

/-- The values that the literals of a condition may have. -/
inductive Value.IsSpelled : Value → Prop
  | text (s : String) : IsSpelled (.text s)
  | bool (b : Bool) : IsSpelled (.bool b)
  | int (n : Int64) : IsSpelled (.int n)
  | float (x : Float) : IsSpelled (.float x)

theorem Value.IsSpelled.isCollection_eq_false {v : Value} (h : v.IsSpelled) :
    v.isCollection = false := by
  cases h <;> rfl

namespace Expr

open Condition (Meaning)

mutual

/-- The literals of an expression are among what it says. -/
theorem literal_mem_meanings : ∀ {e : Expr} {v : Value}, v ∈ e.literals → .literal v ∈ e.meanings
  | path _, _, h | call _ none, _, h => by simp [literals] at h
  | literal v, w, h => by
    obtain rfl := List.mem_singleton.mp h
    exact List.mem_singleton_self _
  | call _ (some arg), v, h => by simp [meanings, literal_mem_meanings (e := arg) h]
  | unary _ arg, v, h => by simp [meanings, literal_mem_meanings (e := arg) h]
  | group arg, v, h => by simp [meanings, literal_mem_meanings (e := arg) h]
  | chain first rest, v, h => by
    rcases List.mem_append.mp h with h | h
    · simp [meanings, literal_mem_meanings h]
    · simp [meanings, literal_mem_meaningsRest h]

theorem literal_mem_meaningsRest : ∀ {rest : List (BinaryOp × Expr)} {v : Value},
    v ∈ literalsRest rest → .literal v ∈ meaningsRest rest
  | [], _, h => by simp [literalsRest] at h
  | (op, e) :: rest, v, h => by
    rcases List.mem_append.mp h with h | h
    · simp [meaningsRest, literal_mem_meanings h]
    · simp [meaningsRest, literal_mem_meaningsRest h]

end

end Expr

namespace Condition

variable {right : List Char} {c next : Text.Cursor} {body : List Token} {e : Expr}

/-- A condition that is accepted says what its tokens say. -/
theorem Accepts.meanings_eq (hright : right ≠ []) (h : Accepts right c body e next) :
    body.map Token.meaning? = e.meanings.map some := by
  obtain ⟨e', hsays, hreads⟩ := builds_of_scan (takeWhile_of_closes hright h.closes) h.derives
  have hbuild : build? (body.map corrected) = some e' := by
    refine build?_of_sequence? fun n hn ↦ ?_
    have hread := hreads n [] (by simpa using hn) noOperator_nil
    rwa [List.append_nil] at hread
  obtain rfl : e = e' := Option.some.inj (h.built.symm.trans hbuild)
  exact hsays

/-- The value of a number literal is a number. -/
theorem isSpelled_of_ofNumeral? {cs : List Char} {v : Value} (h : Value.ofNumeral? cs = some v) :
    v.IsSpelled := by
  simp only [Value.ofNumeral?, Value.ofHexadecimal?, Value.ofDecimal?] at h
  split at h <;> split at h
  · exact Option.some.inj h ▸ .int _
  · obtain ⟨x, -, rfl⟩ := Option.map_eq_some_iff.mp h
    exact .float _
  · exact Option.some.inj h ▸ .int _
  · obtain ⟨x, -, rfl⟩ := Option.map_eq_some_iff.mp h
    exact .float _

theorem isSpelled_of_meaning? {t : Token} {v : Value} (h : t.meaning? = some (.literal v)) :
    v.IsSpelled := by
  unfold Token.meaning? at h
  generalize t.kind = kind at h
  cases kind with
  | quoted =>
    obtain rfl := Meaning.literal.inj (Option.some.inj h)
    exact .text _
  | truth =>
    obtain rfl := Meaning.literal.inj (Option.some.inj h)
    exact .bool _
  | number =>
    obtain ⟨w, hw, heq⟩ := Option.map_eq_some_iff.mp h
    exact Meaning.literal.inj heq ▸ isSpelled_of_ofNumeral? hw
  | path | binary | unary | word =>
    obtain ⟨_, -, heq⟩ := Option.map_eq_some_iff.mp h
    cases heq
  | _ => cases h

/-- What a condition says is said by one of its tokens. -/
theorem Accepts.exists_meaning? (hright : right ≠ []) (h : Accepts right c body e next)
    {m : Meaning} (hm : m ∈ e.meanings) : ∃ t ∈ body, t.meaning? = some m := by
  have hmem : some m ∈ body.map Token.meaning? := by
    rw [h.meanings_eq hright]
    exact List.mem_map_of_mem hm
  exact List.mem_map.mp hmem

/-- The literals of a condition are texts, truth values and numbers. -/
theorem Accepts.isSpelled (hright : right ≠ []) (h : Accepts right c body e next) :
    ∀ v ∈ e.literals, v.IsSpelled := by
  intro v hv
  obtain ⟨t, -, ht⟩ := h.exists_meaning? hright (Expr.literal_mem_meanings hv)
  exact isSpelled_of_meaning? ht

/-- No literal of a condition is a list or a map. -/
theorem Accepts.isCollection_eq_false (hright : right ≠ []) (h : Accepts right c body e next) :
    ∀ v ∈ e.literals, v.isCollection = false :=
  fun v hv ↦ (h.isSpelled hright v hv).isCollection_eq_false

end Condition

namespace Template

/-- The literals of a tag. -/
def Tag.literals : Tag → List Value
  | .ifTrue e | .elseIf e => e.literals
  | _ => []

/-- The literals of what a walk meets. -/
def Visit.literals : Visit → List Value
  | .text _ => []
  | .tag t => t.literals

variable {d : Delimiters} {right : List Char} {c next : Text.Cursor} {t : Tag} {spans : List Span}
  {notes : Log}

theorem Tag.At.isCollection_eq_false (hright : right ≠ []) (h : Tag.At right c t notes next) :
    ∀ v ∈ t.literals, v.isCollection = false := by
  cases h with
  | ifTrue _ h | elseIf _ h => exact h.isCollection_eq_false hright
  | _ => exact List.forall_mem_nil _

/-- The literals of the tags of a template are texts, truth values and numbers. -/
theorem Splits.isCollection_eq_false (h : Splits d c spans notes) :
    ∀ t source, Span.tag t source ∈ spans → ∀ v ∈ t.literals, v.isCollection = false := by
  induction h with
  | done => simp
  | char h hleft hr ih => simpa using ih
  | dangling => simp
  | untagged hleft hne h hr ih => simpa using ih
  | tag hleft h hsource hr ih =>
    intro t source hmem
    rcases List.mem_cons.mp hmem with heq | hmem
    · obtain ⟨rfl, rfl⟩ := Span.tag.inj heq
      exact h.isCollection_eq_false (right_ne_nil d)
    · exact ih t source hmem

theorem tag_mem_prependText (s : String) (visits : List Visit) :
    Visit.tag t ∈ prependText s visits ↔ Visit.tag t ∈ visits := by
  cases visits with
  | nil => simp [prependText]
  | cons visit visits => cases visit <;> simp [prependText]

theorem tag_mem_joinSpans :
    Visit.tag t ∈ joinSpans spans ↔ ∃ source, Span.tag t source ∈ spans := by
  induction spans with
  | nil => simp [joinSpans]
  | cons span spans ih =>
    cases span with
    | text cs => simpa [joinSpans, tag_mem_prependText] using ih
    | tag t' source' => simp [joinSpans, ih, exists_or]

end Template

open Template (Tag Visit)

namespace Node

mutual

/-- A walk over a node meets its literals. -/
theorem literals_eq_flatMap : ∀ node : Node, node.literals = node.visits.flatMap Visit.literals
  | text _ | .variable _ => rfl
  | conditional branches (some body) => by
    simp [literals, visits, literalsBranches_eq_flatMap branches .ifTrue fun _ ↦ rfl,
      literalsList_eq_flatMap body, Visit.literals, Tag.literals]
  | conditional branches none => by
    simp [literals, visits, literalsBranches_eq_flatMap branches .ifTrue fun _ ↦ rfl,
      Visit.literals, Tag.literals]

theorem literalsList_eq_flatMap : ∀ nodes : List Node,
    literalsList nodes = (visitsList nodes).flatMap Visit.literals
  | [] => rfl
  | node :: nodes => by
    simp [literalsList, visitsList, literals_eq_flatMap node, literalsList_eq_flatMap nodes]

theorem literalsBranches_eq_flatMap : ∀ (branches : List (Expr × List Node))
    (opening : Expr → Tag), (∀ e, (opening e).literals = e.literals) →
      literalsBranches branches = (visitsBranches opening branches).flatMap Visit.literals
  | [], _, _ => rfl
  | (test, body) :: branches, opening, h => by
    simp [literalsBranches, visitsBranches, literalsList_eq_flatMap body, Visit.literals, h,
      literalsBranches_eq_flatMap branches .elseIf fun _ ↦ rfl]

end

end Node

namespace Program

open Template

variable {d : Delimiters} {template : String} {p : Program}

/-- No literal of a template is a list or a map. -/
theorem isCollection_of_compile (h : compile d template = .ok p) :
    ∀ v ∈ p.literals, v.isCollection = false := by
  obtain ⟨spans, notes, hsplits, hvisits⟩ := exists_splits_of_compile h
  intro v hv
  rw [literals, Node.literalsList_eq_flatMap, hvisits] at hv
  obtain ⟨visit, hvisit, hv⟩ := List.mem_flatMap.mp hv
  cases visit with
  | text s => simp [Visit.literals] at hv
  | tag t =>
    obtain ⟨source, hsource⟩ := tag_mem_joinSpans.mp hvisit
    exact hsplits.isCollection_eq_false t source hsource v hv

end Program

end Stencil
