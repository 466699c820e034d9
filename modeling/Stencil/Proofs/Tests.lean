import Stencil.Proofs.Literals

/-!
# The tests of programs

The tests of a program are the conditions of its branches, at any depth. In a program that was
compiled each of them was accepted at some place of its template, so that what holds of accepted
conditions holds of all tests.

## Main definitions

* `Node.tests`, `Program.tests`: the tests of a program.

## Main results

* `Program.accepts_of_mem_tests`: every test of a compiled program is an accepted condition.
-/

namespace Stencil

open Template (Tag Visit)
open Condition (Accepts)

namespace Node

mutual

/-- The tests in a node, at any depth. -/
def tests : Node → List Expr
  | text _ | .variable _ => []
  | conditional branches (some body) => testsBranches branches ++ testsList body
  | conditional branches none => testsBranches branches

/-- The tests in a sequence of nodes. -/
def testsList : List Node → List Expr
  | [] => []
  | node :: nodes => node.tests ++ testsList nodes

/-- The tests of branches, and the tests in their bodies. -/
def testsBranches : List (Expr × List Node) → List Expr
  | [] => []
  | (test, body) :: branches => test :: (testsList body ++ testsBranches branches)

end

end Node

/-- The tests of a program, at any depth. -/
def Program.tests (p : Program) : List Expr :=
  Node.testsList p.nodes

/-! ### Tests met on a walk -/

/-- The test of a tag. -/
def Template.Tag.tests : Tag → List Expr
  | .ifTrue e | .elseIf e => [e]
  | _ => []

/-- The tests of what a walk meets. -/
def Template.Visit.tests : Visit → List Expr
  | .text _ => []
  | .tag t => t.tests

namespace Node

mutual

/-- A walk over a node meets its tests. -/
theorem tests_eq_flatMap : ∀ node : Node, node.tests = node.visits.flatMap Visit.tests
  | text _ | .variable _ => rfl
  | conditional branches (some body) => by
    simp [tests, visits, testsBranches_eq_flatMap branches .ifTrue fun _ ↦ rfl,
      testsList_eq_flatMap body, Visit.tests, Tag.tests]
  | conditional branches none => by
    simp [tests, visits, testsBranches_eq_flatMap branches .ifTrue fun _ ↦ rfl, Visit.tests,
      Tag.tests]

theorem testsList_eq_flatMap : ∀ nodes : List Node,
    testsList nodes = (visitsList nodes).flatMap Visit.tests
  | [] => rfl
  | node :: nodes => by
    simp [testsList, visitsList, tests_eq_flatMap node, testsList_eq_flatMap nodes]

theorem testsBranches_eq_flatMap : ∀ (branches : List (Expr × List Node)) (opening : Expr → Tag),
    (∀ e, (opening e).tests = [e]) →
      testsBranches branches = (visitsBranches opening branches).flatMap Visit.tests
  | [], _, _ => rfl
  | (test, body) :: branches, opening, h => by
    simp [testsBranches, visitsBranches, testsList_eq_flatMap body, Visit.tests, h,
      testsBranches_eq_flatMap branches .elseIf fun _ ↦ rfl]

end

end Node

namespace Template

variable {d : Delimiters} {c : Text.Cursor} {spans : List Span} {notes : Log}

/-- The tags of a template stand behind its left delimiters. -/
theorem Splits.at_of_mem (h : Splits d c spans notes) :
    ∀ t source, Span.tag t source ∈ spans →
      ∃ c' warned next, Tag.At d.right.toList c' t warned next := by
  induction h with
  | done => simp
  | char h hleft hr ih => simpa using ih
  | dangling => simp
  | untagged hleft hne h hr ih => simpa using ih
  | tag hleft h hsource hr ih =>
    intro t source hmem
    rcases List.mem_cons.mp hmem with heq | hmem
    · obtain ⟨rfl, rfl⟩ := Span.tag.inj heq
      exact ⟨_, _, _, h⟩
    · exact ih t source hmem

theorem Tag.At.accepts_of_mem_tests {right : List Char} {next : Text.Cursor} {t : Tag}
    (h : Tag.At right c t notes next) {e : Expr} (he : e ∈ t.tests) :
    ∃ c' body next', Accepts right c' body e next' := by
  cases h with
  | ifTrue _ h | elseIf _ h =>
    obtain rfl := List.mem_singleton.mp he
    exact ⟨_, _, _, h⟩
  | _ => simp [Tag.tests] at he

end Template

/-- Every test of a compiled program is a condition that was accepted. -/
theorem Program.accepts_of_mem_tests {d : Delimiters} {template : String} {p : Program}
    (h : Program.compile d template = .ok p) {e : Expr} (he : e ∈ p.tests) :
    ∃ c body next, Accepts d.right.toList c body e next := by
  obtain ⟨spans, notes, hsplits, hvisits⟩ := exists_splits_of_compile h
  rw [tests, Node.testsList_eq_flatMap, hvisits] at he
  obtain ⟨visit, hvisit, he⟩ := List.mem_flatMap.mp he
  cases visit with
  | text s => simp [Visit.tests] at he
  | tag t =>
    obtain ⟨source, hsource⟩ := Template.tag_mem_joinSpans.mp hvisit
    obtain ⟨c, warned, next, hat⟩ := hsplits.at_of_mem t source hsource
    exact hat.accepts_of_mem_tests he

end Stencil
