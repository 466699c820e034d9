import Stencil.Proofs.Meaning

/-!
# The steps of a descent

The readers by descent are given a number of steps. Each of them takes a token or enters a part that
begins at the same token, so that twice as many steps as there are tokens are enough: with more
steps the readers find the same.

## Main results

* `Condition.settled`: from which number of steps on the readers find the same.
* `Condition.sequence?_of_le`: the steps that a build is given are enough.
-/

namespace Stencil.Condition

open Token (Kind)

variable {ts : List Token} {n : Nat}

/-- From some number of steps on, a reader finds the same at the start of some tokens. -/
def SettledFrom {α : Type} (bound : Nat) (read : Nat → List Token → Option α)
    (ts : List Token) : Prop :=
  ∀ n, bound ≤ n → read (n + 1) ts = read n ts

/-- The three readers have settled at the start of some tokens. -/
structure Settled (ts : List Token) : Prop where
  operand : SettledFrom (2 * ts.length) operand? ts
  sequence : SettledFrom (2 * ts.length + 1) sequence? ts
  operations : SettledFrom (2 * ts.length + 1) operations? ts

theorem length_lt_of_operand? {e : Expr} {rest : List Token} (h : operand? n ts = some (e, rest)) :
    rest.length < ts.length := by
  obtain ⟨us, rfl, hus⟩ := (takes_of_descent n).1 _ _ _ h
  have hpos := List.length_pos_iff.mpr (hus.ne_nil (by decide))
  rw [List.length_append]
  omega

theorem length_lt_of_skip? {k : Kind} {rest : List Token} (h : skip? k ts = some rest) :
    rest.length < ts.length := by
  obtain ⟨t, rfl, -⟩ := eq_cons_of_skip? h
  exact Nat.lt_succ_self _

theorem settled_operand (ih : ∀ us : List Token, us.length < ts.length → Settled us) :
    SettledFrom (2 * ts.length) operand? ts := by
  intro n hn
  cases ts with
  | nil => cases n <;> rfl
  | cons t ts =>
    rw [List.length_cons] at hn
    obtain ⟨m, rfl⟩ := Nat.exists_eq_succ_of_ne_zero (by omega : n ≠ 0)
    have hrest := ih ts (Nat.lt_succ_self _)
    have hoperand : operand? (m + 1) ts = operand? m ts := hrest.operand m (by omega)
    have hsequence : sequence? (m + 1) ts = sequence? m ts := hrest.sequence m (by omega)
    have hinside (us : List Token) (hus : us.length < ts.length) :
        sequence? (m + 1) us = sequence? m us :=
      (ih us (by rw [List.length_cons]; omega)).sequence m (by omega)
    simp only [operand?]
    rw [hoperand, hsequence]
    cases hskip : skip? .openParen ts with
    | none => rfl
    | some us =>
      simp only [Option.bind_eq_bind, Option.bind_some, hinside us (length_lt_of_skip? hskip)]

theorem settled_sequence (ih : ∀ us : List Token, us.length < ts.length → Settled us) :
    SettledFrom (2 * ts.length + 1) sequence? ts := by
  intro n hn
  obtain ⟨m, rfl⟩ := Nat.exists_eq_succ_of_ne_zero (by omega : n ≠ 0)
  have hoperand : operand? (m + 1) ts = operand? m ts := settled_operand ih m (by omega)
  simp only [sequence?]
  rw [hoperand]
  cases hfirst : operand? m ts with
  | none => rfl
  | some r =>
    have hlt : r.2.length < ts.length := length_lt_of_operand? hfirst
    have hothers : operations? (m + 1) r.2 = operations? m r.2 :=
      (ih _ hlt).operations m (by omega)
    simp only [Option.bind_eq_bind, Option.bind_some, hothers]

theorem settled_operations (ih : ∀ us : List Token, us.length < ts.length → Settled us) :
    SettledFrom (2 * ts.length + 1) operations? ts := by
  intro n hn
  obtain ⟨m, rfl⟩ := Nat.exists_eq_succ_of_ne_zero (by omega : n ≠ 0)
  cases ts with
  | nil => rfl
  | cons t ts =>
    rw [List.length_cons] at hn
    have hoperand : operand? (m + 1) ts = operand? m ts :=
      (ih ts (Nat.lt_succ_self _)).operand m (by omega)
    simp only [operations?]
    rw [hoperand]
    cases hfirst : operand? m ts with
    | none => rfl
    | some r =>
      have hlt : r.2.length < ts.length := length_lt_of_operand? hfirst
      have hothers : operations? (m + 1) r.2 = operations? m r.2 :=
        (ih r.2 (by rw [List.length_cons]; omega)).operations m (by omega)
      simp only [Option.bind_eq_bind, Option.bind_some, hothers]

/-- Twice as many steps as there are tokens are enough for the readers. -/
theorem settled (ts : List Token) : Settled ts := by
  induction hn : ts.length using Nat.strong_induction_on generalizing ts with
  | _ n ih =>
    have hshorter (us : List Token) (hus : us.length < ts.length) : Settled us :=
      ih us.length (hn ▸ hus) us rfl
    exact ⟨settled_operand hshorter, settled_sequence hshorter, settled_operations hshorter⟩

/-- With more steps than are enough the readers find the same. -/
theorem sequence?_of_le (h : 2 * ts.length + 2 ≤ n) :
    sequence? n ts = sequence? (2 * ts.length + 2) ts := by
  induction n, h using Nat.le_induction with
  | base => rfl
  | succ n hle ih => rw [(settled ts).sequence n (by omega), ih]

end Stencil.Condition
