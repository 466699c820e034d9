import Mathlib.Data.List.Forall2
import Stencil.Condition

/-!
# The grammar of conditions

The grammar is given by derivations: a sequence is an operand followed by operations, an operation
is an operator with its operand, and a single equals sign stands for an operator. A derivation looks
at the kinds of the tokens, and at the text of a word to see that it names a function.

## Main definitions

* `Condition.Derives`: the sentences of the grammar.
* `Condition.Belongs`: the tokens that may stand in a condition at all.
* `Condition.Alike`: tokens that the grammar does not tell apart.

## Main results

* `Condition.Derives.belongs`: every token of a sentence belongs in a condition.
* `Condition.Derives.of_alike`: tokens that are alike may replace each other.
-/

namespace Stencil.Condition

open Token (Kind)

/-- The parts of a condition. -/
inductive Part
  | operand
  | sequence
  /-- Operators, each with the operand after it. -/
  | operations
  deriving DecidableEq

/-- The tokens that stand for an operator between two operands. -/
def IsOperator (t : Token) : Prop :=
  t.kind = .binary ∨ t.kind = .assign

/-- The tokens that name a function. -/
def NamesFunction (t : Token) : Prop :=
  t.kind = .word ∧ (Function.ofName? t.symbol).isSome

/-- The grammar of conditions. -/
inductive Derives : Part → List Token → Prop
  | single {t : Token} (ht : t.kind.isOperand = true) : Derives .operand [t]
  | unary {t : Token} {ts : List Token} (ht : t.kind = .unary) (h : Derives .operand ts) :
      Derives .operand (t :: ts)
  | group {o c : Token} {ts : List Token} (ho : o.kind = .openParen) (h : Derives .sequence ts)
      (hc : c.kind = .closeParen) : Derives .operand (o :: (ts ++ [c]))
  | emptyCall {f o c : Token} (hf : NamesFunction f) (ho : o.kind = .openParen)
      (hc : c.kind = .closeParen) : Derives .operand [f, o, c]
  | call {f o c : Token} {ts : List Token} (hf : NamesFunction f) (ho : o.kind = .openParen)
      (h : Derives .sequence ts) (hc : c.kind = .closeParen) :
      Derives .operand (f :: o :: (ts ++ [c]))
  | sequence {ts us : List Token} (h : Derives .operand ts) (hr : Derives .operations us) :
      Derives .sequence (ts ++ us)
  | stop : Derives .operations []
  | operation {t : Token} {ts us : List Token} (ht : IsOperator t) (h : Derives .operand ts)
      (hr : Derives .operations us) : Derives .operations (t :: (ts ++ us))

/-- An operand or a sequence holds a token at least. -/
theorem Derives.ne_nil {p : Part} {ts : List Token} (h : Derives p ts) (hp : p ≠ .operations) :
    ts ≠ [] := by
  induction h with
  | sequence h hr ih _ =>
    intro hnil
    exact ih (by decide) (List.append_eq_nil_iff.mp hnil).1
  | stop => exact absurd rfl hp
  | operation => exact absurd rfl hp
  | _ => exact List.cons_ne_nil _ _

/-- The tokens that may stand in a condition at all. -/
def Belongs (t : Token) : Prop :=
  t.kind ≠ .close ∧ t.kind ≠ .other ∧ (t.kind = .word → (Function.ofName? t.symbol).isSome)

theorem belongs_of_kind {t : Token} {k : Kind} (ht : t.kind = k)
    (hk : k ≠ .close ∧ k ≠ .other ∧ k ≠ .word) : Belongs t :=
  ⟨ht ▸ hk.1, ht ▸ hk.2.1, fun h ↦ absurd (ht.symm.trans h) hk.2.2⟩

theorem NamesFunction.belongs {t : Token} (ht : NamesFunction t) : Belongs t :=
  ⟨by simp [ht.1], by simp [ht.1], fun _ ↦ ht.2⟩

theorem Derives.belongs {p : Part} {ts : List Token} (h : Derives p ts) :
    ∀ t ∈ ts, Belongs t := by
  induction h with
  | @single t ht =>
    refine List.forall_mem_singleton.mpr (belongs_of_kind rfl ?_)
    cases hk : t.kind <;> simp_all [Kind.isOperand]
  | unary ht h ih =>
    exact List.forall_mem_cons.mpr ⟨belongs_of_kind ht (by decide), ih⟩
  | group ho h hc ih =>
    refine List.forall_mem_cons.mpr ⟨belongs_of_kind ho (by decide), ?_⟩
    exact List.forall_mem_append.mpr
      ⟨ih, List.forall_mem_singleton.mpr (belongs_of_kind hc (by decide))⟩
  | emptyCall hf ho hc =>
    refine List.forall_mem_cons.mpr ⟨hf.belongs, ?_⟩
    refine List.forall_mem_cons.mpr ⟨belongs_of_kind ho (by decide), ?_⟩
    exact List.forall_mem_singleton.mpr (belongs_of_kind hc (by decide))
  | call hf ho h hc ih =>
    refine List.forall_mem_cons.mpr ⟨hf.belongs, ?_⟩
    refine List.forall_mem_cons.mpr ⟨belongs_of_kind ho (by decide), ?_⟩
    exact List.forall_mem_append.mpr
      ⟨ih, List.forall_mem_singleton.mpr (belongs_of_kind hc (by decide))⟩
  | sequence h hr ih ihr => exact List.forall_mem_append.mpr ⟨ih, ihr⟩
  | stop => exact List.forall_mem_nil _
  | operation ht h hr ih ihr =>
    refine List.forall_mem_cons.mpr ⟨?_, List.forall_mem_append.mpr ⟨ih, ihr⟩⟩
    rcases ht with ht | ht <;> exact belongs_of_kind ht (by decide)

/-! ### Tokens that are alike -/

/-- Two tokens that the grammar does not tell apart. -/
def Alike (t u : Token) : Prop :=
  (IsOperator t ∧ IsOperator u) ∨ (t.kind = u.kind ∧ t.text = u.text)

theorem forall₂_append_left {α : Type} {r : α → α → Prop} {as bs cs : List α}
    (h : List.Forall₂ r (as ++ bs) cs) :
    ∃ xs ys, cs = xs ++ ys ∧ List.Forall₂ r as xs ∧ List.Forall₂ r bs ys := by
  induction as generalizing cs with
  | nil => exact ⟨[], cs, rfl, .nil, h⟩
  | cons a as ih =>
    obtain ⟨c, cs, hac, hr, rfl⟩ := List.forall₂_cons_left_iff.mp h
    obtain ⟨xs, ys, rfl, hxs, hys⟩ := ih hr
    exact ⟨c :: xs, ys, rfl, .cons hac hxs, hys⟩

theorem Alike.kind_eq {t u : Token} {k : Kind} (h : Alike t u) (ht : t.kind = k)
    (hk : k ≠ .binary ∧ k ≠ .assign) : u.kind = k := by
  rcases h with ⟨hop, -⟩ | ⟨hkind, -⟩
  · rcases hop with hop | hop <;> simp_all
  · rw [← hkind, ht]

theorem Alike.namesFunction {t u : Token} (h : Alike t u) (ht : NamesFunction t) :
    NamesFunction u := by
  refine ⟨h.kind_eq ht.1 (by decide), ?_⟩
  rcases h with ⟨hop, -⟩ | ⟨-, htext⟩
  · rcases hop with hop | hop <;> simp [ht.1] at hop
  · rw [Token.symbol, ← htext]
    exact ht.2

theorem Alike.isOperand {t u : Token} (h : Alike t u) (ht : t.kind.isOperand = true) :
    u.kind.isOperand = true := by
  rw [h.kind_eq rfl ?_]
  · exact ht
  · constructor <;> intro hk <;> simp [hk, Kind.isOperand] at ht

theorem Alike.isOperator {t u : Token} (h : Alike t u) (ht : IsOperator t) : IsOperator u := by
  rcases h with ⟨-, hu⟩ | ⟨hkind, -⟩
  · exact hu
  · rw [IsOperator, ← hkind]
    exact ht

/-- A part of a condition stays one when tokens are replaced by others that are alike. -/
theorem Derives.of_alike {p : Part} {ts us : List Token} (h : Derives p ts)
    (halike : List.Forall₂ Alike ts us) : Derives p us := by
  induction h generalizing us with
  | single ht =>
    obtain ⟨u, us, hu, hnil, rfl⟩ := List.forall₂_cons_left_iff.mp halike
    obtain rfl := List.forall₂_nil_left_iff.mp hnil
    exact .single (hu.isOperand ht)
  | unary ht h ih =>
    obtain ⟨u, us, hu, hus, rfl⟩ := List.forall₂_cons_left_iff.mp halike
    exact .unary (hu.kind_eq ht (by decide)) (ih hus)
  | group ho h hc ih =>
    obtain ⟨o, vs, ho', hvs, rfl⟩ := List.forall₂_cons_left_iff.mp halike
    obtain ⟨us, ws, rfl, hus, hws⟩ := forall₂_append_left hvs
    obtain ⟨c, xs, hc', hnil, rfl⟩ := List.forall₂_cons_left_iff.mp hws
    obtain rfl := List.forall₂_nil_left_iff.mp hnil
    exact .group (ho'.kind_eq ho (by decide)) (ih hus) (hc'.kind_eq hc (by decide))
  | emptyCall hf ho hc =>
    obtain ⟨f, us, hf', hus, rfl⟩ := List.forall₂_cons_left_iff.mp halike
    obtain ⟨o, vs, ho', hvs, rfl⟩ := List.forall₂_cons_left_iff.mp hus
    obtain ⟨c, ws, hc', hnil, rfl⟩ := List.forall₂_cons_left_iff.mp hvs
    obtain rfl := List.forall₂_nil_left_iff.mp hnil
    exact .emptyCall (hf'.namesFunction hf) (ho'.kind_eq ho (by decide))
      (hc'.kind_eq hc (by decide))
  | call hf ho h hc ih =>
    obtain ⟨f, vs, hf', hvs, rfl⟩ := List.forall₂_cons_left_iff.mp halike
    obtain ⟨o, ws, ho', hws, rfl⟩ := List.forall₂_cons_left_iff.mp hvs
    obtain ⟨us, xs, rfl, hus, hxs⟩ := forall₂_append_left hws
    obtain ⟨c, ys, hc', hnil, rfl⟩ := List.forall₂_cons_left_iff.mp hxs
    obtain rfl := List.forall₂_nil_left_iff.mp hnil
    exact .call (hf'.namesFunction hf) (ho'.kind_eq ho (by decide)) (ih hus)
      (hc'.kind_eq hc (by decide))
  | sequence h hr ih ihr =>
    obtain ⟨us, vs, rfl, hus, hvs⟩ := forall₂_append_left halike
    exact .sequence (ih hus) (ihr hvs)
  | stop =>
    obtain rfl := List.forall₂_nil_left_iff.mp halike
    exact .stop
  | operation ht h hr ih ihr =>
    obtain ⟨u, ws, hu, hws, rfl⟩ := List.forall₂_cons_left_iff.mp halike
    obtain ⟨us, vs, rfl, hus, hvs⟩ := forall₂_append_left hws
    exact .operation (hu.isOperator ht) (ih hus) (ihr hvs)

end Stencil.Condition
