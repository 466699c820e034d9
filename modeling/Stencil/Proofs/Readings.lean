import Stencil.Proofs.Meaning

/-!
# Reading back what an expression says

Every expression has its tokens, but not every expression comes from some: a chain without a second
operand reads as its only operand, and a chain that is an operand needs parentheses around it. On
the expressions of the grammar reading by descent is the inverse of saying.

## Main definitions

* `Expr.IsOperand`: an expression that may stand beside an operator.
* `Expr.WellFormed`: the expressions of the grammar.
* `Condition.Says`: some tokens say something, one by one.

## Main results

* `Condition.build?_eq_some_iff`: tokens are built into an expression if and only if they say what
  it says and it is one of the grammar.
-/

namespace Stencil

open Token (Kind)
open Condition (Meaning)

namespace Expr

/-- An expression that may stand beside an operator without parentheses around it. -/
def IsOperand : Expr → Prop
  | chain _ _ => False
  | _ => True

mutual

/-- The expressions of the grammar: a chain has two operands at least, and none of them is a
chain. -/
def WellFormed : Expr → Prop
  | path _ | literal _ | call _ none => True
  | call _ (some arg) => arg.WellFormed
  | unary _ operand => operand.WellFormed ∧ operand.IsOperand
  | chain first rest => first.WellFormed ∧ first.IsOperand ∧ rest ≠ [] ∧ WellFormedRest rest
  | group inner => inner.WellFormed

/-- Operators with the operands of a chain. -/
def WellFormedRest : List (BinaryOp × Expr) → Prop
  | [] => True
  | (_, e) :: rest => e.WellFormed ∧ e.IsOperand ∧ WellFormedRest rest

end

theorem WellFormed.joined {first : Expr} {rest : List (BinaryOp × Expr)} (h : first.WellFormed)
    (hfirst : first.IsOperand) (hrest : WellFormedRest rest) :
    (Condition.joined first rest).WellFormed := by
  cases rest with
  | nil => exact h
  | cons r rest => exact ⟨h, hfirst, List.cons_ne_nil _ _, hrest⟩

end Expr

namespace Condition

/-! ### What tokens say -/

/-- Some tokens say something, one by one. -/
def Says (ts : List Token) (ms : List Meaning) : Prop :=
  ts.map Token.meaning? = ms.map some

theorem says_nil_iff {ts : List Token} : Says ts [] ↔ ts = [] := by
  simp [Says]

theorem says_cons_iff {ts : List Token} {m : Meaning} {ms : List Meaning} :
    Says ts (m :: ms) ↔ ∃ t us, ts = t :: us ∧ t.meaning? = some m ∧ Says us ms := by
  simp [Says, List.map_eq_cons_iff]

theorem says_append_iff {ts : List Token} {ms ns : List Meaning} :
    Says ts (ms ++ ns) ↔ ∃ us vs, ts = us ++ vs ∧ Says us ms ∧ Says vs ns := by
  simp [Says, List.map_eq_append_iff]

theorem Says.cons {t : Token} {ts : List Token} {m : Meaning} {ms : List Meaning}
    (ht : t.meaning? = some m) (h : Says ts ms) : Says (t :: ts) (m :: ms) :=
  says_cons_iff.mpr ⟨t, ts, rfl, ht, h⟩

theorem Says.append {ts us : List Token} {ms ns : List Meaning} (h : Says ts ms)
    (h' : Says us ns) : Says (ts ++ us) (ms ++ ns) :=
  says_append_iff.mpr ⟨ts, us, rfl, h, h'⟩

@[simp] theorem says_map_corrected {ts : List Token} {ms : List Meaning} :
    Says (ts.map corrected) ms ↔ Says ts ms := by
  rw [Says, Says, map_meaning?_corrected]

section Meanings

variable {t : Token}

theorem single?_of_path {p : Path} (h : t.meaning? = some (.path p)) :
    t.kind.isOperand = true ∧ single? t = some (.path p) := by
  unfold Token.meaning? at h
  cases hk : t.kind <;> simp_all [single?, Kind.isOperand]

theorem single?_of_literal {v : Value} (h : t.meaning? = some (.literal v)) :
    t.kind.isOperand = true ∧ single? t = some (.literal v) := by
  unfold Token.meaning? at h
  cases hk : t.kind <;> simp_all [single?, Kind.isOperand]

theorem kind_of_unary {op : UnaryOp} (h : t.meaning? = some (.unary op)) :
    t.kind = .unary ∧ UnaryOp.ofSymbol? t.symbol = some op := by
  unfold Token.meaning? at h
  cases hk : t.kind <;> simp_all

theorem kind_of_function {f : Function} (h : t.meaning? = some (.function f)) :
    t.kind = .word ∧ Function.ofName? t.symbol = some f := by
  unfold Token.meaning? at h
  cases hk : t.kind <;> simp_all

theorem kind_of_openParen (h : t.meaning? = some .openParen) : t.kind = .openParen := by
  unfold Token.meaning? at h
  cases hk : t.kind <;> simp_all

theorem kind_of_closeParen (h : t.meaning? = some .closeParen) : t.kind = .closeParen := by
  unfold Token.meaning? at h
  cases hk : t.kind <;> simp_all

/-- What says an operator is one, once a single equals sign is put right. -/
theorem kind_of_binary {op : BinaryOp} (h : t.meaning? = some (.binary op)) :
    (corrected t).kind = .binary ∧ BinaryOp.ofSymbol? (corrected t).symbol = some op := by
  rw [← meaning?_corrected] at h
  have hne : (corrected t).kind ≠ .assign := by
    by_cases hk : t.kind = .assign <;> simp [corrected, hk, equality]
  unfold Token.meaning? at h
  cases hk : (corrected t).kind <;> simp_all

/-- Tokens in parentheses, taken apart. -/
theorem exists_of_says_enclosed {ts : List Token} {ms : List Meaning}
    (h : Says ts (.openParen :: (ms ++ [.closeParen]))) :
    ∃ o us c, ts = o :: (us ++ [c]) ∧ o.kind = .openParen ∧ Says us ms ∧ c.kind = .closeParen := by
  obtain ⟨o, us, rfl, ho, hus⟩ := says_cons_iff.mp h
  obtain ⟨vs, ws, rfl, hvs, hws⟩ := says_append_iff.mp hus
  obtain ⟨c, xs, rfl, hc, hxs⟩ := says_cons_iff.mp hws
  obtain rfl := says_nil_iff.mp hxs
  exact ⟨o, vs, c, rfl, kind_of_openParen ho, hvs, kind_of_closeParen hc⟩

theorem exists_of_says_parentheses {ts : List Token} (h : Says ts [.openParen, .closeParen]) :
    ∃ o c, ts = [o, c] ∧ o.kind = .openParen ∧ c.kind = .closeParen := by
  rw [← List.nil_append [Meaning.closeParen]] at h
  obtain ⟨o, us, c, rfl, ho, hus, hc⟩ := exists_of_says_enclosed h
  obtain rfl := says_nil_iff.mp hus
  exact ⟨o, c, rfl, ho, hc⟩

theorem meaning?_of_single? {e : Expr} (h : single? t = some e) :
    Says [t] e.meanings ∧ e.WellFormed ∧ e.IsOperand := by
  unfold single? at h
  cases hk : t.kind <;> simp only [hk, Option.map_eq_some_iff, Option.some.injEq, reduceCtorEq] at h
  · obtain ⟨p, hp, rfl⟩ := h
    exact ⟨by simp [Says, Token.meaning?, hk, hp, Expr.meanings], trivial, trivial⟩
  · obtain rfl := h
    exact ⟨by simp [Says, Token.meaning?, hk, Expr.meanings], trivial, trivial⟩
  · obtain ⟨v, hv, rfl⟩ := h
    exact ⟨by simp [Says, Token.meaning?, hk, hv, Expr.meanings], trivial, trivial⟩
  · obtain rfl := h
    exact ⟨by simp [Says, Token.meaning?, hk, Expr.meanings], trivial, trivial⟩

end Meanings

/-! ### What is read says the same -/

/-- A reader finds something that says what the tokens say that it takes, and that is part of an
expression of the grammar. -/
def Finds {α : Type} (saying : α → List Meaning) (good : α → Prop)
    (read : List Token → Option (α × List Token)) : Prop :=
  ∀ ts a rest, read ts = some (a, rest) → ∃ us, ts = us ++ rest ∧ Says us (saying a) ∧ good a

/-- The operands of the grammar. -/
def GoodOperand (e : Expr) : Prop :=
  e.WellFormed ∧ e.IsOperand

variable {n : Nat}

theorem finds_operand (hoperand : Finds Expr.meanings GoodOperand (operand? n))
    (hsequence : Finds Expr.meanings Expr.WellFormed (sequence? n)) :
    Finds Expr.meanings GoodOperand (operand? (n + 1)) := by
  have hclose {us rest : List Token} (h : skip? .closeParen us = some rest) :
      ∃ c, us = c :: rest ∧ c.meaning? = some .closeParen := by
    obtain ⟨c, rfl, hc⟩ := eq_cons_of_skip? h
    exact ⟨c, rfl, by simp [Token.meaning?, hc]⟩
  intro ts e rest h
  cases ts with
  | nil => simp [operand?] at h
  | cons t ts =>
    simp only [operand?, Option.pure_def] at h
    split at h
    · rename_i hk
      simp only [Option.bind_eq_bind, Option.bind_eq_some_iff] at h
      obtain ⟨op, hop, ⟨e', ts'⟩, hinner, heq⟩ := h
      obtain ⟨rfl, rfl⟩ := Prod.mk.inj (Option.some.inj heq)
      obtain ⟨us, rfl, hsaid, hgood⟩ := hoperand _ _ _ hinner
      exact ⟨t :: us, rfl, .cons (by simp [Token.meaning?, hk, hop]) hsaid, hgood, trivial⟩
    · rename_i hk
      simp only [Option.bind_eq_bind, Option.bind_eq_some_iff] at h
      obtain ⟨⟨e', ts'⟩, hinner, ts'', hskip, heq⟩ := h
      obtain ⟨rfl, rfl⟩ := Prod.mk.inj (Option.some.inj heq)
      obtain ⟨us, rfl, hsaid, hgood⟩ := hsequence _ _ _ hinner
      obtain ⟨c, rfl, hc⟩ := hclose hskip
      refine ⟨t :: (us ++ [c]), by simp, ?_, hgood, trivial⟩
      exact .cons (by simp [Token.meaning?, hk]) (hsaid.append (.cons hc rfl))
    · rename_i hk
      simp only [Option.bind_eq_bind, Option.bind_eq_some_iff] at h
      obtain ⟨f, hf, ts', hskip, h⟩ := h
      have hname : t.meaning? = some (.function f) := by simp [Token.meaning?, hk, hf]
      obtain ⟨o, rfl, ho⟩ := eq_cons_of_skip? hskip
      have hopen : o.meaning? = some .openParen := by simp [Token.meaning?, ho]
      split at h
      · rename_i ts'' hskip'
        obtain ⟨rfl, rfl⟩ := Prod.mk.inj (Option.some.inj h)
        obtain ⟨c, rfl, hc⟩ := hclose hskip'
        exact ⟨[t, o, c], rfl, .cons hname (.cons hopen (.cons hc rfl)), trivial, trivial⟩
      · simp only [Option.bind_eq_some_iff] at h
        obtain ⟨⟨e', ts''⟩, hinner, others, hskip', heq⟩ := h
        obtain ⟨rfl, rfl⟩ := Prod.mk.inj (Option.some.inj heq)
        obtain ⟨us, rfl, hsaid, hgood⟩ := hsequence _ _ _ hinner
        obtain ⟨c, rfl, hc⟩ := hclose hskip'
        refine ⟨t :: o :: (us ++ [c]), by simp, ?_, hgood, trivial⟩
        exact .cons hname (.cons hopen (hsaid.append (.cons hc rfl)))
    · simp only [Option.bind_eq_bind, Option.bind_eq_some_iff] at h
      obtain ⟨e', hsingle, heq⟩ := h
      obtain ⟨rfl, rfl⟩ := Prod.mk.inj (Option.some.inj heq)
      exact ⟨[t], rfl, meaning?_of_single? hsingle⟩

theorem finds_sequence (hoperand : Finds Expr.meanings GoodOperand (operand? n))
    (hoperations : Finds Expr.meaningsRest Expr.WellFormedRest (operations? n)) :
    Finds Expr.meanings Expr.WellFormed (sequence? (n + 1)) := by
  intro ts e rest h
  simp only [sequence?, Option.pure_def, Option.bind_eq_bind, Option.bind_eq_some_iff] at h
  obtain ⟨⟨first, ts'⟩, hfirst, ⟨others, ts''⟩, hothers, heq⟩ := h
  obtain ⟨rfl, rfl⟩ := Prod.mk.inj (Option.some.inj heq)
  obtain ⟨us, rfl, hsaid, hgood⟩ := hoperand _ _ _ hfirst
  obtain ⟨vs, rfl, hsaidRest, hgoodRest⟩ := hoperations _ _ _ hothers
  refine ⟨us ++ vs, by simp, ?_, hgood.1.joined hgood.2 hgoodRest⟩
  rw [meanings_joined]
  exact hsaid.append hsaidRest

theorem finds_operations (hoperand : Finds Expr.meanings GoodOperand (operand? n))
    (hoperations : Finds Expr.meaningsRest Expr.WellFormedRest (operations? n)) :
    Finds Expr.meaningsRest Expr.WellFormedRest (operations? (n + 1)) := by
  intro ts es rest h
  cases ts with
  | nil =>
    obtain ⟨rfl, rfl⟩ := Prod.mk.inj (Option.some.inj h)
    exact ⟨[], rfl, rfl, trivial⟩
  | cons t ts =>
    simp only [operations?, Option.pure_def] at h
    split at h
    · rename_i hk
      simp only [Option.bind_eq_bind, Option.bind_eq_some_iff] at h
      obtain ⟨op, hop, ⟨e, ts'⟩, hfirst, ⟨others, ts''⟩, hothers, heq⟩ := h
      obtain ⟨rfl, rfl⟩ := Prod.mk.inj (Option.some.inj heq)
      obtain ⟨us, rfl, hsaid, hgood⟩ := hoperand _ _ _ hfirst
      obtain ⟨vs, rfl, hsaidRest, hgoodRest⟩ := hoperations _ _ _ hothers
      refine ⟨t :: (us ++ vs), by simp, ?_, hgood.1, hgood.2, hgoodRest⟩
      exact .cons (by simp [Token.meaning?, hk, hop]) (hsaid.append hsaidRest)
    · obtain ⟨rfl, rfl⟩ := Prod.mk.inj (Option.some.inj h)
      exact ⟨[], rfl, rfl, trivial⟩

/-- What the readers by descent find says what the tokens say, with any bound on the steps. -/
theorem finds_of_descent (n : Nat) : Finds Expr.meanings GoodOperand (operand? n) ∧
    Finds Expr.meanings Expr.WellFormed (sequence? n) ∧
    Finds Expr.meaningsRest Expr.WellFormedRest (operations? n) := by
  induction n with
  | zero => simp [Finds, operand?, sequence?, operations?]
  | succ n ih =>
    obtain ⟨hoperand, hsequence, hoperations⟩ := ih
    exact ⟨finds_operand hoperand hsequence, finds_sequence hoperand hoperations,
      finds_operations hoperand hoperations⟩

/-- An expression says what the tokens say that it is built from. -/
theorem says_of_build? {ts : List Token} {e : Expr} (h : build? ts = some e) :
    Says ts e.meanings ∧ e.WellFormed := by
  unfold build? at h
  split at h
  · rename_i e' hread
    obtain rfl := Option.some.inj h
    obtain ⟨us, rfl, hus⟩ := (finds_of_descent _).2.1 _ _ _ hread
    rwa [List.append_nil]
  · simp at h

/-! ### What is said is read back -/

/-- An operand is read from any tokens that say it, whatever comes behind them. -/
def ReadsOperand (e : Expr) : Prop :=
  ∀ ts, Says ts e.meanings → ∀ n rest, 2 * ts.length ≤ n →
    operand? n (ts.map corrected ++ rest) = some (e, rest)

/-- A sequence is read from any tokens that say it, when no operator comes behind them. -/
def ReadsSequence (e : Expr) : Prop :=
  ∀ ts, Says ts e.meanings → ∀ n rest, 2 * ts.length + 1 ≤ n → NoOperator rest →
    sequence? n (ts.map corrected ++ rest) = some (e, rest)

/-- Operators and operands are read from any tokens that say them, when no operator comes behind
them. -/
def ReadsOperations (es : List (BinaryOp × Expr)) : Prop :=
  ∀ ts, Says ts (Expr.meaningsRest es) → ∀ n rest, 2 * ts.length + 1 ≤ n → NoOperator rest →
    operations? n (ts.map corrected ++ rest) = some (es, rest)

theorem Says.length_eq {ts : List Token} {ms : List Meaning} (h : Says ts ms) :
    ts.length = ms.length := by
  simpa using congrArg List.length h

/-- Every operand and every sequence says something. -/
theorem length_meanings_pos : ∀ e : Expr, 0 < e.meanings.length
  | .path _ | .literal _ | .call _ none => Nat.succ_pos _
  | .call _ (some _) | .unary _ _ | .group _ => Nat.succ_pos _
  | .chain first rest => by
    have hfirst := length_meanings_pos first
    simp only [Expr.meanings, List.length_append]
    omega

/-- No sequence begins with the end of a group. -/
theorem skip?_of_sequence? {ts : List Token} {r : Expr × List Token}
    (h : sequence? n ts = some r) : skip? .closeParen ts = none := by
  cases ts with
  | nil => rfl
  | cons t ts =>
    refine if_neg fun ht ↦ ?_
    cases n with
    | zero => simp [sequence?] at h
    | succ n =>
      cases n with
      | zero => simp [sequence?, operand?] at h
      | succ n => simp [sequence?, operand?, ht, single?] at h

theorem ReadsOperand.sequence {first : Expr} {rest : List (BinaryOp × Expr)}
    (h : ReadsOperand first) (hrest : ReadsOperations rest) :
    ReadsSequence (joined first rest) := by
  intro ts hts n others hn hothers
  rw [meanings_joined] at hts
  obtain ⟨us, vs, rfl, hus, hvs⟩ := says_append_iff.mp hts
  have hpos := length_meanings_pos first
  rw [← hus.length_eq] at hpos
  rw [List.length_append] at hn
  obtain ⟨n, rfl⟩ : ∃ m, n = m + 1 := Nat.exists_eq_add_one.mpr (by omega)
  have hread := h us hus n (vs.map corrected ++ others) (by omega)
  have hreadRest := hrest vs hvs n others (by omega) hothers
  simp [sequence?, hread, hreadRest]

theorem readsOperations_nil : ReadsOperations [] := by
  intro ts hts n rest hn hrest
  obtain rfl := says_nil_iff.mp hts
  obtain ⟨n, rfl⟩ : ∃ m, n = m + 1 := Nat.exists_eq_add_one.mpr (by simp at hn; omega)
  cases rest with
  | nil => rfl
  | cons t rest => exact if_neg (hrest t rfl)

theorem ReadsOperand.operation {op : BinaryOp} {e : Expr} {rest : List (BinaryOp × Expr)}
    (h : ReadsOperand e) (hrest : ReadsOperations rest) : ReadsOperations ((op, e) :: rest) := by
  intro ts hts n others hn hothers
  obtain ⟨t, ts, rfl, ht, hts⟩ := says_cons_iff.mp hts
  obtain ⟨us, vs, rfl, hus, hvs⟩ := says_append_iff.mp hts
  obtain ⟨hkind, hsymbol⟩ := kind_of_binary ht
  simp only [List.length_cons, List.length_append] at hn
  obtain ⟨n, rfl⟩ : ∃ m, n = m + 1 := Nat.exists_eq_add_one.mpr (by omega)
  have hread := h us hus n (vs.map corrected ++ others) (by omega)
  have hreadRest := hrest vs hvs n others (by omega) hothers
  simp [operations?, hkind, hsymbol, hread, hreadRest]

theorem readsOperand_of_single {e : Expr} {m : Meaning} (he : e.meanings = [m])
    (h : ∀ t : Token, t.meaning? = some m → t.kind.isOperand = true ∧ single? t = some e) :
    ReadsOperand e := by
  intro ts hts n rest hn
  rw [he] at hts
  obtain ⟨t, us, rfl, ht, hus⟩ := says_cons_iff.mp hts
  obtain rfl := says_nil_iff.mp hus
  obtain ⟨hoperand, hsingle⟩ := h t ht
  obtain ⟨n, rfl⟩ : ∃ m, n = m + 1 := Nat.exists_eq_add_one.mpr (by simp at hn; omega)
  have hc : corrected t = t := corrected_of_ne fun hk ↦ by simp [hk, Kind.isOperand] at hoperand
  cases hk : t.kind <;> simp_all [Kind.isOperand, operand?]

theorem ReadsOperand.unary {op : UnaryOp} {e : Expr} (h : ReadsOperand e) :
    ReadsOperand (.unary op e) := by
  intro ts hts n rest hn
  obtain ⟨t, us, rfl, ht, hus⟩ := says_cons_iff.mp hts
  obtain ⟨hkind, hsymbol⟩ := kind_of_unary ht
  rw [List.length_cons] at hn
  obtain ⟨n, rfl⟩ : ∃ m, n = m + 1 := Nat.exists_eq_add_one.mpr (by omega)
  have hc : corrected t = t := corrected_of_ne (by simp [hkind])
  simp [operand?, hc, hkind, hsymbol, h us hus n rest (by omega)]

/-- A sequence in parentheses. -/
theorem ReadsSequence.enclosed {e : Expr} (h : ReadsSequence e) {ts : List Token}
    (hts : Says ts (.openParen :: (e.meanings ++ [.closeParen]))) :
    ∃ o us, ts = o :: us ∧ (corrected o).kind = .openParen ∧
      ∀ n rest, 2 * us.length ≤ n + 1 → ∃ others,
        sequence? n (us.map corrected ++ rest) = some (e, others) ∧
          skip? .closeParen others = some rest := by
  obtain ⟨o, vs, c, rfl, hopen, hvs, hclose⟩ := exists_of_says_enclosed hts
  have hco : corrected o = o := corrected_of_ne (by simp [hopen])
  have hcc : corrected c = c := corrected_of_ne (by simp [hclose])
  refine ⟨o, vs ++ [c], rfl, by rw [hco, hopen], fun n rest hn ↦ ⟨c :: rest, ?_, ?_⟩⟩
  · simp only [List.length_append, List.length_cons, List.length_nil] at hn
    have hread := h vs hvs n (c :: rest) (by omega) (noOperator_of_kind hclose rest)
    simpa [hcc] using hread
  · exact skip?_of_kind hclose rest

theorem ReadsSequence.group {e : Expr} (h : ReadsSequence e) : ReadsOperand (.group e) := by
  intro ts hts n rest hn
  obtain ⟨o, us, rfl, ho, hread⟩ := h.enclosed hts
  rw [List.length_cons] at hn
  obtain ⟨n, rfl⟩ : ∃ m, n = m + 1 := Nat.exists_eq_add_one.mpr (by omega)
  obtain ⟨others, hinner, hskip⟩ := hread n rest (by omega)
  simp [operand?, ho, hinner, hskip]

theorem ReadsSequence.call {f : Function} {e : Expr} (h : ReadsSequence e) :
    ReadsOperand (.call f (some e)) := by
  intro ts hts n rest hn
  obtain ⟨t, vs, rfl, ht, hvs⟩ := says_cons_iff.mp hts
  obtain ⟨hkind, hname⟩ := kind_of_function ht
  obtain ⟨o, us, rfl, ho, hread⟩ := h.enclosed hvs
  simp only [List.length_cons] at hn
  obtain ⟨n, rfl⟩ : ∃ m, n = m + 1 := Nat.exists_eq_add_one.mpr (by omega)
  obtain ⟨others, hinner, hskip⟩ := hread n rest (by omega)
  have hc : corrected t = t := corrected_of_ne (by simp [hkind])
  simp [operand?, hc, hkind, hname, skip?_of_kind ho, skip?_of_sequence? hinner, hinner, hskip]

theorem readsOperand_emptyCall (f : Function) : ReadsOperand (.call f none) := by
  intro ts hts n rest hn
  obtain ⟨t, us, rfl, ht, hus⟩ := says_cons_iff.mp hts
  obtain ⟨o, c, rfl, hopen, hclose⟩ := exists_of_says_parentheses hus
  obtain ⟨hkind, hname⟩ := kind_of_function ht
  obtain ⟨n, rfl⟩ : ∃ m, n = m + 1 := Nat.exists_eq_add_one.mpr (by simp at hn; omega)
  have hct : corrected t = t := corrected_of_ne (by simp [hkind])
  have hco : corrected o = o := corrected_of_ne (by simp [hopen])
  have hcc : corrected c = c := corrected_of_ne (by simp [hclose])
  simp [operand?, hct, hco, hcc, hkind, hname, skip?_of_kind hopen, skip?_of_kind hclose]

/-- An expression is read as a sequence, and as an operand if it is one. -/
structure ReadsBack (e : Expr) : Prop where
  operand : e.IsOperand → ReadsOperand e
  sequence : ReadsSequence e

theorem ReadsOperand.readsBack {e : Expr} (h : ReadsOperand e) : ReadsBack e where
  operand _ := h
  sequence := h.sequence readsOperations_nil

mutual

/-- An expression of the grammar is read back from what it says. -/
theorem readsBack : ∀ {e : Expr}, e.WellFormed → ReadsBack e
  | .path _, _ => (readsOperand_of_single rfl fun _ ↦ single?_of_path).readsBack
  | .literal _, _ => (readsOperand_of_single rfl fun _ ↦ single?_of_literal).readsBack
  | .call f none, _ => (readsOperand_emptyCall f).readsBack
  | .call _ (some arg), h => (readsBack (e := arg) h).sequence.call.readsBack
  | .unary _ _, h => ((readsBack h.1).operand h.2).unary.readsBack
  | .group inner, h => (readsBack (e := inner) h).sequence.group.readsBack
  | .chain _ (_ :: _), h =>
    ⟨fun hchain ↦ hchain.elim,
      ((readsBack h.1).operand h.2.1).sequence (readsOperations h.2.2.2)⟩
  | .chain _ [], h => absurd rfl h.2.2.1

theorem readsOperations : ∀ {rest : List (BinaryOp × Expr)}, Expr.WellFormedRest rest →
    ReadsOperations rest
  | [], _ => readsOperations_nil
  | (_, _) :: _, h => ((readsBack h.1).operand h.2.1).operation (readsOperations h.2.2)

end

/-- Tokens are built into an expression if and only if they say what it says and it is one of the
grammar. -/
theorem build?_eq_some_iff {ts : List Token} {e : Expr} :
    build? (ts.map corrected) = some e ↔ Says ts e.meanings ∧ e.WellFormed := by
  constructor
  · intro h
    obtain ⟨hsaid, hgood⟩ := says_of_build? h
    exact ⟨says_map_corrected.mp hsaid, hgood⟩
  · rintro ⟨hsaid, hgood⟩
    refine build?_of_sequence? fun n hn ↦ ?_
    have hread := (readsBack hgood).sequence ts hsaid n [] (by simpa using hn) noOperator_nil
    rwa [List.append_nil] at hread

end Condition

end Stencil
