import Stencil.Proofs.Checking
import Stencil.Proofs.Operands
import Stencil.Proofs.Tokens

/-!
# What a condition says

The reader by descent and the reader that checks the grammar agree: what is checked without an
error is built into an expression, and no token of it is left. Nothing is lost on the way, because
the expression says, from left to right, what the tokens say. A token may be spelled in more than
one way, so the two are compared by `Condition.Meaning`.

## Main definitions

* `Condition.Meaning`: what a token says apart from its spelling.
* `Token.meaning?`, `Expr.meanings`: what a token says, and what an expression says.
* `Condition.Builds`: a part of a condition is built into something that says the same.

## Main results

* `Token.Known.meaning?_isSome`: every token of a source says something.
* `Condition.builds_of_derives`: a sentence is built into an expression that says the same.
* `Condition.derives_of_build?`: what is built is a sentence.
* `Condition.readers_agree`: the two readers accept the same conditions of a source.
-/

namespace Stencil

open Token (Kind)

/-- What a token says apart from its spelling. -/
inductive Condition.Meaning
  | path (p : Path)
  | literal (v : Value)
  | binary (op : BinaryOp)
  | unary (op : UnaryOp)
  | function (f : Function)
  | openParen
  | closeParen

open Condition (Meaning)

/-- What a token says. A single equals sign says that two operands are equal. -/
def Token.meaning? (t : Token) : Option Meaning :=
  match t.kind with
  | .path => (Path.compile? t.text).map .path
  | .quoted => some (.literal (.text (String.ofList (Text.unquote t.text))))
  | .number => (Value.ofNumeral? t.text).map .literal
  | .truth => some (.literal (.bool (t.symbol == "true")))
  | .binary => (BinaryOp.ofSymbol? t.symbol).map .binary
  | .unary => (UnaryOp.ofSymbol? t.symbol).map .unary
  | .word => (Function.ofName? t.symbol).map .function
  | .openParen => some .openParen
  | .closeParen => some .closeParen
  | .assign => some (.binary .eq)
  | .close | .other => none

mutual

/-- What an expression says, from left to right. -/
def Expr.meanings : Expr → List Meaning
  | .path p => [.path p]
  | .literal v => [.literal v]
  | .call f (some arg) => .function f :: .openParen :: (arg.meanings ++ [.closeParen])
  | .call f none => [.function f, .openParen, .closeParen]
  | .unary op operand => .unary op :: operand.meanings
  | .chain first rest => first.meanings ++ Expr.meaningsRest rest
  | .group inner => .openParen :: (inner.meanings ++ [.closeParen])

/-- What the operators and operands after the first say. -/
def Expr.meaningsRest : List (BinaryOp × Expr) → List Meaning
  | [] => []
  | (op, e) :: rest => .binary op :: (e.meanings ++ Expr.meaningsRest rest)

end

/-! ### Every token of a source says something -/

namespace Token

theorem meaning?_isSome_of_symbol {t : Token} (h : symbolKind? t.symbol = some t.kind) :
    t.meaning?.isSome := by
  unfold symbolKind? at h
  unfold meaning?
  split at h
  · rename_i hop
    rw [← Option.some.inj h]
    simpa using hop
  split at h
  · rename_i hop
    rw [← Option.some.inj h]
    simpa using hop
  split at h
  · rw [← Option.some.inj h]
    rfl
  split at h
  · rw [← Option.some.inj h]
    rfl
  split at h
  · rw [← Option.some.inj h]
    rfl
  · simp at h

/-- A token of a source says something, unless it is a word that names no function. -/
theorem Known.meaning?_isSome {t : Token} (ht : t.Known)
    (hword : t.kind = .word → (Function.ofName? t.symbol).isSome) : t.meaning?.isSome := by
  obtain ⟨cs, l, hl, hkind, htext⟩ := ht
  rcases known?_eq_some hl with ⟨n, hn, rfl⟩ | ⟨n, -, rfl⟩ | ⟨n, hn, rfl⟩ | h | h
  · have hpath := Path.compile?_of_pathLength? hn
    rw [← htext] at hpath
    simpa [meaning?, hkind] using hpath
  · simp [meaning?, hkind]
  · have hnumber := Value.ofNumeral?_of_numberLength? hn
    rw [← htext] at hnumber
    simpa [meaning?, hkind] using hnumber
  · obtain ⟨-, -, -, -, rfl⟩ := word?_eq_some h
    simp only [wordKind] at hkind
    split at hkind
    · simp [meaning?, hkind]
    · simpa [meaning?, hkind] using hword hkind
  · refine meaning?_isSome_of_symbol ?_
    rw [symbol, htext, hkind]
    exact (symbol?_eq_some h).2

theorem Known.spellsPath {t : Token} (ht : t.Known) : Condition.SpellsPath t := by
  intro hpath
  have hsome := ht.meaning?_isSome (by simp [hpath])
  simpa [meaning?, hpath] using hsome

end Token

namespace Condition

/-! ### The tokens of a sentence -/

theorem corrected_of_ne {t : Token} (ht : t.kind ≠ .assign) : corrected t = t :=
  if_neg ht

/-- Putting a single equals sign right does not change what it says. -/
theorem meaning?_corrected (t : Token) : (corrected t).meaning? = t.meaning? := by
  by_cases ht : t.kind = .assign
  · rw [corrected, if_pos ht]
    have heq : BinaryOp.ofSymbol? (String.ofList ['=', '=']) = some .eq := by decide
    simp only [Token.meaning?, equality, ht, Token.symbol, heq, Option.map_some]
  · rw [corrected_of_ne ht]

theorem map_meaning?_corrected (ts : List Token) :
    (ts.map corrected).map Token.meaning? = ts.map Token.meaning? := by
  rw [List.map_map]
  exact List.map_congr_left fun t _ ↦ meaning?_corrected t

/-- No operand and no sequence begins with the end of a group. -/
theorem Derives.skip?_closeParen {p : Part} {ts : List Token} (h : Derives p ts)
    (hp : p ≠ .operations) (rest : List Token) :
    skip? .closeParen (ts.map corrected ++ rest) = none := by
  have hfirst {t : Token} (us : List Token) (ht : (corrected t).kind ≠ .closeParen) :
      skip? .closeParen (corrected t :: us) = none := if_neg ht
  induction h generalizing rest with
  | @single t ht =>
    refine hfirst _ ?_
    cases hk : t.kind <;> simp_all [Kind.isOperand, corrected]
  | unary ht => exact hfirst _ (by simp [corrected, ht])
  | group ho => exact hfirst _ (by simp [corrected, ho])
  | emptyCall hf => exact hfirst _ (by simp [corrected, hf.1])
  | call hf => exact hfirst _ (by simp [corrected, hf.1])
  | sequence h hr ih _ =>
    rw [List.map_append, List.append_assoc]
    exact ih (by decide) _
  | stop => exact absurd rfl hp
  | operation => exact absurd rfl hp

/-! ### Reading by descent -/

/-- Some tokens that do not go on with an operator. -/
def NoOperator (ts : List Token) : Prop :=
  ∀ t, ts.head? = some t → t.kind ≠ .binary

/-- A part of a condition is built into something that says the same, whatever comes behind it and
with any bound on the steps that is large enough. -/
def Builds : Part → List Token → Prop
  | .operand, ts => ∃ e : Expr, ts.map Token.meaning? = e.meanings.map some ∧
      ∀ n rest, 2 * ts.length ≤ n → operand? n (ts.map corrected ++ rest) = some (e, rest)
  | .sequence, ts => ∃ e : Expr, ts.map Token.meaning? = e.meanings.map some ∧
      ∀ n rest, 2 * ts.length + 1 ≤ n → NoOperator rest →
        sequence? n (ts.map corrected ++ rest) = some (e, rest)
  | .operations, ts => ∃ es, ts.map Token.meaning? = (Expr.meaningsRest es).map some ∧
      ∀ n rest, 2 * ts.length + 1 ≤ n → NoOperator rest →
        operations? n (ts.map corrected ++ rest) = some (es, rest)

theorem meanings_joined (first : Expr) (rest : List (BinaryOp × Expr)) :
    (joined first rest).meanings = first.meanings ++ Expr.meaningsRest rest := by
  cases rest with
  | nil => simp [joined, Expr.meaningsRest]
  | cons r rest => simp [joined, Expr.meanings]

/-- A token that is an operand on its own is built into what it says. -/
theorem single?_of_isOperand {t : Token} (ht : t.kind.isOperand = true)
    (hm : t.meaning?.isSome) :
    ∃ e : Expr, single? t = some e ∧ [t.meaning?] = e.meanings.map some := by
  cases hk : t.kind <;> simp only [hk, Kind.isOperand, Bool.false_eq_true] at ht
  · simp only [Token.meaning?, hk, Option.isSome_map] at hm
    obtain ⟨p, hp⟩ := Option.isSome_iff_exists.mp hm
    exact ⟨.path p, by simp [single?, hk, hp], by simp [Token.meaning?, hk, hp, Expr.meanings]⟩
  · exact ⟨.literal (.text (String.ofList (Text.unquote t.text))), by simp only [single?, hk],
      by simp [Token.meaning?, hk, Expr.meanings]⟩
  · simp only [Token.meaning?, hk, Option.isSome_map] at hm
    obtain ⟨v, hv⟩ := Option.isSome_iff_exists.mp hm
    exact ⟨.literal v, by simp [single?, hk, hv], by simp [Token.meaning?, hk, hv, Expr.meanings]⟩
  · exact ⟨.literal (.bool (t.symbol == "true")), by simp only [single?, hk],
      by simp [Token.meaning?, hk, Expr.meanings]⟩

theorem noOperator_of_kind {t : Token} (ht : t.kind = .closeParen) (ts : List Token) :
    NoOperator (t :: ts) := by
  rintro u ⟨⟩
  simp [ht]

theorem noOperator_nil : NoOperator [] := by
  rintro u ⟨⟩

theorem skip?_of_kind {t : Token} {k : Kind} (ht : t.kind = k) (ts : List Token) :
    skip? k (t :: ts) = some ts :=
  if_pos ht

theorem Builds.single {t : Token} (ht : t.kind.isOperand = true) (hm : t.meaning?.isSome) :
    Builds .operand [t] := by
  obtain ⟨e, he, hsays⟩ := single?_of_isOperand ht hm
  refine ⟨e, hsays, fun n rest hn ↦ ?_⟩
  obtain ⟨n, rfl⟩ : ∃ m, n = m + 1 := Nat.exists_eq_add_one.mpr (by simp at hn; omega)
  have hc : corrected t = t := corrected_of_ne (by cases hk : t.kind <;> simp_all [Kind.isOperand])
  cases hk : t.kind <;> simp_all [Kind.isOperand, operand?]

theorem Builds.unary {t : Token} {ts : List Token} (ht : t.kind = .unary)
    (hm : t.meaning?.isSome) (h : Builds .operand ts) : Builds .operand (t :: ts) := by
  obtain ⟨e, hsays, hreads⟩ := h
  simp only [Token.meaning?, ht, Option.isSome_map] at hm
  obtain ⟨op, hop⟩ := Option.isSome_iff_exists.mp hm
  refine ⟨.unary op e, by simp [Expr.meanings, Token.meaning?, ht, hop, hsays], ?_⟩
  intro n rest hn
  rw [List.length_cons] at hn
  obtain ⟨n, rfl⟩ : ∃ m, n = m + 1 := Nat.exists_eq_add_one.mpr (by omega)
  have hc : corrected t = t := corrected_of_ne (by simp [ht])
  simp [operand?, hc, ht, hop, hreads n rest (by omega)]

theorem Builds.group {o c : Token} {ts : List Token} (ho : o.kind = .openParen)
    (h : Builds .sequence ts) (hc : c.kind = .closeParen) :
    Builds .operand (o :: (ts ++ [c])) := by
  obtain ⟨e, hsays, hreads⟩ := h
  refine ⟨.group e, by simp [Expr.meanings, Token.meaning?, ho, hc, hsays], ?_⟩
  intro n rest hn
  simp only [List.length_cons, List.length_append, List.length_nil] at hn
  obtain ⟨n, rfl⟩ : ∃ m, n = m + 1 := Nat.exists_eq_add_one.mpr (by omega)
  have hco : corrected o = o := corrected_of_ne (by simp [ho])
  have hcc : corrected c = c := corrected_of_ne (by simp [hc])
  have hinner := hreads n (c :: rest) (by omega) (noOperator_of_kind hc rest)
  simp [operand?, hco, hcc, ho, hinner, skip?_of_kind hc]

theorem Builds.emptyCall {f o c : Token} (hf : NamesFunction f) (ho : o.kind = .openParen)
    (hc : c.kind = .closeParen) : Builds .operand [f, o, c] := by
  obtain ⟨g, hg⟩ := Option.isSome_iff_exists.mp hf.2
  refine ⟨.call g none, by simp [Expr.meanings, Token.meaning?, hf.1, hg, ho, hc], ?_⟩
  intro n rest hn
  obtain ⟨n, rfl⟩ : ∃ m, n = m + 1 := Nat.exists_eq_add_one.mpr (by simp at hn; omega)
  have hcf : corrected f = f := corrected_of_ne (by simp [hf.1])
  have hco : corrected o = o := corrected_of_ne (by simp [ho])
  have hcc : corrected c = c := corrected_of_ne (by simp [hc])
  simp [operand?, hcf, hco, hcc, hf.1, hg, skip?_of_kind ho, skip?_of_kind hc]

theorem Builds.call {f o c : Token} {ts : List Token} (hf : NamesFunction f)
    (ho : o.kind = .openParen) (h : Builds .sequence ts)
    (hfirst : ∀ rest, skip? .closeParen (ts.map corrected ++ rest) = none)
    (hc : c.kind = .closeParen) : Builds .operand (f :: o :: (ts ++ [c])) := by
  obtain ⟨e, hsays, hreads⟩ := h
  obtain ⟨g, hg⟩ := Option.isSome_iff_exists.mp hf.2
  refine ⟨.call g (some e), by simp [Expr.meanings, Token.meaning?, hf.1, hg, ho, hc, hsays], ?_⟩
  intro n rest hn
  simp only [List.length_cons, List.length_append, List.length_nil] at hn
  obtain ⟨n, rfl⟩ : ∃ m, n = m + 1 := Nat.exists_eq_add_one.mpr (by omega)
  have hcf : corrected f = f := corrected_of_ne (by simp [hf.1])
  have hco : corrected o = o := corrected_of_ne (by simp [ho])
  have hcc : corrected c = c := corrected_of_ne (by simp [hc])
  have hinner := hreads n (c :: rest) (by omega) (noOperator_of_kind hc rest)
  have hskip := hfirst (c :: rest)
  simp [operand?, hcf, hco, hcc, hf.1, hg, skip?_of_kind ho, skip?_of_kind hc, hskip, hinner]

theorem Builds.operation {t : Token} {ts us : List Token} (ht : IsOperator t)
    (hm : t.meaning?.isSome) (h : Builds .operand ts) (hr : Builds .operations us) :
    Builds .operations (t :: (ts ++ us)) := by
  obtain ⟨e, hsays, hreads⟩ := h
  obtain ⟨es, hsaysRest, hreadsRest⟩ := hr
  obtain ⟨op, hop⟩ : ∃ op, t.meaning? = some (.binary op) := by
    rcases ht with ht | ht
    · simp only [Token.meaning?, ht, Option.isSome_map] at hm ⊢
      obtain ⟨op, hop⟩ := Option.isSome_iff_exists.mp hm
      exact ⟨op, by rw [hop, Option.map_some]⟩
    · exact ⟨.eq, by simp [Token.meaning?, ht]⟩
  have hkind : (corrected t).kind = .binary := by
    rcases ht with ht | ht <;> simp [corrected, ht, equality]
  have hsymbol : BinaryOp.ofSymbol? (corrected t).symbol = some op := by
    rw [← meaning?_corrected] at hop
    simpa [Token.meaning?, hkind] using hop
  refine ⟨(op, e) :: es, by simp [Expr.meaningsRest, hop, hsays, hsaysRest], ?_⟩
  intro n rest hn hrest
  simp only [List.length_cons, List.length_append] at hn
  obtain ⟨n, rfl⟩ : ∃ m, n = m + 1 := Nat.exists_eq_add_one.mpr (by omega)
  have hoperand := hreads n (us.map corrected ++ rest) (by omega)
  have hothers := hreadsRest n rest (by omega) hrest
  simp [operations?, hkind, hsymbol, hoperand, hothers]

theorem Builds.stop : Builds .operations [] := by
  refine ⟨[], rfl, fun n rest hn hrest ↦ ?_⟩
  obtain ⟨n, rfl⟩ : ∃ m, n = m + 1 := Nat.exists_eq_add_one.mpr (by simp at hn; omega)
  cases rest with
  | nil => rfl
  | cons t rest => exact if_neg (hrest t rfl)

theorem Builds.sequence {ts us : List Token} (hne : ts ≠ []) (h : Builds .operand ts)
    (hr : Builds .operations us) : Builds .sequence (ts ++ us) := by
  obtain ⟨e, hsays, hreads⟩ := h
  obtain ⟨es, hsaysRest, hreadsRest⟩ := hr
  refine ⟨joined e es, by simp [meanings_joined, hsays, hsaysRest], ?_⟩
  intro n rest hn hrest
  have hpos := List.length_pos_iff.mpr hne
  rw [List.length_append] at hn
  obtain ⟨n, rfl⟩ : ∃ m, n = m + 1 := Nat.exists_eq_add_one.mpr (by omega)
  have hoperand := hreads n (us.map corrected ++ rest) (by omega)
  have hothers := hreadsRest n rest (by omega) hrest
  simp [sequence?, hoperand, hothers]

/-- A part of a condition whose tokens all say something is built into something that says the
same. -/
theorem builds_of_derives {p : Part} {ts : List Token} (h : Derives p ts)
    (hm : ∀ t ∈ ts, t.meaning?.isSome) : Builds p ts := by
  induction h with
  | single ht => exact .single ht (hm _ (by simp))
  | unary ht h ih => exact .unary ht (hm _ (by simp)) (ih fun u hu ↦ hm u (by simp [hu]))
  | group ho h hc ih => exact .group ho (ih fun u hu ↦ hm u (by simp [hu])) hc
  | emptyCall hf ho hc => exact .emptyCall hf ho hc
  | call hf ho h hc ih =>
    exact .call hf ho (ih fun u hu ↦ hm u (by simp [hu]))
      (h.skip?_closeParen (by decide)) hc
  | sequence h hr ih ihr =>
    exact .sequence (h.ne_nil (by decide)) (ih fun u hu ↦ hm u (by simp [hu]))
      (ihr fun u hu ↦ hm u (by simp [hu]))
  | stop => exact .stop
  | operation ht h hr ih ihr =>
    exact .operation ht (hm _ (by simp)) (ih fun u hu ↦ hm u (by simp [hu]))
      (ihr fun u hu ↦ hm u (by simp [hu]))

/-! ### What is read by descent is a sentence -/

/-- A part of a condition stands at the start of some tokens, with the rest behind it. -/
def Consumes (p : Part) (ts rest : List Token) : Prop :=
  ∃ us, ts = us ++ rest ∧ Derives p us

theorem eq_cons_of_skip? {k : Kind} {ts rest : List Token} (h : skip? k ts = some rest) :
    ∃ t, ts = t :: rest ∧ t.kind = k := by
  cases ts with
  | nil => simp [skip?] at h
  | cons t ts =>
    simp only [skip?] at h
    split at h
    · exact ⟨t, by rw [Option.some.inj h], ‹_›⟩
    · simp at h

theorem isOperand_of_single? {t : Token} {e : Expr} (h : single? t = some e) :
    t.kind.isOperand = true := by
  unfold single? at h
  cases hk : t.kind <;> simp_all [Kind.isOperand]

/-- A reader takes parts of conditions and nothing else. -/
def Takes {α : Type} (p : Part) (read : List Token → Option (α × List Token)) : Prop :=
  ∀ ts a rest, read ts = some (a, rest) → Consumes p ts rest

variable {n : Nat}

theorem takes_operand (hoperand : Takes .operand (operand? n))
    (hsequence : Takes .sequence (sequence? n)) : Takes .operand (operand? (n + 1)) := by
  intro ts e rest h
  cases ts with
  | nil => simp [operand?] at h
  | cons t ts =>
    simp only [operand?, Option.pure_def] at h
    split at h
    · rename_i hk
      simp only [Option.bind_eq_bind, Option.bind_eq_some_iff] at h
      obtain ⟨op, -, ⟨e', ts'⟩, hinner, heq⟩ := h
      obtain ⟨-, rfl⟩ := Prod.mk.inj (Option.some.inj heq)
      obtain ⟨us, rfl, hus⟩ := hoperand _ _ _ hinner
      exact ⟨t :: us, rfl, .unary hk hus⟩
    · rename_i hk
      simp only [Option.bind_eq_bind, Option.bind_eq_some_iff] at h
      obtain ⟨⟨e', ts'⟩, hinner, ts'', hskip, heq⟩ := h
      obtain ⟨-, rfl⟩ := Prod.mk.inj (Option.some.inj heq)
      obtain ⟨us, rfl, hus⟩ := hsequence _ _ _ hinner
      obtain ⟨c, rfl, hc⟩ := eq_cons_of_skip? hskip
      exact ⟨t :: (us ++ [c]), by simp, .group hk hus hc⟩
    · rename_i hk
      simp only [Option.bind_eq_bind, Option.bind_eq_some_iff] at h
      obtain ⟨f, hf, ts', hskip, h⟩ := h
      obtain ⟨o, rfl, ho⟩ := eq_cons_of_skip? hskip
      have hname : NamesFunction t := ⟨hk, Option.isSome_iff_exists.mpr ⟨f, hf⟩⟩
      split at h
      · rename_i ts'' hclose
        obtain ⟨-, rfl⟩ := Prod.mk.inj (Option.some.inj h)
        obtain ⟨c, rfl, hc⟩ := eq_cons_of_skip? hclose
        exact ⟨[t, o, c], rfl, .emptyCall hname ho hc⟩
      · simp only [Option.bind_eq_some_iff] at h
        obtain ⟨⟨e', ts''⟩, hinner, others, hclose, heq⟩ := h
        obtain ⟨-, rfl⟩ := Prod.mk.inj (Option.some.inj heq)
        obtain ⟨us, rfl, hus⟩ := hsequence _ _ _ hinner
        obtain ⟨c, rfl, hc⟩ := eq_cons_of_skip? hclose
        exact ⟨t :: o :: (us ++ [c]), by simp, .call hname ho hus hc⟩
    · simp only [Option.bind_eq_bind, Option.bind_eq_some_iff] at h
      obtain ⟨e', hsingle, heq⟩ := h
      obtain ⟨-, rfl⟩ := Prod.mk.inj (Option.some.inj heq)
      exact ⟨[t], rfl, .single (isOperand_of_single? hsingle)⟩

theorem takes_sequence (hoperand : Takes .operand (operand? n))
    (hoperations : Takes .operations (operations? n)) : Takes .sequence (sequence? (n + 1)) := by
  intro ts e rest h
  simp only [sequence?, Option.pure_def, Option.bind_eq_bind, Option.bind_eq_some_iff] at h
  obtain ⟨⟨first, ts'⟩, hfirst, ⟨others, ts''⟩, hothers, heq⟩ := h
  obtain ⟨-, rfl⟩ := Prod.mk.inj (Option.some.inj heq)
  obtain ⟨us, rfl, hus⟩ := hoperand _ _ _ hfirst
  obtain ⟨vs, rfl, hvs⟩ := hoperations _ _ _ hothers
  exact ⟨us ++ vs, by simp, .sequence hus hvs⟩

theorem takes_operations (hoperand : Takes .operand (operand? n))
    (hoperations : Takes .operations (operations? n)) :
    Takes .operations (operations? (n + 1)) := by
  intro ts es rest h
  cases ts with
  | nil =>
    obtain ⟨-, rfl⟩ := Prod.mk.inj (Option.some.inj h)
    exact ⟨[], rfl, .stop⟩
  | cons t ts =>
    simp only [operations?, Option.pure_def] at h
    split at h
    · rename_i hk
      simp only [Option.bind_eq_bind, Option.bind_eq_some_iff] at h
      obtain ⟨op, -, ⟨e, ts'⟩, hfirst, ⟨others, ts''⟩, hothers, heq⟩ := h
      obtain ⟨-, rfl⟩ := Prod.mk.inj (Option.some.inj heq)
      obtain ⟨us, rfl, hus⟩ := hoperand _ _ _ hfirst
      obtain ⟨vs, rfl, hvs⟩ := hoperations _ _ _ hothers
      exact ⟨t :: (us ++ vs), by simp, .operation (Or.inl hk) hus hvs⟩
    · obtain ⟨-, rfl⟩ := Prod.mk.inj (Option.some.inj h)
      exact ⟨[], rfl, .stop⟩

/-- What the readers by descent take are parts of a condition, with any bound on the steps. -/
theorem takes_of_descent (n : Nat) : Takes .operand (operand? n) ∧ Takes .sequence (sequence? n) ∧
    Takes .operations (operations? n) := by
  induction n with
  | zero => simp [Takes, operand?, sequence?, operations?]
  | succ n ih =>
    obtain ⟨hoperand, hsequence, hoperations⟩ := ih
    exact ⟨takes_operand hoperand hsequence, takes_sequence hoperand hoperations,
      takes_operations hoperand hoperations⟩

/-- Tokens that are built into an expression are a sentence. -/
theorem derives_of_build? {ts : List Token} {e : Expr} (h : build? ts = some e) :
    Derives .sequence ts := by
  unfold build? at h
  split at h
  · rename_i e' hread
    obtain ⟨us, rfl, hus⟩ := (takes_of_descent _).2.1 _ _ _ hread
    rw [List.append_nil]
    exact hus
  · simp at h

/-! ### The two readers agree -/

theorem alike_examine (s : State) (last : Bool) (t : Token) :
    Alike (examine s last t).token t := by
  by_cases hk : t.kind = .assign
  · simp only [examine, hk, assign]
    split
    · exact Or.inl ⟨Or.inl rfl, Or.inr hk⟩
    · exact Or.inr ⟨rfl, rfl⟩
  · have htoken : (examine s last t).token = t := by
      unfold examine
      split <;> first | rfl | contradiction
    rw [htoken]
    exact Or.inr ⟨rfl, rfl⟩

/-- What the reader makes of the tokens is alike, in any state and with any faults. -/
theorem alike_check (s : State) (ts : List Token) : List.Forall₂ Alike (check s ts).1 ts := by
  induction ts generalizing s with
  | nil => exact .nil
  | cons t ts ih => exact .cons (alike_examine s _ t) (ih _)

variable {right : List Char} {c : Text.Cursor} {body : List Token}

/-- What the scan finds before the right delimiter is known, or something else. -/
theorem known_of_mem_takeWhile {t : Token}
    (ht : t ∈ (Token.scan right c).1.takeWhile (·.kind ≠ .close)) (hother : t.kind ≠ .other) :
    t.Known := by
  have hclose : t.kind ≠ .close := by simpa using List.mem_takeWhile_imp ht
  exact Token.known_of_mem_scan ((List.takeWhile_prefix _).subset ht) hclose hother

/-- The tokens of a sentence that a source holds are built into an expression that says the
same. -/
theorem builds_of_scan
    (hbody : (Token.scan right c).1.takeWhile (·.kind ≠ .close) = body)
    (h : Derives .sequence body) : Builds .sequence body := by
  refine builds_of_derives h fun t ht ↦ ?_
  obtain ⟨-, hother, hword⟩ := h.belongs t ht
  rw [← hbody] at ht
  exact (known_of_mem_takeWhile ht hother).meaning?_isSome hword

/-- A sentence that a source holds is checked with warnings alone. -/
theorem check_of_scan
    (hbody : (Token.scan right c).1.takeWhile (·.kind ≠ .close) = body)
    (h : Derives .sequence body) : check .start body = (body.map corrected, warnings body) := by
  refine check_of_derives h fun t ht hpath ↦ ?_
  rw [← hbody] at ht
  exact (known_of_mem_takeWhile ht (by simp [hpath])).spellsPath hpath

/-- With a large enough bound on the steps, the sequence that is built takes every token. -/
theorem build?_of_sequence? {ts : List Token} {e : Expr}
    (h : ∀ n, 2 * ts.length + 1 ≤ n → sequence? n ts = some (e, [])) : build? ts = some e := by
  rw [build?, h _ (by omega)]

/-- The reader that checks and the reader by descent accept the same conditions of a source, the
sentences of the grammar. A condition that is accepted is built into an expression that says, token
by token, what the condition says; only the limit of nesting can still speak against it. -/
theorem readers_agree
    (hbody : (Token.scan right c).1.takeWhile (·.kind ≠ .close) = body) (hne : body ≠ [])
    (hbal : count .openParen body = count .closeParen body) :
    (Log.hasErrors (check .start body).2 = false ↔ Derives .sequence body) ∧
    (Log.hasErrors (check .start body).2 = false ↔ (build? (check .start body).1).isSome) ∧
    (Log.hasErrors (check .start body).2 = false → ∃ e : Expr,
      (∀ n, 2 * body.length + 1 ≤ n → sequence? n (check .start body).1 = some (e, [])) ∧
      build? (check .start body).1 = some e ∧
      (check .start body).1.map Token.meaning? = e.meanings.map some ∧
      body.map Token.meaning? = e.meanings.map some ∧
      ((∃ t ∈ (Token.scan right c).1, t.kind = .close) →
        compile right c = match tooDeep? .start (check .start body).1 with
          | some t => (.rejected, (check .start body).2.record (fault .nestedTooDeep t))
          | none => (.accepted e (Token.scan right c).2, (check .start body).2))) := by
  have hclean : Log.hasErrors (check .start body).2 = false ↔ Derives .sequence body := by
    refine ⟨derives_of_check hne hbal, fun h ↦ ?_⟩
    rw [check_of_scan hbody h]
    exact hasErrors_warnings body
  have hbuilt (h : Derives .sequence body) : ∃ e : Expr,
      body.map Token.meaning? = e.meanings.map some ∧
      ∀ n, 2 * body.length + 1 ≤ n → sequence? n (body.map corrected) = some (e, []) := by
    obtain ⟨e, hsays, hreads⟩ := builds_of_scan hbody h
    refine ⟨e, hsays, fun n hn ↦ ?_⟩
    have hread := hreads n [] hn noOperator_nil
    rw [List.append_nil] at hread
    exact hread
  refine ⟨hclean, ⟨fun h ↦ ?_, fun h ↦ ?_⟩, fun h ↦ ?_⟩
  · have hsentence := hclean.mp h
    obtain ⟨e, -, hreads⟩ := hbuilt hsentence
    rw [check_of_scan hbody hsentence, build?_of_sequence? (by simpa using hreads)]
    rfl
  · obtain ⟨e, he⟩ := Option.isSome_iff_exists.mp h
    exact hclean.mpr ((derives_of_build? he).of_alike (alike_check _ _))
  · have hsentence := hclean.mp h
    obtain ⟨e, hsays, hreads⟩ := hbuilt hsentence
    have hbuild : build? (body.map corrected) = some e :=
      build?_of_sequence? (by simpa using hreads)
    rw [check_of_scan hbody hsentence]
    refine ⟨e, hreads, hbuild, (map_meaning?_corrected body).trans hsays, hsays, ?_⟩
    rintro ⟨t, ht, hclose⟩
    have hall : (Token.scan right c).1.all (·.kind ≠ .close) = false :=
      List.all_eq_false.mpr ⟨t, ht, by simp [hclose]⟩
    have hcompile : compile right c = compileBody c.offset body (Token.scan right c).2 := by
      simp only [compile, hall, Bool.false_eq_true, if_false, hbody, if_neg hne,
        if_neg (not_not.mpr hbal)]
    rw [hcompile, compileBody, check_of_scan hbody hsentence]
    cases hdeep : tooDeep? .start (body.map corrected) with
    | none => simp only [hasErrors_warnings, Bool.false_eq_true, if_false, hbuild, hdeep]
    | some t => simp only [hasErrors_warnings, Bool.false_eq_true, if_false, hdeep]

/-- A call compared by a single equals sign is a sentence, and is built. -/
theorem readers_agree_on_call :
    let body := (Token.scan ['\x7d'] (.ofText "length(%a) = 3\x7d".toList)).1.takeWhile
      (·.kind ≠ .close)
    Derives .sequence body ∧ (build? (check .start body).1).isSome := by
  have hagree := @readers_agree ['\x7d'] (.ofText "length(%a) = 3\x7d".toList) _ rfl
    (by decide +kernel) (by decide +kernel)
  have hclean : Log.hasErrors (check .start ((Token.scan ['\x7d']
      (.ofText "length(%a) = 3\x7d".toList)).1.takeWhile (·.kind ≠ .close))).2 = false := by
    decide +kernel
  exact ⟨hagree.1.mp hclean, hagree.2.1.mp hclean⟩

end Condition

end Stencil
