import Stencil.Proofs.Readings
import Stencil.Proofs.Tests

/-!
# How deep a condition is nested

The limit of nesting is checked on the tokens, with a counter for the unary operators that wait in
each open group. What it counts is the depth of the expression that is built afterwards: every
unary operator and every opening parenthesis opens the level at which it stands in the expression,
and the levels are given back exactly where an operand ends.

## Main definitions

* `Expr.levels`: the levels that an expression opens, from left to right.
* `Condition.Nesting.openings`: the tokens that open a level, and the levels counted at them.
* `Condition.Passes`: tokens lead from one nesting to another and open some levels on the way.

## Main results

* `Expr.forall_mem_levels`: the depth of an expression is its highest level.
* `Condition.passes_meanings`: the levels counted on the tokens are those of the expression.
* `Condition.accepts_iff`: which conditions are accepted, said of their expressions.
* `Condition.tooDeep?_measures_depth`: a condition is too deep if and only if its expression is.
-/

namespace Stencil

open Token (Kind)

/-- Whether a token opens a level: a unary operator or an opening parenthesis. -/
def Token.opens (t : Token) : Bool :=
  t.kind == .unary || t.kind == .openParen

/-! ### Levels of an expression -/

namespace Expr

mutual

/-- The levels that the unary operators and the parentheses of an expression open, from left to
right, with `k` levels open around it. -/
def levels (k : Nat) : Expr → List Nat
  | path _ | literal _ => []
  | call _ none => [k + 1]
  | call _ (some arg) => (k + 1) :: arg.levels (k + 1)
  | unary _ operand => (k + 1) :: operand.levels (k + 1)
  | chain first rest => first.levels k ++ levelsRest k rest
  | group inner => (k + 1) :: inner.levels (k + 1)

/-- The levels that the operands after the first open. -/
def levelsRest (k : Nat) : List (BinaryOp × Expr) → List Nat
  | [] => []
  | (_, e) :: rest => e.levels k ++ levelsRest k rest

end

theorem forall_mem_level_cons {k m d : Nat} {ls : List Nat}
    (h : k + 1 ≤ m → ((∀ l ∈ ls, l ≤ m) ↔ k + 1 + d ≤ m)) :
    (∀ l ∈ (k + 1) :: ls, l ≤ m) ↔ k + (d + 1) ≤ m := by
  rw [List.forall_mem_cons]
  constructor
  · rintro ⟨hk, hls⟩
    have := (h hk).mp hls
    omega
  · intro hd
    exact ⟨by omega, (h (by omega)).mpr (by omega)⟩

mutual

/-- The depth of an expression is its highest level. -/
theorem forall_mem_levels : ∀ (e : Expr) {k m : Nat}, k ≤ m →
    ((∀ l ∈ e.levels k, l ≤ m) ↔ k + e.depth ≤ m)
  | path _, _, _, h | literal _, _, _, h => by simpa [levels, depth] using h
  | call _ none, _, _, _ => by simp [levels, depth]
  | call _ (some arg), _, _, _ => forall_mem_level_cons fun h ↦ forall_mem_levels arg h
  | unary _ operand, _, _, _ => forall_mem_level_cons fun h ↦ forall_mem_levels operand h
  | group inner, _, _, _ => forall_mem_level_cons fun h ↦ forall_mem_levels inner h
  | chain first rest, k, m, h => by
    rw [levels, List.forall_mem_append, forall_mem_levels first h, forall_mem_levelsRest rest h,
      depth]
    omega

theorem forall_mem_levelsRest : ∀ (rest : List (BinaryOp × Expr)) {k m : Nat}, k ≤ m →
    ((∀ l ∈ levelsRest k rest, l ≤ m) ↔ k + depthRest rest ≤ m)
  | [], _, _, h => by simpa [levelsRest, depthRest] using h
  | (_, e) :: rest, k, m, h => by
    rw [levelsRest, List.forall_mem_append, forall_mem_levels e h, forall_mem_levelsRest rest h,
      depthRest]
    omega

end

end Expr

namespace Condition

/-! ### Levels counted on tokens -/

namespace Nesting

/-- The nesting after some tokens. -/
def afterAll (n : Nesting) (ts : List Token) : Nesting :=
  ts.foldl after n

/-- The tokens that open a level, each with the level that is counted at it. -/
def openings (n : Nesting) : List Token → List (Token × Nat)
  | [] => []
  | t :: ts =>
    if t.opens then (t, (n.after t).depth) :: openings (n.after t) ts else openings (n.after t) ts

theorem map_fst_openings (n : Nesting) (ts : List Token) :
    (n.openings ts).map Prod.fst = ts.filter Token.opens := by
  induction ts generalizing n with
  | nil => rfl
  | cons t ts ih =>
    rw [openings, List.filter_cons]
    split
    · rw [List.map_cons, ih]
    · exact ih _

theorem openings_append (n : Nesting) (ts us : List Token) :
    n.openings (ts ++ us) = n.openings ts ++ (n.afterAll ts).openings us := by
  induction ts generalizing n with
  | nil => rfl
  | cons t ts ih =>
    rw [List.cons_append, openings, openings, ih]
    split <;> rfl

/-- A token that opens no level leaves at most the levels that were open. -/
theorem depth_after_le {t : Token} (ht : t.opens = false) (n : Nesting) :
    (n.after t).depth ≤ n.depth := by
  unfold Token.opens at ht
  unfold after
  cases hk : t.kind with
  | unary | openParen => simp [hk] at ht
  | closeParen => exact (Nat.sub_le _ _).trans (Nat.sub_le _ _)
  | path | quoted | number | truth => exact Nat.sub_le _ _
  | _ => exact Nat.le_refl _

end Nesting

open Nesting

/-- The first token that is too deep is the first one that opens a level past the limit. -/
theorem tooDeep?_eq_find? {n : Nesting} (hn : n.depth ≤ maxNesting) (ts : List Token) :
    tooDeep? n ts = ((n.openings ts).find? (maxNesting < ·.2)).map Prod.fst := by
  induction ts generalizing n with
  | nil => rfl
  | cons t ts ih =>
    rw [tooDeep?, openings]
    by_cases hdeep : maxNesting < (n.after t).depth
    · have hopens : t.opens = true := by
        by_contra hclosed
        have hle := depth_after_le (Bool.not_eq_true _ ▸ hclosed) n
        omega
      simp [hdeep, hopens]
    · rw [if_neg hdeep, ih (not_lt.mp hdeep)]
      split
      · simp [hdeep]
      · rfl

/-! ### The two countings agree -/

/-- Tokens lead from one nesting to another and open some levels on the way. -/
def Passes (n : Nesting) (ts : List Token) (ls : List Nat) (n' : Nesting) : Prop :=
  n.afterAll ts = n' ∧ (n.openings ts).map Prod.snd = ls

variable {n n' n'' : Nesting} {t : Token} {ts us : List Token} {ls ls' : List Nat}

theorem passes_nil (n : Nesting) : Passes n [] [] n :=
  ⟨rfl, rfl⟩

theorem Passes.append (h : Passes n ts ls n') (h' : Passes n' us ls' n'') :
    Passes n (ts ++ us) (ls ++ ls') n'' := by
  obtain ⟨rfl, rfl⟩ := h
  obtain ⟨rfl, rfl⟩ := h'
  exact ⟨List.foldl_append, by rw [openings_append, List.map_append]⟩

theorem Passes.opening (ht : t.opens = true) {k : Nat} (hk : (n.after t).depth = k)
    (h : Passes (n.after t) ts ls n') : Passes n (t :: ts) (k :: ls) n' := by
  obtain ⟨rfl, rfl⟩ := h
  exact ⟨rfl, by rw [openings, if_pos ht, List.map_cons, hk]⟩

theorem Passes.cons (ht : t.opens = false) (h : Passes (n.after t) ts ls n') :
    Passes n (t :: ts) ls n' := by
  obtain ⟨rfl, rfl⟩ := h
  exact ⟨rfl, by rw [openings, if_neg (by simp [ht])]⟩

variable {p k : Nat} {outer : List Nat}

theorem passes_single (ht : t.kind.isOperand = true) :
    Passes ⟨p :: outer, k + p⟩ [t] [] ⟨0 :: outer, k⟩ := by
  have hafter : after ⟨p :: outer, k + p⟩ t = ⟨0 :: outer, k⟩ := by
    cases hk : t.kind <;> simp_all [Kind.isOperand, after, settle]
  have hopens : t.opens = false := by
    cases hk : t.kind <;> simp_all [Kind.isOperand, Token.opens]
  exact .cons hopens (hafter ▸ passes_nil _)

/-- A token between two operands, or the name of a function, leaves the nesting as it is. -/
theorem Passes.between (ht : t.kind = .word ∨ IsOperator t) (h : Passes n ts ls n') :
    Passes n (t :: ts) ls n' := by
  have hafter : n.after t = n := by
    rcases ht with ht | ht | ht <;> simp [after, ht]
  have hopens : t.opens = false := by
    rcases ht with ht | ht | ht <;> simp [Token.opens, ht]
  exact .cons hopens (hafter.symm ▸ h)

theorem Passes.unary (ht : t.kind = .unary) (h : Passes ⟨(p + 1) :: outer, k + (p + 1)⟩ ts ls n') :
    Passes ⟨p :: outer, k + p⟩ (t :: ts) ((k + p + 1) :: ls) n' := by
  have hafter : after ⟨p :: outer, k + p⟩ t = ⟨(p + 1) :: outer, k + (p + 1)⟩ := by
    simp [after, ht, wait, Nat.add_assoc]
  exact .opening (by simp [Token.opens, ht]) (by rw [hafter, Nat.add_assoc]) (hafter.symm ▸ h)

/-- A group gives back its own level and those of the operators that waited for it. -/
theorem Passes.enclosed {o c : Token} (ho : o.kind = .openParen)
    (h : Passes ⟨0 :: p :: outer, k + p + 1⟩ ts ls ⟨0 :: p :: outer, k + p + 1⟩)
    (hc : c.kind = .closeParen) :
    Passes ⟨p :: outer, k + p⟩ (o :: (ts ++ [c])) ((k + p + 1) :: ls) ⟨0 :: outer, k⟩ := by
  have hopen : after ⟨p :: outer, k + p⟩ o = ⟨0 :: p :: outer, k + p + 1⟩ := by
    simp [after, ho, enter]
  have hclose : after ⟨0 :: p :: outer, k + p + 1⟩ c = ⟨0 :: outer, k⟩ := by
    simp [after, hc, leave, settle]
  have hend : Passes ⟨0 :: p :: outer, k + p + 1⟩ [c] [] ⟨0 :: outer, k⟩ :=
    .cons (by simp [Token.opens, hc]) (hclose.symm ▸ passes_nil _)
  refine .opening (by simp [Token.opens, ho]) (by rw [hopen]) (hopen.symm ▸ ?_)
  simpa using h.append hend

theorem isOperator_of_corrected (h : (corrected t).kind = .binary) : IsOperator t := by
  by_cases ht : t.kind = .assign
  · exact Or.inr ht
  · rw [corrected_of_ne ht] at h
    exact Or.inl h

mutual

/-- The levels counted on the tokens of an expression are its levels. Where it ends, no operator of
its group waits any more, and the levels of those that waited are given back; a chain has no
operator waiting before it. -/
theorem passes_meanings : ∀ {e : Expr} {ts : List Token}, e.WellFormed → Says ts e.meanings →
    ∀ (p k : Nat) (outer : List Nat), e.IsOperand ∨ p = 0 →
      Passes ⟨p :: outer, k + p⟩ ts (e.levels (k + p)) ⟨0 :: outer, k⟩
  | .path _, _, _, hts, _, _, _, _ => by
    obtain ⟨t, us, rfl, ht, hus⟩ := says_cons_iff.mp hts
    obtain rfl := says_nil_iff.mp hus
    exact passes_single (single?_of_path ht).1
  | .literal _, _, _, hts, _, _, _, _ => by
    obtain ⟨t, us, rfl, ht, hus⟩ := says_cons_iff.mp hts
    obtain rfl := says_nil_iff.mp hus
    exact passes_single (single?_of_literal ht).1
  | .call _ none, _, _, hts, _, _, _, _ => by
    obtain ⟨f, us, rfl, hf, hus⟩ := says_cons_iff.mp hts
    obtain ⟨o, c, rfl, ho, hc⟩ := exists_of_says_parentheses hus
    exact .between (Or.inl (kind_of_function hf).1) (.enclosed ho (passes_nil _) hc)
  | .call _ (some arg), _, h, hts, p, k, outer, _ => by
    obtain ⟨f, us, rfl, hf, hus⟩ := says_cons_iff.mp hts
    obtain ⟨o, vs, c, rfl, ho, hvs, hc⟩ := exists_of_says_enclosed hus
    have harg := passes_meanings (e := arg) h hvs 0 (k + p + 1) (p :: outer) (Or.inr rfl)
    exact .between (Or.inl (kind_of_function hf).1) (.enclosed ho harg hc)
  | .unary _ operand, _, h, hts, p, k, outer, _ => by
    obtain ⟨t, us, rfl, ht, hus⟩ := says_cons_iff.mp hts
    have hoperand := passes_meanings (e := operand) h.1 hus (p + 1) k outer (Or.inl h.2)
    exact .unary (kind_of_unary ht).1 hoperand
  | .group inner, _, h, hts, p, k, outer, _ => by
    obtain ⟨o, vs, c, rfl, ho, hvs, hc⟩ := exists_of_says_enclosed hts
    have hinner := passes_meanings (e := inner) h hvs 0 (k + p + 1) (p :: outer) (Or.inr rfl)
    exact .enclosed ho hinner hc
  | .chain first rest, _, h, hts, p, k, outer, hp => by
    obtain rfl : p = 0 := hp.resolve_left id
    obtain ⟨us, vs, rfl, hus, hvs⟩ := says_append_iff.mp hts
    have hfirst := passes_meanings h.1 hus 0 k outer (Or.inl h.2.1)
    exact hfirst.append (passes_meaningsRest h.2.2.2 hvs k outer)

theorem passes_meaningsRest : ∀ {rest : List (BinaryOp × Expr)} {ts : List Token},
    Expr.WellFormedRest rest → Says ts (Expr.meaningsRest rest) → ∀ (k : Nat) (outer : List Nat),
      Passes ⟨0 :: outer, k⟩ ts (Expr.levelsRest k rest) ⟨0 :: outer, k⟩
  | [], _, _, hts, _, _ => by
    obtain rfl := says_nil_iff.mp hts
    exact passes_nil _
  | (_, e) :: rest, _, h, hts, k, outer => by
    obtain ⟨t, us, rfl, ht, hus⟩ := says_cons_iff.mp hts
    obtain ⟨vs, ws, rfl, hvs, hws⟩ := says_append_iff.mp hus
    have he := passes_meanings h.1 hvs 0 k outer (Or.inl h.2.1)
    exact .between (Or.inr (isOperator_of_corrected (kind_of_binary ht).1))
      (he.append (passes_meaningsRest h.2.2 hws k outer))

end

variable {e : Expr}

/-- The tokens of an expression that open a level are as many as its levels, and the first of them
past the limit is the first token that is too deep. -/
theorem tooDeep?_of_meanings (h : e.WellFormed) (hts : Says ts e.meanings) :
    (ts.filter Token.opens).length = (e.levels 0).length ∧
      tooDeep? .start ts =
        (((ts.filter Token.opens).zip (e.levels 0)).find? (maxNesting < ·.2)).map Prod.fst := by
  have hlevels : (Nesting.start.openings ts).map Prod.snd = e.levels 0 :=
    (passes_meanings h hts 0 0 [] (Or.inr rfl)).2
  have hzip := List.zip_of_prod (map_fst_openings .start ts) hlevels
  refine ⟨?_, ?_⟩
  · rw [← map_fst_openings .start ts, ← hlevels, List.length_map, List.length_map]
  · rw [tooDeep?_eq_find? (by decide), hzip]

/-- The tokens of an expression are not too deep if and only if the expression is not. -/
theorem tooDeep?_eq_none_iff (h : e.WellFormed) (hts : Says ts e.meanings) :
    tooDeep? .start ts = none ↔ e.depth ≤ maxNesting := by
  have hlevels : (Nesting.start.openings ts).map Prod.snd = e.levels 0 :=
    (passes_meanings h hts 0 0 [] (Or.inr rfl)).2
  have hdepth := e.forall_mem_levels (Nat.zero_le maxNesting)
  rw [Nat.zero_add, ← hlevels, List.forall_mem_map] at hdepth
  rw [tooDeep?_eq_find? (by decide), Option.map_eq_none_iff, List.find?_eq_none, ← hdepth]
  simp

/-! ### Accepted conditions -/

theorem alike_map_corrected (ts : List Token) : List.Forall₂ Alike (ts.map corrected) ts := by
  refine List.forall₂_map_left_iff.mpr (List.forall₂_same.mpr fun t _ ↦ ?_)
  by_cases ht : t.kind = .assign
  · exact Or.inl ⟨Or.inl (by simp [corrected, ht, equality]), Or.inr ht⟩
  · rw [corrected_of_ne ht]
    exact Or.inr ⟨rfl, rfl⟩

/-- A condition is accepted as an expression if and only if its tokens say what the expression says,
and the expression is one of the grammar and not too deep. -/
theorem accepts_iff {right : List Char} {c next : Text.Cursor} {body : List Token} :
    Accepts right c body e next ↔ Token.Closes right c body next ∧
      Says body e.meanings ∧ e.WellFormed ∧ e.depth ≤ maxNesting := by
  constructor
  · intro h
    obtain ⟨hsaid, hgood⟩ := build?_eq_some_iff.mp h.built
    exact ⟨h.closes, hsaid, hgood,
      (tooDeep?_eq_none_iff hgood (says_map_corrected.mpr hsaid)).mp h.shallow⟩
  · rintro ⟨hcloses, hsaid, hgood, hdepth⟩
    have hbuilt := build?_eq_some_iff.mpr ⟨hsaid, hgood⟩
    exact ⟨hcloses, (derives_of_build? hbuilt).of_alike (alike_map_corrected body),
      (tooDeep?_eq_none_iff hgood (says_map_corrected.mpr hsaid)).mpr hdepth, hbuilt⟩

/-! ### Conditions that are too deep -/

variable {right : List Char} {c next : Text.Cursor} {body : List Token} {notes : Log} {o : Outcome}

/-- A condition of a source that is checked without an error is built into an expression. -/
theorem exists_build?_of_check
    (hbody : (Token.scan right c).1.takeWhile (·.kind ≠ .close) = body) (hne : body ≠ [])
    (hbal : count .openParen body = count .closeParen body)
    (hclean : Log.hasErrors (check .start body).2 = false) :
    ∃ e, build? (check .start body).1 = some e := by
  have hsentence := derives_of_check hne hbal hclean
  obtain ⟨e, -, hreads⟩ := builds_of_scan hbody hsentence
  refine ⟨e, ?_⟩
  rw [check_of_scan hbody hsentence]
  refine build?_of_sequence? fun n hn ↦ ?_
  have hread := hreads n [] (by simpa using hn) noOperator_nil
  rwa [List.append_nil] at hread

/-- A condition that is reported as too deep has an expression, and that is too deep. -/
theorem exists_build?_of_mem_notes (h : compile right c = (o, notes)) {d : Diagnostic}
    (hd : d ∈ notes) (hdeep : d.fault = .nestedTooDeep)
    (hbody : (Token.scan right c).1.takeWhile (·.kind ≠ .close) = body) :
    ∃ e, build? (check .start body).1 = some e ∧ maxNesting < e.depth := by
  have hhalt {f : Fault} (hf : f ≠ .nestedTooDeep) (n : Nat)
      (hhalted : (Outcome.halted, Log.halt [] (f.locate n)) = (o, notes)) : False := by
    rw [← (Prod.mk.inj hhalted).2] at hd
    obtain rfl := List.mem_singleton.mp hd
    exact hf hdeep
  have hcheck : d ∉ (check .start body).2 := fun hmem ↦ by
    have hfault := (aboutTokens_check _ _ d hmem).2
    rw [hdeep] at hfault
    exact absurd hfault (by decide)
  simp only [compile, hbody] at h
  split at h
  · exact (hhalt (by decide) _ h).elim
  split at h
  · exact (hhalt (by decide) _ h).elim
  rename_i hne
  split at h
  · exact (hhalt (by decide) _ h).elim
  rename_i hbal
  simp only [compileBody] at h
  split at h
  · rw [← (Prod.mk.inj h).2] at hd
    exact (hcheck hd).elim
  rename_i hclean
  obtain ⟨e, he⟩ := exists_build?_of_check hbody hne (not_not.mp hbal) (by simpa using hclean)
  obtain ⟨hsaid, hgood⟩ := says_of_build? he
  split at h
  · rename_i t ht
    refine ⟨e, he, not_le.mp fun hle ↦ ?_⟩
    rw [(tooDeep?_eq_none_iff hgood hsaid).mpr hle] at ht
    cases ht
  · simp only [he] at h
    rw [← (Prod.mk.inj h).2] at hd
    exact (hcheck hd).elim

/-- The limit of nesting that is checked on the tokens of a condition is a limit on the depth of its
expression. The tokens that open a level are, one by one, those of the levels of the expression, and
the first of them past the limit is reported. Every condition of a source that is checked without an
error has an expression; it is reported only if that is too deep, and no test of a program is. -/
theorem tooDeep?_measures_depth :
    (∀ (body : List Token) (e : Expr), build? (check .start body).1 = some e →
      (tooDeep? .start (check .start body).1 = none ↔ e.depth ≤ maxNesting) ∧
      (((check .start body).1.filter Token.opens).length = (e.levels 0).length ∧
        tooDeep? .start (check .start body).1 =
          ((((check .start body).1.filter Token.opens).zip (e.levels 0)).find?
            (maxNesting < ·.2)).map Prod.fst)) ∧
    (∀ (right : List Char) (c : Text.Cursor) (body : List Token),
      (Token.scan right c).1.takeWhile (·.kind ≠ .close) = body → body ≠ [] →
        count .openParen body = count .closeParen body →
          Log.hasErrors (check .start body).2 = false →
            ∃ e, build? (check .start body).1 = some e) ∧
    (∀ (right : List Char) (c : Text.Cursor) (o : Outcome) (notes : Log),
      compile right c = (o, notes) → ∀ d ∈ notes, d.fault = .nestedTooDeep →
        ∃ e, build? (check .start ((Token.scan right c).1.takeWhile (·.kind ≠ .close))).1 = some e ∧
          maxNesting < e.depth) ∧
    (∀ (d : Delimiters) (template : String) (p : Program),
      Program.compile d template = .ok p → ∀ e ∈ p.tests, e.depth ≤ maxNesting) := by
  refine ⟨fun body e he ↦ ?_, fun right c body hbody hne hbal hclean ↦ ?_,
    fun right c o notes h d hd hdeep ↦ ?_, fun d template p h e he ↦ ?_⟩
  · obtain ⟨hsaid, hgood⟩ := says_of_build? he
    exact ⟨tooDeep?_eq_none_iff hgood hsaid, tooDeep?_of_meanings hgood hsaid⟩
  · exact exists_build?_of_check hbody hne hbal hclean
  · exact exists_build?_of_mem_notes h hd hdeep rfl
  · obtain ⟨c, body, next, h⟩ := Program.accepts_of_mem_tests h he
    exact (accepts_iff.mp h).2.2.2

/-- Of sixty-five negations the last one is too deep. -/
theorem tooDeep?_measures_depth_of_negations :
    let body := (Token.scan ['\x7d']
      (.ofText (List.replicate 65 '!' ++ "%a\x7d".toList))).1.takeWhile (·.kind ≠ .close)
    tooDeep? .start (check .start body).1 = some ⟨.unary, ['!'], 64⟩ ∧
      ∃ e, build? (check .start body).1 = some e ∧ maxNesting < e.depth := by
  intro body
  have hbuilt : (build? (check .start body).1).isSome := by decide +kernel
  have hdeep : tooDeep? .start (check .start body).1 = some ⟨.unary, ['!'], 64⟩ := by
    decide +kernel
  obtain ⟨e, he⟩ := Option.isSome_iff_exists.mp hbuilt
  refine ⟨hdeep, e, he, not_le.mp fun hle ↦ ?_⟩
  rw [(tooDeep?_measures_depth.1 body e he).1.mpr hle] at hdeep
  cases hdeep

end Condition

end Stencil
