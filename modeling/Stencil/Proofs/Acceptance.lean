import Stencil.Proofs.Placeless

/-!
# Accepted conditions

A condition is accepted when its tokens end at the right delimiter, are a sentence of the grammar
and are not nested too deeply. None of this depends on where the source stands or on what comes
behind the right delimiter, so an accepted condition can be moved, cut out of its source, and put
into another one.

## Main definitions

* `Diagnostic.shift`: a diagnostic about a place some bytes further on.
* `Diagnostic.Worded`: a diagnostic in its usual wording.
* `Condition.Outcome.accepted?`: the expression and the place behind an accepted condition.
* `Condition.Accepts`: what is behind a condition that is accepted.

## Main results

* `Condition.compile_eq_accepted_iff`: the accepted conditions, and what there is to say about them.
* `Condition.hasErrors_of_compile`: a condition that is not accepted leaves an error.
* `Condition.Accepts.shift`, `Condition.Accepts.cut`, `Condition.Accepts.extend`: moving a condition
  between sources.
-/

namespace Stencil

open Token (Kind Same)
open Text (Cursor)

/-- A diagnostic about a place some bytes further on, worded for the new place. -/
def Diagnostic.shift (k : Nat) (d : Diagnostic) : Diagnostic :=
  { d with offset := k + d.offset, message := d.fault.message (k + d.offset) d.token }

/-- A diagnostic has the usual wording for its place. -/
def Diagnostic.Worded (d : Diagnostic) : Prop :=
  d.message = d.fault.message d.offset d.token

namespace Condition

/-- The expression of an accepted condition and the place after its right delimiter. -/
def Outcome.accepted? : Outcome → Option (Expr × Cursor)
  | accepted e next => some (e, next)
  | rejected | halted => none

variable {right : List Char} {c next : Cursor} {body : List Token} {e : Expr} {notes : Log}

/-! ### What is accepted -/

/-- What is behind a condition that is accepted: its tokens up to the right delimiter, which are a
sentence, and the expression that they are built into. -/
structure Accepts (right : List Char) (c : Cursor) (body : List Token) (e : Expr)
    (next : Cursor) : Prop where
  closes : Token.Closes right c body next
  derives : Derives .sequence body
  shallow : tooDeep? .start (body.map corrected) = none
  built : build? (body.map corrected) = some e

theorem count_append (kind : Kind) (ts us : List Token) :
    count kind (ts ++ us) = count kind ts + count kind us :=
  List.countP_append

theorem count_of_ne {kind : Kind} {t : Token} (ht : t.kind ≠ kind) : count kind [t] = 0 := by
  simp [count, ht]

theorem count_of_eq {kind : Kind} {t : Token} (ht : t.kind = kind) : count kind [t] = 1 := by
  simp [count, ht]

/-- Every group of a sentence is closed. -/
theorem Derives.balanced {p : Part} {ts : List Token} (h : Derives p ts) :
    count .openParen ts = count .closeParen ts := by
  have hneither {t : Token} {k : Kind} (ht : t.kind = k)
      (hk : k ≠ .openParen ∧ k ≠ .closeParen) :
      count .openParen [t] = 0 ∧ count .closeParen [t] = 0 :=
    ⟨count_of_ne (ht ▸ hk.1), count_of_ne (ht ▸ hk.2)⟩
  have hopen {t : Token} (ht : t.kind = .openParen) :
      count .openParen [t] = 1 ∧ count .closeParen [t] = 0 :=
    ⟨count_of_eq ht, count_of_ne (by simp [ht])⟩
  have hclose {t : Token} (ht : t.kind = .closeParen) :
      count .openParen [t] = 0 ∧ count .closeParen [t] = 1 :=
    ⟨count_of_ne (by simp [ht]), count_of_eq ht⟩
  induction h with
  | @single t ht =>
    have ht' := hneither (t := t) rfl (by cases hk : t.kind <;> simp_all [Kind.isOperand])
    rw [ht'.1, ht'.2]
  | unary ht h ih =>
    have ht' := hneither ht (by decide)
    rw [count_cons, count_cons .closeParen, ht'.1, ht'.2, ih]
  | group ho h hc ih =>
    have ho' := hopen ho
    have hc' := hclose hc
    rw [count_cons, count_cons .closeParen, count_append, count_append, ho'.1, ho'.2, hc'.1, hc'.2]
    omega
  | emptyCall hf ho hc =>
    have hf' := hneither hf.1 (by decide)
    have ho' := hopen ho
    have hc' := hclose hc
    rw [count_cons, count_cons .closeParen, count_cons _ _ [_], count_cons .closeParen _ [_], hf'.1,
      hf'.2, ho'.1, ho'.2, hc'.1, hc'.2]
  | @call f o c ts hf ho h hc ih =>
    have hf' := hneither hf.1 (by decide)
    have ho' := hopen ho
    have hc' := hclose hc
    rw [count_cons, count_cons .closeParen, count_cons _ o, count_cons .closeParen o, count_append,
      count_append, hf'.1, hf'.2, ho'.1, ho'.2, hc'.1, hc'.2]
    omega
  | sequence h hr ih ihr => rw [count_append, count_append, ih, ihr]
  | stop => rfl
  | @operation t ts us ht h hr ih ihr =>
    have ht' : count .openParen [t] = 0 ∧ count .closeParen [t] = 0 := by
      rcases ht with ht | ht <;> exact hneither ht (by decide)
    rw [count_cons, count_cons .closeParen, count_append, count_append, ht'.1, ht'.2, ih, ihr]

theorem takeWhile_of_closes (hright : right ≠ []) (h : Token.Closes right c body next) :
    (Token.scan right c).1.takeWhile (·.kind ≠ .close) = body := by
  obtain ⟨o, ho⟩ := Token.scan_eq_of_closes hright h
  rw [ho, List.takeWhile_append_of_pos fun t ht ↦ by simpa using (h.kind_ne t ht).1]
  simp

/-- A clean check, a nesting that is not too deep and an expression are behind what is accepted. -/
theorem of_compileBody {start : Nat} {stop : Cursor}
    (h : compileBody start body stop = (.accepted e next, notes)) :
    stop = next ∧ Log.hasErrors (check .start body).2 = false ∧
      tooDeep? .start (check .start body).1 = none ∧ build? (check .start body).1 = some e ∧
        (check .start body).2 = notes := by
  unfold compileBody at h
  dsimp only at h
  split at h
  · simp at h
  rename_i hclean
  split at h
  · simp at h
  rename_i hshallow
  split at h
  · rename_i e' hbuilt
    simp only [Prod.mk.injEq, Outcome.accepted.injEq] at h
    obtain ⟨⟨rfl, rfl⟩, hnotes⟩ := h
    exact ⟨rfl, by simpa using hclean, hshallow, hbuilt, hnotes⟩
  · simp at h

/-- The conditions that are accepted. There is nothing to say about them but for single equals
signs. -/
theorem compile_eq_accepted_iff (hright : right ≠ []) :
    compile right c = (.accepted e next, notes) ↔
      ∃ body, Accepts right c body e next ∧ notes = warnings body := by
  constructor
  · intro h
    simp only [compile] at h
    split at h
    · simp at h
    rename_i hclose
    split at h
    · simp at h
    rename_i hne
    split at h
    · simp at h
    rename_i hbal
    obtain ⟨rfl, hclean, hshallow, hbuilt, rfl⟩ := of_compileBody h
    have hsentence := derives_of_check hne (not_not.mp hbal) hclean
    have hcheck := check_of_scan rfl hsentence
    rw [hcheck] at hshallow hbuilt ⊢
    refine ⟨_, ⟨?_, hsentence, hshallow, hbuilt⟩, rfl⟩
    have hexists : ∃ t ∈ (Token.scan right c).1, t.kind = .close := by
      simpa using hclose
    obtain ⟨t, ht, hscan⟩ := Token.scan_eq_append_close hexists
    exact Token.closes_of_scan ht (fun u hu ↦ (hsentence.belongs u hu).2.1) (Prod.ext hscan rfl)
  · rintro ⟨body, ⟨hcloses, hderives, hshallow, hbuilt⟩, rfl⟩
    obtain ⟨o, ho⟩ := Token.scan_eq_of_closes hright hcloses
    have hbody := takeWhile_of_closes hright hcloses
    have hcheck := check_of_scan hbody hderives
    rw [ho] at hbody
    simp only [compile, ho, hbody]
    rw [if_neg (by simp), if_neg (hderives.ne_nil (by decide)),
      if_neg (not_not.mpr hderives.balanced)]
    simp [compileBody, hcheck, hasErrors_warnings, hshallow, hbuilt]

/-- An accepted condition, from what can be computed of it. -/
theorem exists_of_accepted? {α : Type} {f : Expr × Cursor → α} {a : α}
    (h : (compile right c).1.accepted?.map f = some a) :
    ∃ e next notes, compile right c = (.accepted e next, notes) ∧ f (e, next) = a := by
  generalize compile right c = r at h ⊢
  obtain ⟨outcome, notes⟩ := r
  cases outcome with
  | accepted e next => exact ⟨e, next, notes, rfl, Option.some.inj h⟩
  | rejected | halted => cases h

/-- A condition that is not accepted leaves an error. -/
theorem hasErrors_of_compile {o : Outcome} (h : compile right c = (o, notes))
    (ho : ∀ e next, o ≠ .accepted e next) : Log.hasErrors notes = true := by
  have hhalt (f : Fault) (hf : f ≠ .singleEquals) (n : Nat) :
      Log.hasErrors (Log.halt [] (f.locate n)) = true := by
    cases f <;> first | rfl | exact absurd rfl hf
  simp only [compile] at h
  split at h
  · rw [← (Prod.mk.inj h).2]
    exact hhalt _ (by decide) _
  split at h
  · rw [← (Prod.mk.inj h).2]
    exact hhalt _ (by decide) _
  split at h
  · rw [← (Prod.mk.inj h).2]
    exact hhalt _ (by decide) _
  unfold compileBody at h
  dsimp only at h
  split at h
  · rename_i herrors
    rw [← (Prod.mk.inj h).2]
    exact herrors
  split at h
  · rw [← (Prod.mk.inj h).2, Log.record, hasErrors_append, hasErrors_fault (by decide),
      Bool.or_true]
  split at h
  · exact absurd (Prod.mk.inj h).1.symm (ho _ _)
  · rw [← (Prod.mk.inj h).2, Log.record, hasErrors_append]
    simp [Log.hasErrors, Diagnostic.isError, Fault.locate, Fault.about, Fault.severity]

/-! ### Moving accepted conditions -/

theorem warnings_shift (k : Nat) (ts : List Token) :
    warnings (ts.map (Token.shift k)) = (warnings ts).map (Diagnostic.shift k) := by
  simp only [warnings, List.filter_map, List.map_map]
  rfl

/-- The places of its tokens do not matter for whether a condition is accepted. -/
theorem Accepts.of_same {right' : List Char} {c' next' : Cursor} {body' : List Token}
    (h : Accepts right c body e next) (hsame : List.Forall₂ Same body body')
    (hcloses : Token.Closes right' c' body' next') : Accepts right' c' body' e next' where
  closes := hcloses
  derives := h.derives.of_alike (hsame.imp fun _ _ hs ↦ Or.inr ⟨hs.kind.symm, hs.text.symm⟩)
  shallow := by
    have hdeep := tooDeep?_of_same (forall₂_corrected hsame) .start
    rw [h.shallow] at hdeep
    generalize tooDeep? .start (body'.map corrected) = deep at hdeep ⊢
    cases hdeep
    rfl
  built := (build?_of_same hsame).trans h.built

theorem Accepts.shift (h : Accepts right c body e next) (k : Nat) :
    Accepts right (c.shift k) (body.map (Token.shift k)) e (next.shift k) :=
  h.of_same (List.forall₂_map_right_iff.mpr (List.forall₂_same.mpr fun _ _ ↦ ⟨rfl, rfl⟩))
    (h.closes.shift k)

/-- A condition accepted further on in a source is an accepted condition moved there. -/
theorem Accepts.of_shift {k : Nat} (h : Accepts right (c.shift k) body e next) :
    ∃ body' next', Accepts right c body' e next' ∧ next = next'.shift k := by
  obtain ⟨body', next', hcloses, rfl, rfl⟩ := h.closes.of_shift
  exact ⟨body', next', h.of_same (List.forall₂_map_left_iff.mpr
    (List.forall₂_same.mpr fun _ _ ↦ ⟨rfl, rfl⟩)) hcloses, rfl⟩

/-- A condition is accepted without what comes behind its right delimiter. -/
theorem Accepts.cut (hright : right ≠ []) (h : Accepts right c body e next) :
    ∃ xs, c.rest = xs ++ next.rest ∧ Accepts right ⟨c.offset, xs⟩ body e ⟨next.offset, []⟩ := by
  obtain ⟨xs, -, hrest, hcloses⟩ := h.closes.cut hright
  exact ⟨xs, hrest, { h with closes := hcloses }⟩

/-- A condition up to a closing brace is accepted when anything follows the brace. -/
theorem Accepts.extend (h : Accepts ['\x7d'] c body e next) (vs : List Char) :
    Accepts ['\x7d'] (c.extend vs) body e (next.extend vs) :=
  { h with closes := h.closes.extend vs }

/-- A blank before a condition does not count. -/
theorem Accepts.blank {o : Nat} {b : Char} {cs : List Char} (hb : Text.isBlank b = true)
    (h : Accepts right ⟨o + b.utf8Size, cs⟩ body e next) :
    Accepts right ⟨o, b :: cs⟩ body e next :=
  { h with closes := h.closes.blank hb }

end Condition

end Stencil
