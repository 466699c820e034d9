import Stencil.Proofs.Readings

/-!
# Conditions apart from their places

What becomes of a condition depends on the kinds and the texts of its tokens and not on their
places: what the check says, how deep it is nested and what it is built into.

## Main definitions

* `Token.Same`: tokens of the same kind with the same text.
* `Diagnostic.gist`: what a diagnostic says apart from its place.
* `Condition.Outcome.Agrees`: outcomes that differ at most in a place.

## Main results

* `Condition.gists_check`: the check of a condition does not depend on places.
* `Condition.tooDeep?_of_same`, `Condition.build?_of_same`: neither does its nesting, nor what it is
  built into.
* `Condition.compile_of_same`: what becomes of a condition depends on kinds and texts alone.
-/

namespace Stencil

open Text (Cursor)
open Token (Kind)

namespace Token

variable {t u : Token}

/-- A token of the same kind with the same text, at any place. -/
structure Same (t u : Token) : Prop where
  kind : u.kind = t.kind
  text : u.text = t.text

theorem Same.symbol (h : Same t u) : u.symbol = t.symbol := by
  rw [Token.symbol, Token.symbol, h.text]

end Token

/-- What a diagnostic says apart from its place: what is wrong, with which token, and whether the
compile stopped. -/
def Diagnostic.gist (n : Diagnostic) : Fault × String × Bool :=
  (n.fault, n.token, n.fatal)

namespace Condition

open Token (Same)

/-- Outcomes that differ at most in the place behind the right delimiter. -/
inductive Outcome.Agrees : Outcome → Outcome → Prop
  | accepted (e : Expr) (next next' : Cursor) : Agrees (.accepted e next) (.accepted e next')
  | rejected : Agrees .rejected .rejected
  | halted : Agrees .halted .halted

variable {right : List Char} {c c' next next' : Cursor} {s : State} {last : Bool} {t u : Token}
  {ts us : List Token} {log log' : Log}

theorem gist_fault (f : Fault) (h : Same t u) : (fault f u).gist = (fault f t).gist := by
  simp only [fault, Fault.about, Diagnostic.gist, h.symbol]

theorem gists_noteIf {p : Prop} [Decidable p] {d d' : Diagnostic} (h : d'.gist = d.gist) :
    (noteIf p d').map Diagnostic.gist = (noteIf p d).map Diagnostic.gist := by
  by_cases hp : p <;> simp [noteIf, hp, h]

theorem gists_operator (c : Class) (h : Same t u) :
    (operator s c last u).notes.map Diagnostic.gist =
      (operator s c last t).notes.map Diagnostic.gist := by
  simp only [operator]
  split
  · exact congrArg (fun g ↦ [g]) (gist_fault _ h)
  · exact gists_noteIf (gist_fault _ h)

theorem same_equality (t u : Token) : Same (equality t) (equality u) :=
  ⟨rfl, rfl⟩

/-- What a reader makes of a token does not depend on the place of the token. -/
theorem examine_of_same (s : State) (last : Bool) (h : Same t u) :
    Same (examine s last t).token (examine s last u).token ∧
      (examine s last u).next = (examine s last t).next ∧
        (examine s last u).notes.map Diagnostic.gist =
          (examine s last t).notes.map Diagnostic.gist := by
  have hone (f : Fault) : [fault f u].map Diagnostic.gist = [fault f t].map Diagnostic.gist :=
    congrArg (fun g ↦ [g]) (gist_fault f h)
  unfold examine
  rw [h.kind]
  cases hk : t.kind with
  | binary | unary => exact ⟨h, rfl, gists_operator _ h⟩
  | path | quoted | number | truth =>
    refine ⟨h, rfl, ?_⟩
    simp only [operand, h.kind, h.text, List.map_append, gists_noteIf (gist_fault _ h)]
  | word =>
    refine ⟨h, rfl, ?_⟩
    simp only [functionName, h.symbol]
    split
    · exact hone _
    split
    · exact hone _
    · refine gists_noteIf ?_
      simp only [missingArguments, fault, Fault.about, Diagnostic.gist, h.symbol]
  | openParen => exact ⟨h, rfl, gists_noteIf (gist_fault _ h)⟩
  | closeParen =>
    refine ⟨h, rfl, ?_⟩
    simp only [closeParen]
    split
    · exact hone _
    · exact gists_noteIf (gist_fault _ h)
  | assign =>
    simp only [assign]
    split
    · refine ⟨same_equality t u, rfl, ?_⟩
      rw [List.map_cons, List.map_cons, gist_fault _ h, gists_operator _ (same_equality t u)]
    · exact ⟨h, rfl, hone _⟩
  | close | other => exact ⟨h, rfl, hone _⟩

/-- The check of a condition does not depend on the places of its tokens. -/
theorem gists_check (h : List.Forall₂ Same ts us) :
    (check s us).2.map Diagnostic.gist = (check s ts).2.map Diagnostic.gist := by
  induction h generalizing s with
  | nil => rfl
  | @cons t u ts us ht hts ih =>
    have hlast : us.isEmpty = ts.isEmpty := by cases hts <;> rfl
    obtain ⟨-, hnext, hnotes⟩ := examine_of_same s ts.isEmpty ht
    simp only [check, List.map_append, hlast, hnext, hnotes, ih]

theorem hasErrors_of_gists (h : log'.map Diagnostic.gist = log.map Diagnostic.gist) :
    log'.hasErrors = log.hasErrors := by
  have hany (log : Log) : log.hasErrors =
      (log.map Diagnostic.gist).any fun g ↦ g.1.severity == .error := by
    rw [List.any_map]
    rfl
  rw [hany, hany, h]

/-- Without an error every single equals sign is put right. -/
theorem check_eq_map_corrected (h : (check s ts).2.hasErrors = false) :
    (check s ts).1 = ts.map corrected := by
  induction ts generalizing s with
  | nil => rfl
  | cons t ts ih =>
    simp only [check, hasErrors_append, Bool.or_eq_false_iff] at h
    have hhead : (examine s ts.isEmpty t).token = corrected t := by
      by_cases hk : t.kind = .assign
      · have hnotes := h.1
        simp only [examine, hk, assign, corrected, if_true] at hnotes ⊢
        split at hnotes
        · rename_i hallow
          rw [if_pos hallow]
          rfl
        · simp [unknown, hasErrors_fault] at hnotes
      · rw [corrected_of_ne hk]
        unfold examine
        split <;> first | rfl | contradiction
    rw [List.map_cons, ← hhead, ← ih h.2]
    rfl

theorem same_corrected (h : Same t u) : Same (corrected t) (corrected u) := by
  unfold corrected
  rw [h.kind]
  split
  · exact same_equality t u
  · exact h

theorem forall₂_corrected (h : List.Forall₂ Same ts us) :
    List.Forall₂ Same (ts.map corrected) (us.map corrected) := by
  rw [List.forall₂_map_left_iff, List.forall₂_map_right_iff]
  exact h.imp fun _ _ ↦ same_corrected

/-- Whether a condition is nested too deep, and at which token, does not depend on places. -/
theorem tooDeep?_of_same (h : List.Forall₂ Same ts us) (n : Nesting) :
    Option.Rel Same (tooDeep? n ts) (tooDeep? n us) := by
  induction h generalizing n with
  | nil => exact .none
  | @cons t u ts us ht hts ih =>
    have hafter : n.after u = n.after t := by
      unfold Nesting.after
      rw [ht.kind]
    rw [tooDeep?, tooDeep?, hafter]
    split
    · exact .some ht
    · exact ih _

/-- What tokens are built into does not depend on places. -/
theorem build?_of_same (h : List.Forall₂ Same ts us) :
    build? (us.map corrected) = build? (ts.map corrected) := by
  have hmeaning : us.map Token.meaning? = ts.map Token.meaning? := by
    induction h with
    | nil => rfl
    | cons ht _ ih =>
      rw [List.map_cons, List.map_cons, ih]
      simp only [Token.meaning?, ht.symbol, ht.kind, ht.text]
  refine Option.ext fun e ↦ ?_
  rw [build?_eq_some_iff, build?_eq_some_iff, Says, Says, hmeaning]

theorem compileBody_of_same (h : List.Forall₂ Same ts us) (o o' : Nat) :
    Outcome.Agrees (compileBody o ts next).1 (compileBody o' us next').1 ∧
      (compileBody o' us next').2.map Diagnostic.gist =
        (compileBody o ts next).2.map Diagnostic.gist := by
  have hgists := gists_check (s := .start) h
  have herrors := hasErrors_of_gists hgists
  unfold compileBody
  dsimp only
  rw [herrors]
  split
  · exact ⟨.rejected, hgists⟩
  rename_i hclean
  rw [check_eq_map_corrected (by simpa using hclean),
    check_eq_map_corrected (herrors.trans (by simpa using hclean)), build?_of_same h]
  have hdeep := tooDeep?_of_same (forall₂_corrected h) .start
  generalize tooDeep? .start (ts.map corrected) = deep at hdeep
  generalize tooDeep? .start (us.map corrected) = deep' at hdeep
  cases hdeep with
  | some hsame =>
    refine ⟨.rejected, ?_⟩
    simp only [Log.record, List.map_append, hgists, List.map_cons, gist_fault _ hsame]
  | none =>
    dsimp only
    split
    · exact ⟨.accepted _ _ _, hgists⟩
    · refine ⟨.rejected, ?_⟩
      simp only [Log.record, List.map_append, hgists]
      rfl

theorem forall₂_takeWhile (h : List.Forall₂ Same ts us) :
    List.Forall₂ Same (ts.takeWhile (·.kind ≠ .close)) (us.takeWhile (·.kind ≠ .close)) := by
  induction h with
  | nil => exact .nil
  | @cons t u ts us ht hts ih =>
    rw [List.takeWhile_cons, List.takeWhile_cons, ht.kind]
    split
    · exact .cons ht ih
    · exact .nil

theorem kinds_of_same (h : List.Forall₂ Same ts us) :
    us.map Token.kind = ts.map Token.kind := by
  induction h with
  | nil => rfl
  | cons ht _ ih => rw [List.map_cons, List.map_cons, ht.kind, ih]

/-- What becomes of a condition depends on the kinds and the texts of its tokens alone. -/
theorem compile_of_same (h : List.Forall₂ Same (Token.scan right c).1 (Token.scan right c').1) :
    Outcome.Agrees (compile right c).1 (compile right c').1 ∧
      (compile right c').2.map Diagnostic.gist = (compile right c).2.map Diagnostic.gist := by
  have hbody := forall₂_takeWhile h
  have hkinds := kinds_of_same hbody
  have hall : (Token.scan right c').1.all (·.kind ≠ .close) =
      (Token.scan right c).1.all (·.kind ≠ .close) := by
    have hmap : ((Token.scan right c').1.map Token.kind).all (· ≠ .close) =
        ((Token.scan right c).1.map Token.kind).all (· ≠ .close) := by
      rw [kinds_of_same h]
    rwa [List.all_map, List.all_map] at hmap
  have hcount (k : Kind) : count k ((Token.scan right c').1.takeWhile (·.kind ≠ .close)) =
      count k ((Token.scan right c).1.takeWhile (·.kind ≠ .close)) := by
    have hmap := congrArg (List.countP (· = k)) hkinds
    rwa [List.countP_map, List.countP_map] at hmap
  have hnil : (Token.scan right c').1.takeWhile (·.kind ≠ .close) = [] ↔
      (Token.scan right c).1.takeWhile (·.kind ≠ .close) = [] := by
    rw [← List.map_eq_nil_iff (f := Token.kind), hkinds, List.map_eq_nil_iff]
  unfold compile
  dsimp only
  rw [hall, hcount, hcount]
  simp only [hnil]
  split
  · exact ⟨.halted, rfl⟩
  split
  · exact ⟨.halted, rfl⟩
  split
  · exact ⟨.halted, rfl⟩
  · exact compileBody_of_same hbody _ _

end Condition

end Stencil
