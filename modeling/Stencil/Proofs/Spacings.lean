import Stencil.Proofs.Neighbours
import Stencil.Proofs.Placeless

/-!
# Blanks between tokens

No token goes on with a blank, so that the texts of known tokens can be written with any blanks
between them: they are found again, each as it was. What becomes of a condition does not depend on
the places of its tokens, so that it does not depend on its blanks either.

## Main definitions

* `Text.Spaced`: texts written one behind the other with blanks between them.

## Main results

* `Token.goesOn_of_isBlank`: no token goes on with a blank.
* `Token.exists_spelled_spaced`: known tokens are found again behind blanks.
* `Condition.compile_spaced`: what becomes of a condition does not depend on its blanks.
-/

namespace Stencil

open Text (Cursor BeginsOutside)
open Token (Kind)

namespace Text

/-- Texts written one behind the other, with at least one blank between each and the next. -/
inductive Spaced : List (List Char) → List Char → Prop
  | last {text : List Char} : Spaced [text] text
  | cons {text gap cs : List Char} {texts : List (List Char)} (hne : gap ≠ [])
      (hgap : ∀ b ∈ gap, isBlank b = true) (h : Spaced texts cs) :
      Spaced (text :: texts) (text ++ (gap ++ cs))

end Text

namespace Token

variable {k : Kind} {text rest cs bs : List Char} {o : Nat} {body : List Token} {next : Cursor}
  {t u : Token}

/-- No token goes on with a blank. -/
theorem goesOn_of_isBlank {b : Char} (h : known? text = some ⟨k, text.length⟩)
    (hb : Text.isBlank b = true) : goesOn k text b = false := by
  have hstop : isStop b = true := by simp [isStop, hb]
  by_cases hk : k ∈ wordKinds
  · exact goesOn_of_isStop hk hstop
  have hsymbol := (symbol?_eq_some (symbol?_of_known? h hk)).2
  rw [List.take_length] at hsymbol
  have hword : Text.isWordChar b = false :=
    show goesOn .word text b = false from goesOn_of_isStop (by decide) hstop
  have hdigit : b.isDigit = false := by
    simp only [Text.isWordChar, Char.isAlphanum, Bool.or_eq_false_iff] at hword
    exact hword.1.2
  refine goesOn_eq_false hsymbol (fun s hs hlist ↦ ?_) (fun _ ↦ hword) fun _ ↦ hdigit
  have hnone : symbols.all (fun s ↦ s.toList.all fun d ↦ !Text.isBlank d) = true := by
    decide +kernel
  have hsymbols := List.all_eq_true.mp (List.all_eq_true.mp hnone s hs) b (by rw [hlist]; simp)
  simp [hb] at hsymbols

theorem Spelled.blanks (hb : ∀ b ∈ bs, Text.isBlank b = true)
    (h : Spelled (o + Text.byteLength bs) cs body next) : Spelled o (bs ++ cs) body next := by
  induction bs generalizing o with
  | nil => exact h
  | cons b bs ih =>
    obtain ⟨hblank, hb⟩ := List.forall_mem_cons.mp hb
    rw [Text.byteLength_cons, ← Nat.add_assoc] at h
    exact .blank hblank (ih hb h)

/-- The tokens of a text that is taken apart are known by themselves. -/
theorem Spelled.known (h : Spelled o cs body next) :
    ∀ t ∈ body, known? t.text = some ⟨t.kind, t.text.length⟩ := by
  induction h with
  | close => exact List.forall_mem_nil _
  | token hb hoffset hl hr ih => exact List.forall_mem_cons.mpr ⟨known?_self hl, ih⟩

/-- Known tokens that are written with blanks between them, up to a closing brace, are found
again. -/
theorem exists_spelled_spaced (hbody : ∀ t ∈ body, known? t.text = some ⟨t.kind, t.text.length⟩)
    (hcs : Text.Spaced (body.map Token.text ++ [['\x7d']]) cs) (o : Nat) (rest : List Char) :
    ∃ body' next', Spelled o (cs ++ rest) body' next' ∧ List.Forall₂ Same body body' ∧
      next'.rest = rest := by
  induction body generalizing o cs with
  | nil =>
    cases hcs with
    | last => exact ⟨[], _, @Spelled.close o [] rest (List.forall_mem_nil _), .nil, rfl⟩
    | cons hne hgap h => cases h
  | cons t body ih =>
    obtain ⟨ht, hbody⟩ := List.forall_mem_cons.mp hbody
    generalize htexts : (t :: body).map Token.text ++ [['\x7d']] = texts at hcs
    cases hcs with
    | last => simp at htexts
    | @cons text gap cs texts hne hgap h =>
      obtain ⟨rfl, rfl⟩ := List.cons.inj htexts
      obtain ⟨b, gap, rfl⟩ := List.exists_cons_of_ne_nil hne
      obtain ⟨body', next', hspelled, hsame, hrest⟩ := ih hbody h
        (o + Text.byteLength t.text + Text.byteLength (b :: gap))
      have hgoes : BeginsOutside (goesOn t.kind t.text) (b :: gap ++ (cs ++ rest)) := by
        intro a ha
        obtain rfl : b = a := by simpa using ha
        exact goesOn_of_isBlank ht (hgap b List.mem_cons_self)
      refine ⟨⟨t.kind, t.text, o⟩ :: body', next', ?_, .cons ⟨rfl, rfl⟩ hsame, hrest⟩
      rw [List.append_assoc, List.append_assoc]
      exact .cons ht hgoes (.blanks hgap hspelled)

end Token

namespace Condition

open Token (Same)

variable {right : List Char} {c next : Cursor} {t : Token}

/-- What becomes of a condition does not depend on its blanks. The tokens of a condition up to a
closing brace, when all of them are known, can be written again from any place on and in front of
any text, with any blanks before the first of them and at least one blank between each and the next.
Then the same tokens are found, the same becomes of the condition, and the same is recorded about
it, apart from the places. -/
theorem compile_spaced {body : List Token} {lead cs : List Char}
    (hscan : Token.scan ['\x7d'] c = (body ++ [t], next)) (hclose : t.kind = .close)
    (hknown : ∀ u ∈ body, u.kind ≠ .other) (hlead : ∀ b ∈ lead, Text.isBlank b = true)
    (hcs : Text.Spaced ((body ++ [t]).map Token.text) cs) (o : Nat) (rest : List Char) :
    List.Forall₂ Same (Token.scan ['\x7d'] c).1
        (Token.scan ['\x7d'] ⟨o, lead ++ (cs ++ rest)⟩).1 ∧
      (Token.scan ['\x7d'] ⟨o, lead ++ (cs ++ rest)⟩).2.rest = rest ∧
      Outcome.Agrees (compile ['\x7d'] c).1 (compile ['\x7d'] ⟨o, lead ++ (cs ++ rest)⟩).1 ∧
      (compile ['\x7d'] ⟨o, lead ++ (cs ++ rest)⟩).2.map Diagnostic.gist =
        (compile ['\x7d'] c).2.map Diagnostic.gist := by
  have hright : ['\x7d'] ≠ [] := List.cons_ne_nil _ _
  have hcloses := Token.closes_of_scan hclose hknown hscan
  obtain ⟨place, hfound⟩ := Token.scan_eq_of_closes hright hcloses
  obtain ⟨-, hlast⟩ := List.append_inj' (Prod.mk.inj (hscan.symm.trans hfound)).1 rfl
  obtain rfl := List.singleton_inj.mp hlast
  rw [List.map_append] at hcs
  obtain ⟨body', next', hspelled, hsame, hrest⟩ :=
    Token.exists_spelled_spaced hcloses.spelled.known hcs (o + Text.byteLength lead) rest
  obtain ⟨place', hfound'⟩ := Token.scan_eq_of_closes hright (hspelled.blanks hlead).closes
  have htokens : List.Forall₂ Same (Token.scan ['\x7d'] c).1
      (Token.scan ['\x7d'] ⟨o, lead ++ (cs ++ rest)⟩).1 := by
    rw [hscan, hfound']
    exact List.rel_append hsame (.cons ⟨rfl, rfl⟩ .nil)
  refine ⟨htokens, ?_, compile_of_same htokens⟩
  rw [hfound']
  exact hrest

/-- A condition with no blank and a single equals sign in front of a minus, and the same condition
with blanks, further on in a source and in front of a text. -/
theorem compile_spaced_signs :
    Outcome.Agrees (compile ['\x7d'] ⟨0, "%a.b=-1\x7d".toList⟩).1
        (compile ['\x7d'] ⟨4, "\t%a.b = -1\n \x7dz".toList⟩).1 ∧
      (compile ['\x7d'] ⟨4, "\t%a.b = -1\n \x7dz".toList⟩).2.map Diagnostic.gist =
        [(.singleEquals, "=", false)] := by
  have hscan : Token.scan ['\x7d'] ⟨0, "%a.b=-1\x7d".toList⟩ =
      ([⟨.path, "%a.b".toList, 0⟩, ⟨.assign, ['='], 4⟩, ⟨.number, ['-', '1'], 5⟩] ++
        [⟨.close, ['\x7d'], 7⟩], (Token.scan ['\x7d'] ⟨0, "%a.b=-1\x7d".toList⟩).2) :=
    Prod.ext (by decide +kernel) rfl
  have hcs : Text.Spaced ["%a.b".toList, ['='], ['-', '1'], ['\x7d']] "%a.b = -1\n \x7d".toList :=
    @Text.Spaced.cons "%a.b".toList [' '] _ _ (by decide) (List.all_eq_true.mp rfl)
      (@Text.Spaced.cons ['='] [' '] _ _ (by decide) (List.all_eq_true.mp rfl)
        (@Text.Spaced.cons ['-', '1'] ['\n', ' '] _ _ (by decide) (List.all_eq_true.mp rfl) .last))
  have hlead : ∀ b ∈ ['\t'], Text.isBlank b = true := List.all_eq_true.mp rfl
  obtain ⟨-, -, hagrees, hgists⟩ := compile_spaced hscan rfl (by decide) hlead hcs 4 ['z']
  refine ⟨hagrees, hgists.trans ?_⟩
  decide +kernel

end Condition

end Stencil
