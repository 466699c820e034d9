import Stencil.Proofs.Neighbours
import Stencil.Proofs.Nestings

/-!
# Single equals signs

A single equals sign between two operands is put right while a condition is checked. The condition
with two equals signs in its place is read on its own from the start, and nothing comes out
differently: no token joins the longer sign, every other token is found as before, and there is
nothing left to warn about.

## Main definitions

* `Text.doubleSigns`: a text with two equals signs in some places.
* `Token.Respells`: a token that is what the check makes of another one.

## Main results

* `Condition.exists_spelled_doubleSigns`: the tokens of the text with two equals signs in the place
  of each single one.
* `Condition.compile_doubleSigns`: putting a single equals sign right is the same as having written
  two.
-/

namespace Stencil

open Token (Kind)
open Text (Cursor)

namespace Text

/-- The text with two equals signs in the place of the character at each of some byte offsets, read
from an offset on. -/
def doubleSigns (places : List Nat) : Nat → List Char → List Char
  | _, [] => []
  | o, c :: cs =>
    (if o ∈ places then ['=', '='] else [c]) ++ doubleSigns places (o + c.utf8Size) cs

variable {places : List Nat} {o : Nat} {as bs : List Char}

theorem doubleSigns_append (places : List Nat) (o : Nat) (as bs : List Char) :
    doubleSigns places o (as ++ bs) =
      doubleSigns places o as ++ doubleSigns places (o + byteLength as) bs := by
  induction as generalizing o with
  | nil => rfl
  | cons a as ih =>
    rw [List.cons_append, doubleSigns, doubleSigns, ih, List.append_assoc, byteLength_cons,
      Nat.add_assoc]

/-- A text stays as it is when none of the places is in it. -/
theorem doubleSigns_of_forall (h : ∀ p ∈ places, p < o ∨ o + byteLength as ≤ p) :
    doubleSigns places o as = as := by
  induction as generalizing o with
  | nil => rfl
  | cons a as ih =>
    have hpos := Char.utf8Size_pos a
    simp only [byteLength_cons] at h
    have hnot : o ∉ places := fun ho ↦ by
      have := h o ho
      omega
    have hrest := ih (o := o + a.utf8Size) fun p hp ↦ by
      have := h p hp
      omega
    rw [doubleSigns, if_neg hnot, hrest, List.singleton_append]

/-- The text begins as it did when there is an equals sign in each of the places. -/
theorem head?_doubleSigns (h : o ∈ places → as.head? = some '=') :
    (doubleSigns places o as).head? = as.head? := by
  cases as with
  | nil => rfl
  | cons a as =>
    rw [doubleSigns]
    split
    · rename_i ho
      rw [h ho]
      rfl
    · rfl

end Text

open Text (doubleSigns)

/-- A token that is what the check makes of another one, apart from its place. -/
def Token.Respells (t u : Token) : Prop :=
  u.kind = (Condition.corrected t).kind ∧ u.text = (Condition.corrected t).text

namespace Condition

open Token (isStop goesOn wordKinds)

/-! ### What stands behind an operand -/

section Behind

variable {o : Nat} {cs rest : List Char} {next : Cursor} {body : List Token} {s s' : State}
  {t : Token}

/-- Where no operand may begin, only a symbol can be next without an error. -/
theorem kind_not_mem_of_advance (h : Advance s t s') (hs : ¬ s.expected.StartsOperand) :
    t.kind ∉ wordKinds := by
  cases h with
  | operator n ht => rcases ht with ht | ht <;> rw [ht] <;> decide
  | arguments n ht | close n ht => rw [ht]; decide
  | _ => exact absurd ‹_› hs

/-- Behind an operand and behind the name of a function no operand may begin. -/
theorem not_startsOperand_of_advance (h : Advance s t s') (ht : t.kind ∈ wordKinds) :
    ¬ s'.expected.StartsOperand := by
  cases h with
  | single => exact not_startsOperand_operator
  | name => exact not_startsOperand_argumentList
  | operator n hop => rcases hop with hop | hop <;> rw [hop] at ht <;> exact absurd ht (by decide)
  | unary n hk | group n hk | arguments n hk | close n hk =>
    rw [hk] at ht
    exact absurd ht (by decide)

/-- Where no operand may begin, the source goes on with a stop. -/
theorem isStop_of_spelled (h : Token.Spelled o cs body next) (hs : s.Regular)
    (hclean : Log.hasErrors (check s body).2 = false) (hexp : ¬ s.expected.StartsOperand) {a : Char}
    (ha : cs.head? = some a) : isStop a = true := by
  have hblank (ha : Text.isBlank a = true) : isStop a = true := by simp [isStop, ha]
  cases h with
  | @close _ bs rest hb =>
    cases bs with
    | nil =>
      obtain rfl : '\x7d' = a := by simpa using ha
      decide
    | cons b bs =>
      obtain rfl : b = a := by simpa using ha
      exact hblank (hb b List.mem_cons_self)
  | @token _ bs rest t body _ hb hoffset hl hr =>
    cases bs with
    | nil =>
      simp only [check, hasErrors_append, Bool.or_eq_false_iff] at hclean
      have hkind := kind_not_mem_of_advance (cleanStep_of_examine hs hclean.1).1 hexp
      have hsymbol := Token.symbol?_of_known? hl hkind
      have hne := Token.ne_nil_of_known? (Token.known?_self hl)
      obtain ⟨b, ds, htext⟩ := List.exists_cons_of_ne_nil hne
      obtain rfl : b = a := by simpa [htext] using ha
      have hmem := Token.symbol?_chars hsymbol b (by simp [htext])
      simp [isStop, hmem]
    | cons b bs =>
      obtain rfl : b = a := by simpa using ha
      exact hblank (hb b List.mem_cons_self)

/-- What stands behind a token of a condition does not go on with it. -/
theorem beginsOutside_of_spelled
    (hl : Token.known? (t.text ++ rest) = some ⟨t.kind, t.text.length⟩)
    (h : Token.Spelled o rest body next) (hs : s.Regular)
    (hclean : Log.hasErrors (check s (t :: body)).2 = false) :
    Text.BeginsOutside (goesOn t.kind t.text) rest := by
  intro a ha
  by_cases hword : t.kind ∈ wordKinds
  · simp only [check, hasErrors_append, Bool.or_eq_false_iff] at hclean
    have hstep := (cleanStep_of_examine hs hclean.1).1
    refine Token.goesOn_of_isStop hword ?_
    exact isStop_of_spelled h hstep.regular hclean.2 (not_startsOperand_of_advance hstep hword) ha
  · obtain ⟨cs, rfl⟩ : ∃ cs, rest = a :: cs := ⟨rest.tail, List.eq_cons_of_mem_head? ha⟩
    exact Token.goesOn_of_known? hl hword

end Behind

/-! ### The text with two equals signs -/

section Doubled

variable {o : Nat} {cs rest : List Char} {next : Cursor} {body : List Token} {s : State} {t : Token}
  {places : List Nat}

/-- A double equals sign goes on with nothing that a single one does not go on with. -/
theorem goesOn_doubled {a : Char} (h : goesOn .assign ['='] a = false) :
    goesOn .binary ['=', '='] a = false := by
  have hall : ∀ s ∈ Token.symbols, s.toList.take 2 = ['=', '='] → s.toList.drop 2 ⊆ ['='] := by
    decide +kernel
  refine Token.goesOn_eq_false (by decide) (fun s hs heq ↦ ?_) (by simp) (by simp)
  have hmem := hall s hs (by rw [heq]; rfl)
  obtain rfl : a = '=' := by simpa [heq] using hmem
  exact absurd h (by decide)

/-- A token put right is read whole where the token itself was. -/
theorem known?_corrected {rest' : List Char} (hassign : t.kind = .assign → t.text = ['='])
    (h : Token.known? t.text = some ⟨t.kind, t.text.length⟩)
    (hgoes : Text.BeginsOutside (goesOn t.kind t.text) rest) (hhead : rest'.head? = rest.head?) :
    Token.known? ((corrected t).text ++ rest') =
      some ⟨(corrected t).kind, (corrected t).text.length⟩ := by
  by_cases ht : t.kind = .assign
  · rw [ht, hassign ht] at hgoes
    rw [corrected, if_pos ht]
    have hdouble : Token.known? ['=', '='] = some ⟨.binary, ['=', '='].length⟩ := by decide +kernel
    refine Token.known?_append_of_beginsOutside hdouble fun a ha ↦ ?_
    exact goesOn_doubled (hgoes a (hhead ▸ ha))
  · rw [corrected_of_ne ht]
    exact Token.known?_append_of_beginsOutside h fun a ha ↦ hgoes a (hhead ▸ ha)

/-- From a place on, some offsets are exactly those of the single equals signs. -/
def SignsFrom (places : List Nat) (o : Nat) (ts : List Token) : Prop :=
  ∀ p, o ≤ p → (p ∈ places ↔ ∃ t ∈ ts, t.kind = .assign ∧ t.offset = p)

theorem SignsFrom.mono {o o' : Nat} {ts : List Token} (h : SignsFrom places o ts) (hle : o ≤ o') :
    SignsFrom places o' ts :=
  fun p hp ↦ h p (hle.trans hp)

theorem SignsFrom.tail {o : Nat} (h : SignsFrom places o (t :: body)) (hlt : t.offset < o) :
    SignsFrom places o body := by
  intro p hp
  rw [h p hp, List.exists_mem_cons_iff]
  refine or_iff_right ?_
  rintro ⟨-, rfl⟩
  omega

/-- A text before the first of the tokens stays as it is. -/
theorem SignsFrom.doubleSigns_eq {o : Nat} {ts : List Token} {as : List Char}
    (h : SignsFrom places o ts) (hts : ∀ t ∈ ts, o + Text.byteLength as ≤ t.offset) :
    doubleSigns places o as = as := by
  refine Text.doubleSigns_of_forall fun p hp ↦ ?_
  rcases Nat.lt_or_ge p o with hlt | hge
  · exact Or.inl hlt
  · obtain ⟨t, ht, -, rfl⟩ := (h p hge).mp hp
    exact Or.inr (hts t ht)

/-- The text of a token becomes the text of the token put right. -/
theorem SignsFrom.doubleSigns_text (h : SignsFrom places t.offset (t :: body))
    (hassign : t.kind = .assign → t.text = ['='])
    (hbody : ∀ u ∈ body, t.offset + Text.byteLength t.text ≤ u.offset) :
    doubleSigns places t.offset t.text = (corrected t).text := by
  by_cases ht : t.kind = .assign
  · have hmem : t.offset ∈ places := (h _ le_rfl).mpr ⟨t, List.mem_cons_self, ht, rfl⟩
    rw [corrected, if_pos ht, hassign ht]
    simp [doubleSigns, hmem, equality]
  · rw [corrected_of_ne ht]
    refine Text.doubleSigns_of_forall fun p hp ↦ ?_
    rcases Nat.lt_or_ge p t.offset with hlt | hge
    · exact Or.inl hlt
    · obtain ⟨u, hu, hkind, rfl⟩ := (h p hge).mp hp
      rcases List.mem_cons.mp hu with rfl | hu
      · exact absurd hkind ht
      · exact Or.inr (hbody u hu)

/-- The text behind a token begins as it did. -/
theorem SignsFrom.head?_eq (h : SignsFrom places o body) (hr : Token.Spelled o cs body next) :
    (doubleSigns places o cs).head? = cs.head? := by
  refine Text.head?_doubleSigns fun hmem ↦ ?_
  obtain ⟨u, hu, hkind, hoffset⟩ := (h _ le_rfl).mp hmem
  cases hr with
  | close => exact absurd hu (by simp)
  | @token _ bs rest t body _ hb hfirst hl hr =>
    have hpos := Text.byteLength_pos (Token.ne_nil_of_known? (Token.known?_self hl))
    rcases List.mem_cons.mp hu with rfl | hu
    · have hbs : bs = [] := by
        by_contra hne
        have := Text.byteLength_pos hne
        omega
      have htext := Token.take_of_known?_assign hl hkind
      rw [List.take_left] at htext
      rw [hbs, htext]
      rfl
    · have hle := hr.le_offset u hu
      omega

theorem byteLength_corrected (hassign : t.kind = .assign → t.text = ['=']) :
    Text.byteLength (corrected t).text = Text.byteLength t.text + count .assign [t] := by
  by_cases ht : t.kind = .assign
  · rw [corrected, if_pos ht, hassign ht, count_of_eq ht]
    rfl
  · rw [corrected_of_ne ht, count_of_ne ht, Nat.add_zero]

/-- The tokens of a condition in which every single equals sign is written as two. The places move
on by one byte for each sign before them. -/
theorem exists_spelled_doubleSigns (h : Token.Spelled o cs body next) (hs : s.Regular)
    (hclean : Log.hasErrors (check s body).2 = false) (hplaces : SignsFrom places o body)
    (k : Nat) :
    ∃ body', Token.Spelled (k + o) (doubleSigns places o cs) body'
        (next.shift (k + count .assign body)) ∧ List.Forall₂ Token.Respells body body' := by
  induction h generalizing s k with
  | @close o bs rest hb =>
    refine ⟨[], ?_, .nil⟩
    rw [hplaces.doubleSigns_eq (List.forall_mem_nil _)]
    have hclose := @Token.Spelled.close (k + o) bs rest hb
    rwa [Nat.add_assoc, Nat.add_assoc, ← Nat.add_assoc o] at hclose
  | @token o bs rest t body next hb hoffset hl hr ih =>
    have hassign (ht : t.kind = .assign) : t.text = ['='] := by
      simpa using Token.take_of_known?_assign hl ht
    have hle := hr.le_offset
    have hpos := Text.byteLength_pos (Token.ne_nil_of_known? (Token.known?_self hl))
    have hbefore : doubleSigns places o bs = bs :=
      hplaces.doubleSigns_eq (List.forall_mem_cons.mpr ⟨by omega, fun u hu ↦ by
        have := hle u hu
        omega⟩)
    have htext : doubleSigns places t.offset t.text = (corrected t).text :=
      (hplaces.mono (by omega)).doubleSigns_text hassign hle
    have hbehind : SignsFrom places (t.offset + Text.byteLength t.text) body :=
      (hplaces.mono (by omega)).tail (by omega)
    have hgoes := beginsOutside_of_spelled hl hr hs hclean
    simp only [check, hasErrors_append, Bool.or_eq_false_iff] at hclean
    have hnext := (cleanStep_of_examine hs hclean.1).1.regular
    obtain ⟨body', hspelled, hrespells⟩ := ih hnext hclean.2 hbehind (k + count .assign [t])
    refine ⟨⟨(corrected t).kind, (corrected t).text, k + t.offset⟩ :: body', ?_,
      .cons ⟨rfl, rfl⟩ hrespells⟩
    rw [Text.doubleSigns_append, Text.doubleSigns_append, hbefore, ← hoffset, htext, count_cons]
    have hplace : k + t.offset = k + o + Text.byteLength bs := by omega
    have hlater : Token.Spelled (k + t.offset + Text.byteLength (corrected t).text)
        (doubleSigns places (t.offset + Text.byteLength t.text) rest) body'
        (next.shift (k + (count .assign [t] + count .assign body))) := by
      have hbytes : k + t.offset + (Text.byteLength t.text + count .assign [t]) =
          k + count .assign [t] + (t.offset + Text.byteLength t.text) := by omega
      rw [byteLength_corrected hassign, hbytes, ← Nat.add_assoc k]
      exact hspelled
    exact .token (t := ⟨_, _, k + t.offset⟩) hb hplace
      (known?_corrected hassign (Token.known?_self hl) hgoes (hbehind.head?_eq hr)) hlater

end Doubled

/-! ### Conditions with two equals signs -/

section Compiled

variable {c next : Cursor} {body body' : List Token} {e : Expr} {notes : Log}

theorem meaning?_of_respells {t u : Token} (h : t.Respells u) : u.meaning? = t.meaning? := by
  rw [← meaning?_corrected t]
  simp only [Token.meaning?, Token.symbol, h.1, h.2]

/-- Tokens put right say what the tokens themselves say. -/
theorem says_of_respells {ms : List Meaning} (h : List.Forall₂ Token.Respells body body')
    (hbody : Says body ms) : Says body' ms := by
  have hmeanings : body'.map Token.meaning? = body.map Token.meaning? := by
    clear hbody
    induction h with
    | nil => rfl
    | cons ht _ ih => rw [List.map_cons, List.map_cons, meaning?_of_respells ht, ih]
  rw [Says, hmeanings]
  exact hbody

/-- There is nothing to say about tokens put right. -/
theorem warnings_of_respells (h : List.Forall₂ Token.Respells body body') :
    warnings body' = [] := by
  induction h with
  | nil => rfl
  | @cons t u ts us ht _ ih =>
    have hkind : u.kind ≠ .assign := by
      rw [ht.1]
      by_cases hassign : t.kind = .assign
      · simp [corrected, hassign, equality]
      · rwa [corrected_of_ne hassign]
    rw [← List.singleton_append, warnings_append, ih, warnings]
    simp [hkind]

/-- The single equals signs that the scan of a tag finds are those of its condition. -/
theorem filter_scan_of_closes (h : Token.Closes ['\x7d'] c body next) :
    (Token.scan ['\x7d'] c).1.filter (·.kind = .assign) = body.filter (·.kind = .assign) := by
  obtain ⟨o, ho⟩ := Token.scan_eq_of_closes (by simp) h
  simp [ho]

/-- A condition is accepted with one warning for each single equals sign, in their order and at
their places. With two equals signs in the place of each of them it is accepted as the same
expression, and there is nothing to warn about. -/
theorem compile_doubleSigns (h : compile ['\x7d'] c = (.accepted e next, notes)) :
    let signs := (Token.scan ['\x7d'] c).1.filter (·.kind = .assign)
    (∀ t ∈ signs, t.text = ['=']) ∧ notes = signs.map (fault .singleEquals) ∧
      compile ['\x7d'] ⟨c.offset, doubleSigns (signs.map Token.offset) c.offset c.rest⟩ =
        (.accepted e (next.shift signs.length), []) := by
  have hright : ['\x7d'] ≠ [] := List.cons_ne_nil _ _
  obtain ⟨body, haccepts, rfl⟩ := (compile_eq_accepted_iff hright).mp h
  obtain ⟨hcloses, hsaid, hgood, hdepth⟩ := accepts_iff.mp haccepts
  have hcheck := check_of_scan (takeWhile_of_closes hright hcloses) haccepts.derives
  have hclean : Log.hasErrors (check .start body).2 = false := by
    rw [hcheck, hasErrors_warnings]
  have htext : ∀ t ∈ (Token.scan ['\x7d'] c).1.filter (·.kind = .assign), t.text = ['='] := by
    intro t ht
    obtain ⟨ht, hkind⟩ := List.mem_filter.mp ht
    exact Token.text_of_assign ht (by simpa using hkind)
  rw [filter_scan_of_closes hcloses] at htext ⊢
  intro signs
  have hmem (t : Token) : t ∈ signs ↔ t ∈ body ∧ t.kind = .assign := by
    simp [signs]
  have hplaces : SignsFrom (signs.map Token.offset) c.offset body := by
    intro p _
    simp only [List.mem_map, hmem, and_assoc]
  obtain ⟨body', hspelled, hrespells⟩ :=
    exists_spelled_doubleSigns hcloses.spelled (by simp [State.Regular, State.start])
      hclean hplaces 0
  have hcount : count .assign body = signs.length := List.countP_eq_length_filter
  rw [Nat.zero_add, Nat.zero_add, hcount] at hspelled
  refine ⟨htext, rfl, (compile_eq_accepted_iff hright).mpr ⟨body', accepts_iff.mpr ?_, ?_⟩⟩
  · exact ⟨hspelled.closes, says_of_respells hrespells hsaid, hgood, hdepth⟩
  · exact (warnings_of_respells hrespells).symm

/-- Two single equals signs, one of them next to a text that holds a third. -/
theorem compile_doubleSigns_of_two_signs :
    ∃ e notes, compile ['\x7d'] (.ofText "%a='='||!%b = %c\x7d".toList) =
        (.accepted e ⟨17, []⟩, notes) ∧ notes.map Diagnostic.offset = [2, 12] ∧
      compile ['\x7d'] (.ofText "%a=='='||!%b == %c\x7d".toList) = (.accepted e ⟨19, []⟩, []) := by
  have hnext : (compile ['\x7d'] (.ofText "%a='='||!%b = %c\x7d".toList)).1.accepted?.map
      (fun accepted ↦ (accepted.2.offset, accepted.2.rest)) = some (17, []) := by
    decide +kernel
  have hsigns : (Token.scan ['\x7d'] (.ofText "%a='='||!%b = %c\x7d".toList)).1.filter
      (·.kind = .assign) = [⟨.assign, ['='], 2⟩, ⟨.assign, ['='], 12⟩] := by
    decide +kernel
  obtain ⟨e, next, notes, h, heq⟩ := exists_of_accepted? hnext
  obtain ⟨hoffset, hrest⟩ := Prod.mk.inj heq
  obtain rfl : next = ⟨17, []⟩ := by rw [← hoffset, ← hrest]
  obtain ⟨-, hnotes, hdoubled⟩ := compile_doubleSigns h
  rw [hsigns] at hnotes hdoubled
  exact ⟨e, notes, h, by rw [hnotes]; rfl, hdoubled⟩

end Compiled

end Condition

end Stencil
