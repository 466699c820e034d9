import Mathlib.Data.List.Infix
import Stencil.Proofs.Tokens

/-!
# Tokens and what follows them

A token is the longest one at its place, so that writing two tokens side by side may join them. It
does not when the character behind a token cannot go on with it. For a symbol this is all that a
longest match asks; for a name or a number it is enough that no word character, point or bracket
follows.

## Main definitions

* `Text.BeginsOutside`: a text that does not begin with a character of a class.
* `Token.goesOn`: whether a character may go on with a token.
* `Token.isStop`: the characters that end every name and every number.
* `Token.Spelled`: a text up to a closing brace as blanks and the texts of tokens.

## Main results

* `Token.known?_append_of_beginsOutside`: a token is read whole in front of what cannot go on with
  it.
* `Token.goesOn_of_known?`: what stands behind a symbol in a source does not go on with it.
* `Token.Closes.spelled`, `Token.Spelled.closes`: a run up to a closing brace, taken apart.
-/

namespace Stencil

namespace Text

/-- A text that does not begin with a character of a class. -/
def BeginsOutside (p : Char → Bool) (cs : List Char) : Prop :=
  ∀ c, cs.head? = some c → p c = false

variable {p q : Char → Bool} {as bs cs : List Char} {n : Nat} {c : Char}

theorem BeginsOutside.imp (h : BeginsOutside p cs) (hpq : ∀ c, q c = true → p c = true) :
    BeginsOutside q cs := by
  intro c hc
  by_contra hq
  have hp := h c hc
  rw [hpq c (by simpa using hq)] at hp
  exact absurd hp (by decide)

/-- A run ends where a text begins outside of its class. -/
theorem takeWhile_append_of_beginsOutside (h : BeginsOutside p bs) :
    (as ++ bs).takeWhile p = as.takeWhile p := by
  rw [List.takeWhile_append]
  split
  · rename_i hall
    have hnone : bs.takeWhile p = [] := by
      cases bs with
      | nil => rfl
      | cons b bs => rw [List.takeWhile_cons_of_neg (by simpa using h b rfl)]
    rw [hnone, List.append_nil, (List.takeWhile_prefix p).eq_of_length hall]
  · rfl

theorem wordLength_append_of_beginsOutside (h : BeginsOutside isWordChar bs) :
    wordLength (as ++ bs) = wordLength as := by
  rw [wordLength, wordLength, takeWhile_append_of_beginsOutside h]

theorem digitsLength_append_of_beginsOutside (h : BeginsOutside Char.isDigit bs) :
    digitsLength (as ++ bs) = digitsLength as := by
  rw [digitsLength, digitsLength, takeWhile_append_of_beginsOutside h]

/-! ### Paths -/

/-- The characters that may go on with a path. -/
def isPathOn (c : Char) : Bool :=
  isWordChar c || c == '.' || c == '['

theorem BeginsOutside.isWordChar_of_isPathOn (h : BeginsOutside isPathOn bs) :
    BeginsOutside isWordChar bs :=
  h.imp fun c hc ↦ by simp [isPathOn, hc]

theorem BeginsOutside.head?_ne (h : BeginsOutside p bs) (hc : p c = true) : bs.head? ≠ some c := by
  intro hhead
  rw [h c hhead] at hc
  exact absurd hc (by decide)

theorem isWordChar_of_isNameStart (h : isNameStart c = true) : isWordChar c = true :=
  of_ascii (fun _ ↦ toNat_lt_of_isNameStart) (by decide +kernel) h

theorem selectorLength?_append_of_beginsOutside (h : BeginsOutside isPathOn bs) :
    selectorLength? (as ++ bs) = selectorLength? as := by
  match as with
  | [] =>
    cases bs with
    | nil => rfl
    | cons b bs =>
      have hb : b ≠ '.' := fun he ↦ h.head?_ne (c := '.') (by decide) (by rw [he]; rfl)
      simp [selectorLength?, hb]
  | [a] =>
    cases bs with
    | nil => rfl
    | cons b bs =>
      have hb : isNameStart b = false := by
        by_contra hname
        have hword := isWordChar_of_isNameStart (Bool.not_eq_false _ ▸ hname)
        rw [h.isWordChar_of_isPathOn b rfl] at hword
        exact absurd hword (by decide)
      rw [List.singleton_append, selectorLength?_cons_cons, hb]
      simp [selectorLength?]
  | a :: d :: ds =>
    rw [List.cons_append, List.cons_append, selectorLength?_cons_cons, selectorLength?_cons_cons,
      ← List.cons_append, wordLength_append_of_beginsOutside h.isWordChar_of_isPathOn]

theorem stepLength?_of_beginsOutside (h : BeginsOutside isPathOn bs) : stepLength? bs = none := by
  have hselector : selectorLength? ([] ++ bs) = none := selectorLength?_append_of_beginsOutside h
  rw [List.nil_append] at hselector
  have hbracket : bracketLength? bs = none := by
    by_contra hsome
    obtain ⟨m, hm⟩ := Option.ne_none_iff_exists'.mp hsome
    obtain ⟨ds, -, rfl, -⟩ := bracketLength?_eq_some hm
    exact h.head?_ne (c := '[') (by decide) rfl
  rw [stepLength?, hselector, hbracket, Option.or_none]

/-- Steps that fill a text stay what they are in front of what cannot go on with them. -/
theorem stepsLength_append_of_beginsOutside (hall : stepsLength as = as.length)
    (h : BeginsOutside isPathOn bs) : stepsLength (as ++ bs) = as.length := by
  generalize hn : as.length = n
  induction n using Nat.strong_induction_on generalizing as with
  | _ n ih =>
    cases hstep : stepLength? as with
    | none =>
      rw [stepsLength_of_none hstep] at hall
      obtain rfl := List.length_eq_zero_iff.mp hall.symm
      rw [List.nil_append, stepsLength_of_none (stepLength?_of_beginsOutside h), ← hn, hall]
    | some m =>
      have hstep' : stepLength? (as ++ bs) = some m := by
        unfold stepLength? at hstep ⊢
        rw [selectorLength?_append_of_beginsOutside h]
        rcases Option.or_eq_some_iff.mp hstep with h | ⟨hnone, h⟩
        · rw [h, Option.some_or]
        · rw [hnone, Option.none_or, bracketLength?_append h]
      have hlen := stepsLength_of_some hstep
      have hm : m ≤ as.length := by omega
      have hlt := length_drop_lt (stepLength?_pos hstep)
      have hrest : stepsLength (as.drop m) = (as.drop m).length := by
        rw [List.length_drop]
        omega
      rw [stepsLength_of_some hstep', List.drop_append_of_le_length hm,
        ih _ (hn ▸ hlt) hrest rfl, List.length_drop]
      omega

theorem pathLength?_append_of_beginsOutside (hall : pathLength? as = some as.length)
    (h : BeginsOutside isPathOn bs) : pathLength? (as ++ bs) = some as.length := by
  obtain ⟨ds, rfl, hword, hlen⟩ := pathLength?_eq_some hall
  have hwords : wordLength (ds ++ bs) = wordLength ds :=
    wordLength_append_of_beginsOutside h.isWordChar_of_isPathOn
  have hle : wordLength ds ≤ ds.length := (List.takeWhile_prefix _).length_le
  have hrest : stepsLength (ds.drop (wordLength ds)) = (ds.drop (wordLength ds)).length := by
    rw [List.length_drop]
    rw [List.length_cons] at hlen
    omega
  rw [List.cons_append, pathLength?_cons (by rwa [hwords]), hwords,
    List.drop_append_of_le_length hle, stepsLength_append_of_beginsOutside hrest h, hlen, ← hrest]

/-! ### Numbers -/

/-- The characters that may go on with a number. -/
def isNumberOn (c : Char) : Bool :=
  isWordChar c || c == '.'

theorem isWordChar_of_isHexDigit (h : Numeral.isHexDigit c = true) : isWordChar c = true :=
  of_ascii (fun _ ↦ toNat_lt_of_isHexDigit) (by decide +kernel) h

theorem BeginsOutside.isDigit_of_isNumberOn (h : BeginsOutside isNumberOn bs) :
    BeginsOutside Char.isDigit bs :=
  h.imp fun c hc ↦ by simp [isNumberOn, isWordChar, Char.isAlphanum, hc]

theorem fractionLength?_append_of_beginsOutside (h : BeginsOutside isNumberOn bs) :
    fractionLength? (as ++ bs) = fractionLength? as := by
  match as with
  | [] =>
    cases bs with
    | nil => rfl
    | cons b bs =>
      have hb : b ≠ '.' := fun he ↦ h.head?_ne (c := '.') (by decide) (by rw [he]; rfl)
      simp [fractionLength?, hb]
  | a :: as =>
    by_cases ha : a = '.'
    · subst ha
      rw [List.cons_append, fractionLength?, fractionLength?,
        digitsLength_append_of_beginsOutside h.isDigit_of_isNumberOn]
    · simp [fractionLength?, ha]

theorem hexTailLength?_append_of_beginsOutside (h : BeginsOutside isNumberOn bs) :
    hexTailLength? (as ++ bs) = hexTailLength? as := by
  match as with
  | [] =>
    cases bs with
    | nil => rfl
    | cons b bs =>
      have hb : ¬(b = 'x' ∨ b = 'X') := by
        rintro (rfl | rfl) <;> exact absurd (h _ rfl) (by decide)
      simp [hexTailLength?, hb]
  | a :: as =>
    have hhex : BeginsOutside Numeral.isHexDigit bs :=
      h.imp fun c hc ↦ by simp [isNumberOn, isWordChar_of_isHexDigit hc]
    rw [List.cons_append, hexTailLength?, hexTailLength?,
      takeWhile_append_of_beginsOutside hhex]

end Text

namespace Token

open Text (Cursor BeginsOutside)

variable {text rest as bs : List Char} {k : Kind} {c : Char}

theorem tailLength_append_of_beginsOutside (digits : List Char)
    (h : BeginsOutside Text.isNumberOn bs) :
    tailLength digits (as ++ bs) = tailLength digits as := by
  simp only [tailLength, Text.hexTailLength?_append_of_beginsOutside h,
    Text.fractionLength?_append_of_beginsOutside h]

theorem unsignedLength?_append_of_beginsOutside (h : BeginsOutside Text.isNumberOn bs) :
    unsignedLength? (as ++ bs) = unsignedLength? as := by
  have hdigits : Text.digitsLength (as ++ bs) = Text.digitsLength as :=
    Text.digitsLength_append_of_beginsOutside h.isDigit_of_isNumberOn
  have hle : Text.digitsLength as ≤ as.length := (List.takeWhile_prefix _).length_le
  rw [unsignedLength?, unsignedLength?, hdigits, List.take_append_of_le_length hle,
    List.drop_append_of_le_length hle, tailLength_append_of_beginsOutside _ h]

/-- A number that has begun goes on in front of what cannot go on with it as without it. -/
theorem numberLength?_append_of_beginsOutside (hne : as ≠ [])
    (h : BeginsOutside Text.isNumberOn bs) : numberLength? (as ++ bs) = numberLength? as := by
  obtain ⟨a, as, rfl⟩ := List.exists_cons_of_ne_nil hne
  by_cases ha : a = '-'
  · subst ha
    rw [List.cons_append, numberLength?, numberLength?, unsignedLength?_append_of_beginsOutside h]
  · rw [numberLength?_of_ne (by simpa using ha), numberLength?_of_ne (by simpa using ha),
      unsignedLength?_append_of_beginsOutside h, Text.fractionLength?_append_of_beginsOutside h]

/-! ### Words -/

theorem word?_append_of_beginsOutside (hne : as ≠ []) (h : BeginsOutside Text.isWordChar bs) :
    word? (as ++ bs) = word? as := by
  obtain ⟨a, as, rfl⟩ := List.exists_cons_of_ne_nil hne
  have hword : Text.wordLength (a :: as ++ bs) = Text.wordLength (a :: as) :=
    Text.wordLength_append_of_beginsOutside h
  have hle : Text.wordLength (a :: as) ≤ (a :: as).length := (List.takeWhile_prefix _).length_le
  rw [List.cons_append] at hword
  cases ha : Text.isNameStart a with
  | true =>
    rw [List.cons_append, word?_cons ha, word?_cons ha, hword, ← List.cons_append,
      List.take_append_of_le_length hle]
  | false => simp [word?, wordLength?, ha]

/-! ### Symbols -/

/-- All symbols of conditions. -/
def symbols : List String :=
  BinaryOp.all.map BinaryOp.symbol ++ "<>" :: UnaryOp.all.map UnaryOp.symbol ++ ["(", ")", "="]

theorem mem_symbols_of_symbolKind? {s : String} (h : symbolKind? s = some k) : s ∈ symbols := by
  unfold symbolKind? at h
  split at h
  · rename_i hop
    obtain ⟨op, hop⟩ := Option.isSome_iff_exists.mp hop
    unfold BinaryOp.ofSymbol? at hop
    split at hop
    · rename_i hs
      exact hs ▸ by decide
    · obtain rfl : op.symbol = s := by simpa using List.find?_some hop
      cases op <;> decide
  split at h
  · rename_i hop
    obtain ⟨op, hop⟩ := Option.isSome_iff_exists.mp hop
    obtain rfl : op.symbol = s := by simpa using List.find?_some hop
    cases op <;> decide
  split at h
  · rename_i hs
    exact hs ▸ by decide
  split at h
  · rename_i hs
    exact hs ▸ by decide
  split at h
  · rename_i hs
    exact hs ▸ by decide
  · simp at h

/-- What a symbol begins with is a symbol. -/
theorem isSome_symbolKind?_of_prefix {s : String} (h : symbolKind? s = some k)
    (hpre : text <+: s.toList) (hne : text ≠ []) :
    (symbolKind? (String.ofList text)).isSome := by
  have hall : ∀ s ∈ symbols, ∀ p ∈ s.toList.inits, p ≠ [] →
      (symbolKind? (String.ofList p)).isSome := by
    decide +kernel
  exact hall s (mem_symbols_of_symbolKind? h) text ((List.mem_inits _ _).mpr hpre) hne

theorem symbol?_append (h : symbol? text = some ⟨k, text.length⟩)
    (hrest : ∀ c, rest.head? = some c → symbolKind? (String.ofList (text ++ [c])) = none) :
    symbol? (text ++ rest) = some ⟨k, text.length⟩ := by
  have hcut : Text.SurvivesCut Lexeme.length symbol? :=
    ((survivesCut_symbolOf? 3).or (survivesCut_symbolOf? 2)).or (survivesCut_symbolOf? 1)
  have hsome : symbol? (text ++ rest) ≠ none := fun hnone ↦ by
    rw [hcut.eq_none hnone] at h
    exact absurd h (by simp)
  obtain ⟨l, hl⟩ := Option.ne_none_iff_exists'.mp hsome
  have hle : l.length ≤ text.length := by
    by_contra hlt
    obtain ⟨hlen, hkind⟩ := symbol?_eq_some hl
    cases rest with
    | nil =>
      rw [List.append_nil, List.length_take] at hlen
      omega
    | cons c rest =>
      have hpre : text ++ [c] <+: (text ++ c :: rest).take l.length := by
        rw [List.prefix_take_iff]
        exact ⟨by simp, by simp; omega⟩
      have hsymbol := isSome_symbolKind?_of_prefix hkind (by simpa using hpre) (by simp)
      rw [hrest c rfl] at hsymbol
      exact absurd hsymbol (by decide)
  rw [hl, ← h, hcut.eq_some hl hle]

/-! ### The sort of a token -/

section Sorts

variable {a : Char} {cs : List Char}

theorem pathLength?_of_ne (ha : a ≠ '%') : Text.pathLength? (a :: cs) = none := by
  unfold Text.pathLength?
  split
  · exact absurd (List.cons.inj ‹_›).1 ha
  · rfl

theorem quotedLength?_of_ne (ha : a ≠ '"' ∧ a ≠ '\'') : quotedLength? (a :: cs) = none :=
  if_neg (not_or.mpr ha)

theorem numberLength?_of_not_isNumberStart (ha : a ≠ '-' ∧ a ≠ '.' ∧ a.isDigit = false) :
    numberLength? (a :: cs) = none := by
  have hdigits : Text.digitsLength (a :: cs) = 0 := by simp [Text.digitsLength, ha.2.2]
  have hfraction : Text.fractionLength? (a :: cs) = none := by simp [Text.fractionLength?, ha.2.1]
  rw [numberLength?_of_ne (by simpa using ha.1), unsignedLength?, if_pos hdigits, hfraction]
  rfl

theorem isNumberStart_of_numberLength? {n : Nat} (h : numberLength? (a :: cs) = some n) :
    a = '-' ∨ a = '.' ∨ a.isDigit = true := by
  by_contra hnot
  simp only [not_or, Bool.not_eq_true] at hnot
  rw [numberLength?_of_not_isNumberStart hnot] at h
  exact absurd h (by simp)

/-- A symbol is a symbol of the source, unless it begins a path or a number. -/
theorem known?_of_mem_symbolChars (ha : a ∈ symbolChars)
    (hpath : a = '%' → BeginsOutside Text.isWordChar cs)
    (hnumber : a = '-' → BeginsOutside Char.isDigit cs) : known? (a :: cs) = symbol? (a :: cs) := by
  have hchars : ∀ d ∈ symbolChars, (d ≠ '"' ∧ d ≠ '\'') ∧ (d ≠ '.' ∧ d.isDigit = false) ∧
      Text.isNameStart d = false := by
    simp [symbolChars, Text.isNameStart]
  obtain ⟨hquote, hdigit, hname⟩ := hchars a ha
  have hnone : Text.pathLength? (a :: cs) = none := by
    by_cases hpercent : a = '%'
    · subst hpercent
      have hword : Text.wordLength ([] ++ cs) = 0 :=
        Text.wordLength_append_of_beginsOutside (hpath rfl)
      exact if_pos hword
    · exact pathLength?_of_ne hpercent
  have hnone' : numberLength? (a :: cs) = none := by
    by_cases hminus : a = '-'
    · subst hminus
      have hdigits : Text.digitsLength ([] ++ cs) = 0 :=
        Text.digitsLength_append_of_beginsOutside (hnumber rfl)
      rw [numberLength?, Option.map_eq_none_iff]
      exact if_pos hdigits
    · exact numberLength?_of_not_isNumberStart ⟨hminus, hdigit⟩
  have hword : word? (a :: cs) = none := by simp [word?, wordLength?, hname]
  simp only [known?, hnone, quotedLength?_of_ne hquote, hnone', hword, Option.map_none,
    Option.none_or]

theorem known?_of_isNameStart (ha : Text.isNameStart a = true) :
    known? (a :: cs) = word? (a :: cs) := by
  have hne {d : Char} (hd : Text.isNameStart d = false) : a ≠ d := by
    rintro rfl
    rw [ha] at hd
    exact absurd hd (by decide)
  have hdigit : (!a.isDigit) = true :=
    Text.of_ascii (q := fun c ↦ !c.isDigit) (fun _ ↦ Text.toNat_lt_of_isNameStart)
      (by decide +kernel) ha
  have hnumber : a ≠ '-' ∧ a ≠ '.' ∧ a.isDigit = false :=
    ⟨hne (by decide), hne (by decide), by simpa using hdigit⟩
  simp only [known?, pathLength?_of_ne (hne (d := '%') (by decide)),
    quotedLength?_of_ne ⟨hne (d := '"') (by decide), hne (d := '\'') (by decide)⟩,
    numberLength?_of_not_isNumberStart hnumber, word?_cons ha, Option.map_none, Option.none_or,
    Option.some_or]

theorem known?_of_pathLength? {cs : List Char} {n : Nat} (h : Text.pathLength? cs = some n) :
    known? cs = some ⟨.path, n⟩ := by
  rw [known?, h]
  rfl

theorem known?_of_quotedLength? {cs : List Char} {n : Nat} (h : quotedLength? cs = some n) :
    known? cs = some ⟨.quoted, n⟩ := by
  obtain ⟨q, ds, m, rfl, hq, -⟩ := Text.quotedLengthWith?_eq_some h
  have hpath : q ≠ '%' := by rcases hq with rfl | rfl <;> decide
  rw [known?, pathLength?_of_ne hpath, h]
  rfl

theorem known?_of_numberLength? {cs : List Char} {n : Nat} (h : numberLength? cs = some n) :
    known? cs = some ⟨.number, n⟩ := by
  cases cs with
  | nil => cases h
  | cons a cs =>
    have hstart := isNumberStart_of_numberLength? h
    have hne {d : Char} (hd : d ≠ '-' ∧ d ≠ '.' ∧ d.isDigit = false) : a ≠ d := by
      rintro rfl
      simp [hd] at hstart
    rw [known?, pathLength?_of_ne (hne (d := '%') (by decide)),
      quotedLength?_of_ne ⟨hne (d := '"') (by decide), hne (d := '\'') (by decide)⟩, h]
    rfl

end Sorts

/-! ### Tokens in front of other texts -/

/-- Whether a character may go on with a token. A symbol goes on as another symbol; a percent sign
or a minus also as a path or a number. -/
def goesOn (k : Kind) (text : List Char) (c : Char) : Bool :=
  match k with
  | .path => Text.isPathOn c
  | .quoted => false
  | .number => Text.isNumberOn c
  | .truth | .word => Text.isWordChar c
  | _ =>
    (symbolKind? (String.ofList (text ++ [c]))).isSome || (text == ['%'] && Text.isWordChar c) ||
      (text == ['-'] && c.isDigit)

theorem ne_nil_of_known? (h : known? text = some ⟨k, text.length⟩) : text ≠ [] := by
  rintro rfl
  have hpos := known?_pos h
  simp at hpos

theorem goesOn_of_symbolKind? {s : String} (h : symbolKind? s = some k) :
    goesOn k text c = ((symbolKind? (String.ofList (text ++ [c]))).isSome ||
      (text == ['%'] && Text.isWordChar c) || (text == ['-'] && c.isDigit)) := by
  have hkind := mem_symbolKinds h
  cases k <;> first | rfl | simp [symbolKinds] at hkind

/-- A character that makes no other symbol goes on with a symbol only as a path or a number. -/
theorem goesOn_eq_false {a : Char} (h : symbolKind? (String.ofList text) = some k)
    (hsymbols : ∀ s ∈ symbols, s.toList ≠ text ++ [a])
    (hpath : text = ['%'] → Text.isWordChar a = false)
    (hnumber : text = ['-'] → a.isDigit = false) : goesOn k text a = false := by
  have hnone : symbolKind? (String.ofList (text ++ [a])) = none := by
    by_contra hsome
    obtain ⟨k', hk'⟩ := Option.ne_none_iff_exists'.mp hsome
    exact hsymbols _ (mem_symbols_of_symbolKind? hk') (by simp)
  rw [goesOn_of_symbolKind? h, hnone]
  simpa using ⟨hpath, hnumber⟩

/-- A percent sign and a minus are no more than part of a symbol. -/
theorem eq_singleton_of_symbolKind? {a : Char} {cs : List Char}
    (h : symbolKind? (String.ofList (a :: cs)) = some k) (ha : a = '%' ∨ a = '-') : cs = [] := by
  have hall : ∀ s ∈ symbols, s.toList.head? = some '%' ∨ s.toList.head? = some '-' →
      s.toList.tail = [] := by
    decide +kernel
  simpa using hall _ (mem_symbols_of_symbolKind? h) (by simpa using ha)

/-- A token is read whole in front of what cannot go on with it. -/
theorem known?_append_of_beginsOutside (h : known? text = some ⟨k, text.length⟩)
    (hrest : BeginsOutside (goesOn k text) rest) :
    known? (text ++ rest) = some ⟨k, text.length⟩ := by
  obtain ⟨a, cs, rfl⟩ := List.exists_cons_of_ne_nil (ne_nil_of_known? h)
  rcases known?_eq_some h with ⟨n, hn, hl⟩ | ⟨n, hn, hl⟩ | ⟨n, hn, hl⟩ | hword | hsymbol
  · obtain ⟨rfl, rfl⟩ := Lexeme.mk.inj hl
    exact known?_of_pathLength? (Text.pathLength?_append_of_beginsOutside hn hrest)
  · obtain ⟨rfl, rfl⟩ := Lexeme.mk.inj hl
    exact known?_of_quotedLength? (Text.quotedLengthWith?_append hn)
  · obtain ⟨rfl, rfl⟩ := Lexeme.mk.inj hl
    have hnumber := numberLength?_append_of_beginsOutside (List.cons_ne_nil a cs) hrest
    exact known?_of_numberLength? (hnumber.trans hn)
  · obtain ⟨b, ds, heq, hb, hl⟩ := word?_eq_some hword
    obtain ⟨rfl, rfl⟩ := List.cons.inj heq
    have hwordOn : BeginsOutside Text.isWordChar rest := by
      have hkind : k = .truth ∨ k = .word := by
        rw [(Lexeme.mk.inj hl).1, wordKind]
        split
        · exact Or.inl rfl
        · exact Or.inr rfl
      rcases hkind with rfl | rfl <;> exact hrest
    rw [List.cons_append, known?_of_isNameStart hb, ← List.cons_append,
      word?_append_of_beginsOutside (List.cons_ne_nil a cs) hwordOn, hword]
  · have hkind := (symbol?_eq_some hsymbol).2
    have htake : (a :: cs).take (a :: cs).length = a :: cs := List.take_length
    rw [htake] at hkind
    have hmem : a ∈ symbolChars := symbol?_chars hsymbol a (by simp)
    have hgoes (c : Char) (hc : rest.head? = some c) := hrest c hc
    simp only [goesOn_of_symbolKind? hkind, Bool.or_eq_false_iff, Bool.and_eq_false_iff,
      Option.isSome_eq_false_iff, Option.isNone_iff_eq_none, beq_eq_false_iff_ne] at hgoes
    have hsymbol' := symbol?_append hsymbol fun c hc ↦ (hgoes c hc).1.1
    rw [List.cons_append] at hsymbol' ⊢
    rw [known?_of_mem_symbolChars hmem, hsymbol']
    · rintro rfl c hc
      obtain rfl := eq_singleton_of_symbolKind? hkind (Or.inl rfl)
      exact (hgoes c hc).1.2.resolve_left (by simp)
    · rintro rfl c hc
      obtain rfl := eq_singleton_of_symbolKind? hkind (Or.inr rfl)
      exact (hgoes c hc).2.resolve_left (by simp)

/-! ### What stands behind a token -/

/-- The kinds of tokens that are no symbols. -/
def wordKinds : List Kind :=
  [.path, .quoted, .number, .truth, .word]

/-- The characters that end every name and every number: blanks, the closing brace, and whatever
belongs to a symbol. -/
def isStop (c : Char) : Bool :=
  Text.isBlank c || c == '\x7d' || symbolChars.contains c

theorem isPathOn_of_goesOn (hk : k ∈ wordKinds) (h : goesOn k text c = true) :
    Text.isPathOn c = true := by
  cases k with
  | path => exact h
  | number =>
    have hon : Text.isNumberOn c = true := h
    simp only [Text.isNumberOn, Bool.or_eq_true] at hon
    rw [Text.isPathOn, Bool.or_eq_true, Bool.or_eq_true]
    exact Or.inl hon
  | truth | word =>
    have hword : Text.isWordChar c = true := h
    simp [Text.isPathOn, hword]
  | _ => simp [goesOn, wordKinds] at h hk

/-- A stop goes on with no name and no number. -/
theorem goesOn_of_isStop (hk : k ∈ wordKinds) (hc : isStop c = true) : goesOn k text c = false := by
  by_contra hgoes
  have hon := isPathOn_of_goesOn hk (Bool.not_eq_false _ ▸ hgoes)
  have hascii (d : Char) (hd : Text.isPathOn d = true) : d.toNat < 128 := by
    simp only [Text.isPathOn, Bool.or_eq_true, beq_iff_eq] at hd
    rcases hd with (hd | rfl) | rfl
    · exact Text.toNat_lt_of_isWordChar hd
    · decide
    · decide
  have hstop : (!isStop c) = true :=
    Text.of_ascii (q := fun d ↦ !isStop d) hascii (by decide +kernel) hon
  simp [hc] at hstop

/-- A token begins neither with a blank nor with a closing brace. -/
theorem exists_of_known? {cs : List Char} {l : Lexeme} (h : known? cs = some l) :
    ∃ a ds, cs = a :: ds ∧ Text.isBlank a = false ∧ a ≠ '\x7d' := by
  have hname {d : Char} (hd : Text.isWordChar d = true) :
      Text.isBlank d = false ∧ d ≠ '\x7d' := by
    have hboth : (!Text.isBlank d && d != '\x7d') = true :=
      Text.of_ascii (q := fun d ↦ !Text.isBlank d && d != '\x7d')
        (fun _ ↦ Text.toNat_lt_of_isWordChar) (by decide +kernel) hd
    simpa using hboth
  have hsymbols : ∀ d ∈ symbolChars, Text.isBlank d = false ∧ d ≠ '\x7d' := by
    simp [symbolChars, Text.isBlank]
  cases cs with
  | nil => exact absurd h (by rw [known?_nil]; simp)
  | cons a ds =>
    refine ⟨a, ds, rfl, ?_⟩
    rcases known?_eq_some h with ⟨n, hn, -⟩ | ⟨n, hn, -⟩ | ⟨n, hn, -⟩ | hword | hsymbol
    · obtain ⟨es, heq, -⟩ := Text.pathLength?_eq_some hn
      obtain rfl := (List.cons.inj heq).1
      decide
    · obtain ⟨q, es, m, heq, hq, -⟩ := Text.quotedLengthWith?_eq_some hn
      obtain rfl := (List.cons.inj heq).1
      rcases hq with rfl | rfl <;> decide
    · rcases isNumberStart_of_numberLength? hn with rfl | rfl | hdigit
      · decide
      · decide
      · exact hname (by simp [Text.isWordChar, Char.isAlphanum, hdigit])
    · obtain ⟨b, es, heq, hb, -⟩ := word?_eq_some hword
      obtain rfl := (List.cons.inj heq).1
      exact hname (Text.isWordChar_of_isNameStart hb)
    · obtain ⟨m, hm⟩ := Nat.exists_eq_succ_of_ne_zero (symbol?_pos hsymbol).ne'
      exact hsymbols a (symbol?_chars hsymbol a (by simp [hm]))

theorem symbol?_of_known? {cs : List Char} {l : Lexeme} (h : known? cs = some l)
    (hk : l.kind ∉ wordKinds) : symbol? cs = some l := by
  rcases known?_eq_some h with ⟨n, -, rfl⟩ | ⟨n, -, rfl⟩ | ⟨n, -, rfl⟩ | hword | hsymbol
  · simp [wordKinds] at hk
  · simp [wordKinds] at hk
  · simp [wordKinds] at hk
  · obtain ⟨-, -, -, -, rfl⟩ := word?_eq_some hword
    simp only [wordKind] at hk
    split at hk <;> simp [wordKinds] at hk
  · exact hsymbol

theorem eq_of_symbolKind? {s : String} (h : symbolKind? s = some .assign) : s = "=" := by
  unfold symbolKind? at h
  split at h
  · simp at h
  split at h
  · simp at h
  split at h
  · simp at h
  split at h
  · simp at h
  split at h
  · assumption
  · simp at h

/-- A single equals sign is nothing else. -/
theorem take_of_known?_assign {cs : List Char} {l : Lexeme} (h : known? cs = some l)
    (hk : l.kind = .assign) : cs.take l.length = ['='] := by
  have hsymbol := (symbol?_eq_some (symbol?_of_known? h (by rw [hk]; decide))).2
  rw [hk] at hsymbol
  simpa using congrArg String.toList (eq_of_symbolKind? hsymbol)

theorem text_of_assign {right : List Char} {c : Cursor} {t : Token} (ht : t ∈ (scan right c).1)
    (hkind : t.kind = .assign) : t.text = ['='] := by
  obtain ⟨cs, l, hl, hk, htext⟩ := known_of_mem_scan ht (by simp [hkind]) (by simp [hkind])
  rw [htext]
  exact take_of_known?_assign hl (hk.symm.trans hkind)

/-- The symbol at the start of a source is its longest one. -/
theorem length_le_of_symbolKind? {cs : List Char} {l : Lexeme} {n : Nat}
    (h : symbol? cs = some l) (hlen : (cs.take n).length = n)
    (hn : (symbolKind? (String.ofList (cs.take n))).isSome) : n ≤ l.length := by
  obtain ⟨k, hk⟩ := Option.isSome_iff_exists.mp hn
  have hle : n ≤ 3 := by
    have hall : ∀ s ∈ symbols, s.toList.length ≤ 3 := by decide +kernel
    simpa [hlen] using hall _ (mem_symbols_of_symbolKind? hk)
  have hof : symbolOf? cs n = some ⟨k, n⟩ := by
    rw [symbolOf?, if_pos hlen, hk, Option.map_some]
  have hlength {m : Nat} (hm : symbolOf? cs m = some l) : l.length = m := by
    unfold symbolOf? at hm
    split at hm
    · obtain ⟨-, -, rfl⟩ := Option.map_eq_some_iff.mp hm
      rfl
    · simp at hm
  have hpos := symbol?_pos h
  rcases Option.or_eq_some_iff.mp h with h | ⟨hnone, h⟩
  · rcases Option.or_eq_some_iff.mp h with h | ⟨hnone, h⟩
    · rw [hlength h]
      exact hle
    · rw [hlength h]
      by_contra hlt
      obtain rfl : n = 3 := by omega
      simp [hnone] at hof
  · by_contra hlt
    rw [hlength h] at hlt
    obtain ⟨hnone₃, hnone₂⟩ := Option.or_eq_none_iff.mp hnone
    obtain rfl | rfl : n = 2 ∨ n = 3 := by omega
    · simp [hnone₂] at hof
    · simp [hnone₃] at hof

/-- What stands behind a symbol in a source does not go on with it. -/
theorem goesOn_of_known? (h : known? (text ++ c :: rest) = some ⟨k, text.length⟩)
    (hk : k ∉ wordKinds) : goesOn k text c = false := by
  have hsymbol := symbol?_of_known? h hk
  have hkind := (symbol?_eq_some hsymbol).2
  rw [List.take_left] at hkind
  rw [goesOn_of_symbolKind? hkind, Bool.or_eq_false_iff, Bool.or_eq_false_iff]
  refine ⟨⟨?_, ?_⟩, ?_⟩
  · by_contra hsome
    have htake : (text ++ c :: rest).take (text.length + 1) = text ++ [c] := by
      rw [List.take_length_add_append]
      rfl
    have hle := length_le_of_symbolKind? (n := text.length + 1) hsymbol (by rw [htake]; simp)
      (by rw [htake]; simpa only [Bool.not_eq_false] using hsome)
    exact absurd hle (Nat.not_succ_le_self _)
  · by_contra hpath
    simp only [Bool.not_eq_false, Bool.and_eq_true, beq_iff_eq] at hpath
    obtain ⟨rfl, hc⟩ := hpath
    have hword : Text.wordLength (c :: rest) ≠ 0 := by simp [Text.wordLength, hc]
    rw [List.singleton_append, known?, Text.pathLength?_cons hword] at h
    exact hk (by rw [← (Lexeme.mk.inj (Option.some.inj h)).1]; decide)
  · by_contra hnumber
    simp only [Bool.not_eq_false, Bool.and_eq_true, beq_iff_eq] at hnumber
    obtain ⟨rfl, hc⟩ := hnumber
    have hdigits : Text.digitsLength (c :: rest) ≠ 0 := by simp [Text.digitsLength, hc]
    rw [List.singleton_append, known?, pathLength?_of_ne (by decide),
      quotedLength?_of_ne (by decide), numberLength?, unsignedLength?, if_neg hdigits] at h
    exact hk (by rw [← (Lexeme.mk.inj (Option.some.inj h)).1]; decide)

/-! ### Runs taken apart -/

/-- A text up to a closing brace, taken apart into blanks and the texts of its tokens, from a byte
offset on. -/
inductive Spelled : Nat → List Char → List Token → Cursor → Prop
  | close {o : Nat} {bs rest : List Char} (hb : ∀ b ∈ bs, Text.isBlank b = true) :
      Spelled o (bs ++ '\x7d' :: rest) [] ⟨o + Text.byteLength bs + 1, rest⟩
  | token {o : Nat} {bs rest : List Char} {t : Token} {body : List Token} {next : Cursor}
      (hb : ∀ b ∈ bs, Text.isBlank b = true) (hoffset : t.offset = o + Text.byteLength bs)
      (hl : known? (t.text ++ rest) = some ⟨t.kind, t.text.length⟩)
      (hr : Spelled (t.offset + Text.byteLength t.text) rest body next) :
      Spelled o (bs ++ (t.text ++ rest)) (t :: body) next

variable {o : Nat} {cs : List Char} {body : List Token} {next : Cursor} {t : Token}

/-- A run that ends at a closing brace consists of blanks and the texts of its tokens. -/
theorem Closes.spelled {c : Cursor} (h : Closes ['\x7d'] c body next) :
    Spelled c.offset c.rest body next := by
  induction h with
  | @close c h =>
    obtain ⟨bs, hb, hrest, hskip⟩ := c.exists_skipBlanks
    obtain ⟨rest, hbrace⟩ := h
    have hadvance : c.skipBlanks.advance 1 = ⟨c.offset + Text.byteLength bs + 1, rest⟩ := by
      rw [Cursor.advance, ← hbrace, hskip]
      rfl
    rw [← hbrace] at hrest
    rw [hrest, List.length_singleton, hadvance]
    exact .close hb
  | @token c l body next hclose hl hr ih =>
    obtain ⟨bs, hb, hrest, hskip⟩ := c.exists_skipBlanks
    have hlt : l.length < c.skipBlanks.rest.length := Text.lt_length_of_mem_drop hr.mem
    have hlen : (c.skipBlanks.rest.take l.length).length = l.length :=
      List.length_take_of_le hlt.le
    have hstep := @Spelled.token c.offset bs (c.skipBlanks.rest.drop l.length)
      ⟨l.kind, c.skipBlanks.rest.take l.length, c.skipBlanks.offset⟩ body next hb hskip
      (by rw [List.take_append_drop, hlen]; exact hl) ih
    rwa [List.take_append_drop, ← hrest] at hstep

/-- What consists of blanks and the texts of tokens, up to a closing brace, is a run. -/
theorem Spelled.closes (h : Spelled o cs body next) : Closes ['\x7d'] ⟨o, cs⟩ body next := by
  induction h with
  | @close o bs rest hb =>
    have hbrace (a : Char) (ha : ('\x7d' :: rest).head? = some a) : Text.isBlank a = false := by
      obtain rfl : '\x7d' = a := by simpa using ha
      decide
    have hskip := Cursor.skipBlanks_append (o := o) hb hbrace
    have hstep := @Closes.close ['\x7d'] ⟨o, bs ++ '\x7d' :: rest⟩ (by rw [hskip]; simp)
    rwa [hskip] at hstep
  | @token o bs rest t body next hb hoffset hl hr ih =>
    obtain ⟨a, ds, heq, hblank, hbrace⟩ := exists_of_known? hl
    have hskip := Cursor.skipBlanks_append (o := o) hb
      (show ∀ d, (t.text ++ rest).head? = some d → Text.isBlank d = false by
        rw [heq]
        simpa using hblank)
    have hstep := @Closes.token ['\x7d'] ⟨o, bs ++ (t.text ++ rest)⟩ ⟨t.kind, t.text.length⟩ body
      next
    rw [hskip, ← hoffset] at hstep
    simp only [Cursor.advance, List.take_left, List.drop_left] at hstep
    refine hstep ?_ hl ih
    rw [heq]
    simpa using hbrace.symm

/-- A token stays whole in front of what cannot go on with it. -/
theorem Spelled.cons (hl : known? text = some ⟨k, text.length⟩)
    (hgoes : BeginsOutside (goesOn k text) rest)
    (h : Spelled (o + Text.byteLength text) rest body next) :
    Spelled o (text ++ rest) (⟨k, text, o⟩ :: body) next :=
  @Spelled.token o [] rest ⟨k, text, o⟩ body next (List.forall_mem_nil _) rfl
    (known?_append_of_beginsOutside hl hgoes) h

/-- A blank in front of a text changes nothing but its place. -/
theorem Spelled.blank {b : Char} (hb : Text.isBlank b = true)
    (h : Spelled (o + b.utf8Size) cs body next) : Spelled o (b :: cs) body next := by
  cases h with
  | @close _ bs rest hbs =>
    have hclose := @Spelled.close o (b :: bs) rest (List.forall_mem_cons.mpr ⟨hb, hbs⟩)
    rwa [Text.byteLength_cons, ← Nat.add_assoc o] at hclose
  | @token _ bs rest t body _ hbs hoffset hl hr =>
    refine @Spelled.token o (b :: bs) rest t body next (List.forall_mem_cons.mpr ⟨hb, hbs⟩) ?_ hl hr
    rw [hoffset, Text.byteLength_cons, ← Nat.add_assoc]

theorem Spelled.le_offset (h : Spelled o cs body next) : ∀ t ∈ body, o ≤ t.offset := by
  induction h with
  | close => exact List.forall_mem_nil _
  | token hb hoffset hl hr ih =>
    refine List.forall_mem_cons.mpr ⟨by omega, fun u hu ↦ ?_⟩
    have := ih u hu
    omega

/-- The token at the start of a text is a token of its own. -/
theorem known?_self (h : known? (text ++ rest) = some ⟨k, text.length⟩) :
    known? text = some ⟨k, text.length⟩ :=
  survivesCut_known?.eq_some h le_rfl

end Token

end Stencil
