import Stencil.Proofs.Lexemes

/-!
# Lexemes of a source that goes on

A token does not change when the source goes on behind it, as long as a closing brace still stands
behind the token and no bracket directly follows. Words, numbers and symbols hold no brace, so they
end before it. A quoted text may run over a brace, but once it is closed it is closed for good. Only
a path could grow over the brace, by a step in brackets that the shorter source does not close.

## Main definitions

* `Token.symbolChars`, `Token.isNumberChar`: the characters of symbols and of numbers.

## Main results

* `Token.known?_eq_some`: the sorts of tokens.
* `Token.known?_append`: the token at the start of a source stays the same when the source goes on.
-/

namespace Stencil.Text

variable {as bs : List Char}

theorem take_length_takeWhile (p : Char → Bool) (cs : List Char) :
    cs.take (cs.takeWhile p).length = cs.takeWhile p :=
  (List.prefix_iff_eq_take.mp (List.takeWhile_prefix p)).symm

theorem byteLength_pos (h : as ≠ []) : 0 < byteLength as := by
  obtain ⟨a, as, rfl⟩ := List.exists_cons_of_ne_nil h
  rw [byteLength_cons]
  exact Nat.add_pos_left a.utf8Size_pos _

/-! ### Classes of ASCII characters -/

section Ascii

variable {c : Char}

theorem toNat_lt_of_isDigit (h : c.isDigit = true) : c.toNat < 128 := by
  simp only [Char.isDigit, Bool.and_eq_true, decide_eq_true_eq, UInt32.le_iff_toNat_le] at h
  exact Nat.lt_of_le_of_lt h.2 (by decide)

theorem toNat_lt_of_isAlpha (h : c.isAlpha = true) : c.toNat < 128 := by
  rcases Bool.or_eq_true_iff.mp h with h | h
  · have hupper : c.val ≤ 'Z'.val := (of_decide_eq_true h).2
    exact Nat.lt_of_le_of_lt (UInt32.le_iff_toNat_le.mp hupper) (by decide)
  · have hlower : c.val ≤ 'z'.val := of_decide_eq_true (Bool.and_eq_true_iff.mp h).2
    exact Nat.lt_of_le_of_lt (UInt32.le_iff_toNat_le.mp hlower) (by decide)

theorem toNat_lt_of_isNameStart (h : isNameStart c = true) : c.toNat < 128 := by
  rcases Bool.or_eq_true_iff.mp h with h | h
  · exact toNat_lt_of_isAlpha h
  · rw [eq_of_beq h]
    decide

theorem toNat_lt_of_isWordChar (h : isWordChar c = true) : c.toNat < 128 := by
  rcases Bool.or_eq_true_iff.mp h with h | h
  · rcases Bool.or_eq_true_iff.mp h with h | h
    · exact toNat_lt_of_isAlpha h
    · exact toNat_lt_of_isDigit h
  · rw [eq_of_beq h]
    decide

theorem toNat_lt_of_isHexDigit (h : Numeral.isHexDigit c = true) : c.toNat < 128 := by
  simp only [Numeral.isHexDigit, Bool.or_eq_true, Bool.and_eq_true, decide_eq_true_eq] at h
  rcases h with (h | ⟨-, h⟩) | ⟨-, h⟩
  · exact toNat_lt_of_isDigit h
  · exact Nat.lt_of_le_of_lt (UInt32.le_iff_toNat_le.mp h) (by decide)
  · exact Nat.lt_of_le_of_lt (UInt32.le_iff_toNat_le.mp h) (by decide)

/-- What holds of a class among the ASCII characters holds of it, if it has no others. -/
theorem of_ascii {p q : Char → Bool} (hp : ∀ c, p c = true → c.toNat < 128)
    (hall : ∀ n < 128, p (Char.ofNat n) = true → q (Char.ofNat n) = true) (hc : p c = true) :
    q c = true := by
  have hq := hall c.toNat (hp c hc)
  rw [Char.ofNat_toNat] at hq
  exact hq hc

end Ascii

/-! ### Paths of a source that goes on -/

/-- A piece that a character of the source cannot be part of ends before the source does. -/
theorem le_length_of_not_mem {c : Char} {n : Nat} (hc : c ∈ as)
    (hn : c ∉ (as ++ bs).take n) : n ≤ as.length := by
  by_contra hlt
  refine hn ?_
  rw [List.take_append, List.take_of_length_le (by omega)]
  exact List.mem_append_left _ hc

theorem lt_length_of_mem_drop {c : Char} {n : Nat} (h : c ∈ as.drop n) : n < as.length := by
  have hpos := List.length_pos_of_mem h
  rw [List.length_drop] at hpos
  omega

theorem wordLength_append (h : '\x7d' ∈ as) :
    wordLength (as ++ bs) = wordLength as := by
  rw [wordLength, wordLength, takeWhile_append_of_mem h (by decide)]

theorem selectorLength?_append (bs : List Char) (h : '\x7d' ∈ as) :
    selectorLength? (as ++ bs) = selectorLength? as := by
  match as, h with
  | [c], h =>
    obtain rfl : '\x7d' = c := by simpa using h
    simp [selectorLength?]
  | a :: d :: ds, h =>
    rw [List.cons_append, List.cons_append, selectorLength?_cons_cons,
      selectorLength?_cons_cons]
    by_cases ha : a = '.'
    · have hmem : '\x7d' ∈ d :: ds := by
        subst ha
        simpa using h
      rw [← List.cons_append, wordLength_append hmem]
    · simp [ha]

/-- The steps of a path that ends before a closing brace, and not at a bracket. -/
theorem stepsLength_append (bs : List Char) (hclose : '\x7d' ∈ as.drop (stepsLength as))
    (hnext : (as.drop (stepsLength as)).head? ≠ some '[') :
    stepsLength (as ++ bs) = stepsLength as := by
  generalize hn : as.length = n
  induction n using Nat.strong_induction_on generalizing as with
  | _ n ih =>
    have hselector := selectorLength?_append bs (List.mem_of_mem_drop hclose)
    cases hstep : stepLength? as with
    | none =>
      rw [stepsLength_of_none hstep] at hclose hnext ⊢
      obtain ⟨hnone, -⟩ := Option.or_eq_none_iff.mp hstep
      have hbracket : bracketLength? (as ++ bs) = none := by
        by_contra hsome
        obtain ⟨m, hm⟩ := Option.ne_none_iff_exists'.mp hsome
        obtain ⟨ds, -, hds, -⟩ := bracketLength?_eq_some hm
        match as, hclose, hds, hnext with
        | a :: as, _, hds, hnext => exact hnext (by simpa using (List.cons.inj hds).1)
      exact stepsLength_of_none (by rw [stepLength?, hselector, hnone, hbracket]; rfl)
    | some m =>
      have hlen := stepsLength_of_some hstep
      rw [hlen] at hclose hnext
      have hm : m ≤ as.length := by
        have := lt_length_of_mem_drop hclose
        omega
      have hstep' : stepLength? (as ++ bs) = some m := by
        unfold stepLength? at hstep ⊢
        rw [hselector]
        rcases Option.or_eq_some_iff.mp hstep with h | ⟨hnone, h⟩
        · rw [h, Option.some_or]
        · rw [hnone, Option.none_or, bracketLength?_append h]
      have hlt : (as.drop m).length < n := by
        rw [← hn]
        exact length_drop_lt (stepLength?_pos hstep)
      rw [← List.drop_drop] at hclose hnext
      rw [stepsLength_of_some hstep', hlen, List.drop_append_of_le_length hm,
        ih _ hlt hclose hnext rfl]

/-- A path that ends before a closing brace, and not at a bracket. -/
theorem pathLength?_append {n : Nat} (h : pathLength? as = some n)
    (hclose : '\x7d' ∈ as.drop n) (hnext : (as.drop n).head? ≠ some '[') :
    pathLength? (as ++ bs) = some n := by
  obtain ⟨ds, rfl, hword, rfl⟩ := pathLength?_eq_some h
  have hdrop : ('%' :: ds).drop (1 + wordLength ds +
      stepsLength (ds.drop (wordLength ds))) =
      (ds.drop (wordLength ds)).drop (stepsLength (ds.drop (wordLength ds))) := by
    rw [Nat.add_assoc, Nat.add_comm, List.drop_succ_cons, List.drop_drop]
  rw [hdrop] at hclose hnext
  have hmem : '\x7d' ∈ ds := List.mem_of_mem_drop (List.mem_of_mem_drop hclose)
  have hle : wordLength ds ≤ ds.length := (List.takeWhile_prefix _).length_le
  have hsteps := stepsLength_append bs hclose hnext
  have hword' : wordLength (ds ++ bs) ≠ 0 := by rwa [wordLength_append hmem]
  rw [List.cons_append, pathLength?_cons hword', wordLength_append hmem,
    List.drop_append_of_le_length hle, hsteps]

theorem head?_eq_of_append {c : Char} {cs : List Char} (h : as ++ bs = c :: cs) (hne : as ≠ []) :
    as.head? = some c := by
  obtain ⟨a, as, rfl⟩ := List.exists_cons_of_ne_nil hne
  simpa using (List.cons.inj h).1

/-- A source with a brace starts a path when a longer source does. -/
theorem pathLength?_of_append {ds : List Char} (hmem : '\x7d' ∈ as) (h : as ++ bs = '%' :: ds)
    (hword : wordLength ds ≠ 0) : ∃ m, pathLength? as = some m := by
  match as, hmem, h with
  | a :: as, hmem, h =>
    obtain ⟨rfl, rfl⟩ := List.cons.inj h
    have hmem' : '\x7d' ∈ as := by simpa using hmem
    rw [List.append_eq, wordLength_append hmem'] at hword
    exact ⟨_, pathLength?_cons hword⟩

end Stencil.Text

namespace Stencil.Token

variable {as bs : List Char}

/-! ### What a token is made of -/

/-- The token at the start of a source is of one of five sorts. -/
theorem known?_eq_some {cs : List Char} {l : Lexeme} (h : known? cs = some l) :
    (∃ n, Text.pathLength? cs = some n ∧ l = ⟨.path, n⟩) ∨
      (∃ n, quotedLength? cs = some n ∧ l = ⟨.quoted, n⟩) ∨
        (∃ n, numberLength? cs = some n ∧ l = ⟨.number, n⟩) ∨
          word? cs = some l ∨ symbol? cs = some l := by
  rcases Option.or_eq_some_iff.mp h with h | ⟨-, h⟩
  · obtain ⟨n, hn, rfl⟩ := Option.map_eq_some_iff.mp h
    exact Or.inl ⟨n, hn, rfl⟩
  rcases Option.or_eq_some_iff.mp h with h | ⟨-, h⟩
  · obtain ⟨n, hn, rfl⟩ := Option.map_eq_some_iff.mp h
    exact Or.inr (Or.inl ⟨n, hn, rfl⟩)
  rcases Option.or_eq_some_iff.mp h with h | ⟨-, h⟩
  · obtain ⟨n, hn, rfl⟩ := Option.map_eq_some_iff.mp h
    exact Or.inr (Or.inr (Or.inl ⟨n, hn, rfl⟩))
  rcases Option.or_eq_some_iff.mp h with h | ⟨-, h⟩
  · exact Or.inr (Or.inr (Or.inr (Or.inl h)))
  · exact Or.inr (Or.inr (Or.inr (Or.inr h)))

/-- The characters of symbols. -/
def symbolChars : List Char :=
  ['=', '!', '<', '>', '&', '|', ',', '^', '%', '+', '-', '/', '*', '~', '@', '(', ')']

theorem mem_symbolChars_of_all {cs : List Char} (h : cs.all symbolChars.contains = true) :
    ∀ c ∈ cs, c ∈ symbolChars :=
  fun c hc ↦ List.contains_iff_mem.mp (List.all_eq_true.mp h c hc)

theorem symbolKind?_chars {s : String} {k : Kind} (h : symbolKind? s = some k) :
    ∀ c ∈ s.toList, c ∈ symbolChars := by
  unfold symbolKind? at h
  split at h
  · rename_i hop
    obtain ⟨op, hop⟩ := Option.isSome_iff_exists.mp hop
    unfold BinaryOp.ofSymbol? at hop
    split at hop
    · rename_i hs
      subst hs
      exact mem_symbolChars_of_all (by decide)
    · obtain rfl : op.symbol = s := by simpa using List.find?_some hop
      cases op <;> exact mem_symbolChars_of_all (by decide)
  split at h
  · rename_i hop
    obtain ⟨op, hop⟩ := Option.isSome_iff_exists.mp hop
    obtain rfl : op.symbol = s := by simpa using List.find?_some hop
    cases op <;> exact mem_symbolChars_of_all (by decide)
  split at h
  · rename_i hs
    subst hs
    exact mem_symbolChars_of_all (by decide)
  split at h
  · rename_i hs
    subst hs
    exact mem_symbolChars_of_all (by decide)
  split at h
  · rename_i hs
    subst hs
    exact mem_symbolChars_of_all (by decide)
  · simp at h

/-- The kinds of symbols. -/
def symbolKinds : List Kind :=
  [.binary, .unary, .openParen, .closeParen, .assign]

theorem mem_symbolKinds {s : String} {k : Kind} (h : symbolKind? s = some k) : k ∈ symbolKinds := by
  unfold symbolKind? at h
  repeat' split at h
  all_goals first | (obtain rfl := Option.some.inj h; decide) | simp at h

theorem symbol?_eq_some {cs : List Char} {l : Lexeme} (h : symbol? cs = some l) :
    (cs.take l.length).length = l.length ∧
      symbolKind? (String.ofList (cs.take l.length)) = some l.kind := by
  have hof {n : Nat} (h : symbolOf? cs n = some l) : (cs.take l.length).length = l.length ∧
      symbolKind? (String.ofList (cs.take l.length)) = some l.kind := by
    unfold symbolOf? at h
    split at h
    · rename_i hn
      obtain ⟨k, hk, rfl⟩ := Option.map_eq_some_iff.mp h
      exact ⟨hn, hk⟩
    · simp at h
  rcases Option.or_eq_some_iff.mp h with h | ⟨-, h⟩
  · rcases Option.or_eq_some_iff.mp h with h | ⟨-, h⟩ <;> exact hof h
  · exact hof h

theorem symbol?_chars {cs : List Char} {l : Lexeme} (h : symbol? cs = some l) :
    ∀ c ∈ cs.take l.length, c ∈ symbolChars := by
  have hchars := symbolKind?_chars (symbol?_eq_some h).2
  simpa using hchars

theorem word?_chars {cs : List Char} {l : Lexeme} (h : word? cs = some l) :
    ∀ c ∈ cs.take l.length, Text.isWordChar c = true := by
  obtain ⟨-, -, -, -, rfl⟩ := word?_eq_some h
  intro c hc
  rw [Text.wordLength, ← (List.prefix_iff_eq_take.mp (List.takeWhile_prefix _))] at hc
  exact List.mem_takeWhile_imp hc

/-- The characters of numbers. -/
def isNumberChar (c : Char) : Bool :=
  Numeral.isHexDigit c || c == '-' || c == '.' || c == 'x' || c == 'X'

theorem isNumberChar_of_isDigit {c : Char} (h : c.isDigit = true) : isNumberChar c = true := by
  simp [isNumberChar, Numeral.isHexDigit, h]
theorem fractionLength?_chars {cs : List Char} {n : Nat} (h : Text.fractionLength? cs = some n) :
    ∀ c ∈ cs.take n, isNumberChar c = true := by
  obtain ⟨ds, rfl, -, rfl⟩ := Text.fractionLength?_eq_some h
  intro c hc
  rw [Nat.add_comm, List.take_succ_cons, Text.digitsLength, Text.take_length_takeWhile,
    List.mem_cons] at hc
  rcases hc with rfl | hc
  · decide
  · exact isNumberChar_of_isDigit (List.mem_takeWhile_imp hc)

theorem hexTailLength?_chars {cs : List Char} {n : Nat} (h : Text.hexTailLength? cs = some n) :
    ∀ c ∈ cs.take n, isNumberChar c = true := by
  obtain ⟨x, ds, rfl, hx, -, rfl⟩ := Text.hexTailLength?_eq_some h
  intro c hc
  rw [Nat.add_comm, List.take_succ_cons, Text.take_length_takeWhile, List.mem_cons] at hc
  rcases hc with rfl | hc
  · rcases hx with rfl | rfl <;> decide
  · simp [isNumberChar, List.mem_takeWhile_imp hc]

theorem take_tailLength_chars (digits cs : List Char) :
    ∀ c ∈ cs.take (tailLength digits cs), isNumberChar c = true := by
  unfold tailLength
  dsimp only
  cases htail : (if digits = ['0'] then Text.hexTailLength? cs else none).or
      (Text.fractionLength? cs) with
  | none => simp
  | some n =>
    rw [Option.getD_some]
    rcases Option.or_eq_some_iff.mp htail with hhex | ⟨-, hfraction⟩
    · split at hhex
      · exact hexTailLength?_chars hhex
      · simp at hhex
    · exact fractionLength?_chars hfraction

theorem unsignedLength?_chars {cs : List Char} {n : Nat} (h : unsignedLength? cs = some n) :
    ∀ c ∈ cs.take n, isNumberChar c = true := by
  unfold unsignedLength? at h
  split at h
  · simp at h
  obtain rfl : _ = n := by simpa using h
  intro c hc
  rw [List.take_add, List.mem_append] at hc
  rcases hc with hc | hc
  · rw [Text.digitsLength, Text.take_length_takeWhile] at hc
    exact isNumberChar_of_isDigit (List.mem_takeWhile_imp hc)
  · exact take_tailLength_chars _ _ c hc

theorem numberLength?_chars {cs : List Char} {n : Nat} (h : numberLength? cs = some n) :
    ∀ c ∈ cs.take n, isNumberChar c = true := by
  unfold numberLength? at h
  split at h
  · obtain ⟨m, hm, rfl⟩ := Option.map_eq_some_iff.mp h
    intro c hc
    rw [List.take_succ_cons, List.mem_cons] at hc
    rcases hc with rfl | hc
    · decide
    · exact unsignedLength?_chars hm c hc
  · rcases Option.or_eq_some_iff.mp h with h | ⟨-, h⟩
    · exact unsignedLength?_chars h
    · exact fractionLength?_chars h

/-! ### Tokens of a source that goes on -/

/-- A text that starts with a quote starts no token other than a quoted text. -/
theorem quotedLength?_of_known? {c : Char} (hc : c = '"' ∨ c = '\'') {l : Lexeme}
    (hhead : as.head? = some c) (h : known? as = some l) :
    quotedLength? as = some l.length := by
  obtain ⟨ds, rfl⟩ : ∃ ds, as = c :: ds := ⟨as.tail, by
    cases as <;> simp_all⟩
  rcases known?_eq_some h with ⟨n, hn, -⟩ | ⟨n, hn, rfl⟩ | ⟨n, hn, -⟩ | hword | hsymbol
  · obtain ⟨es, hes, -⟩ := Text.pathLength?_eq_some hn
    obtain rfl : c = '%' := (List.cons.inj hes).1
    rcases hc with hc | hc <;> exact absurd hc (by decide)
  · exact hn
  · have hchar := numberLength?_chars hn c (by
      obtain ⟨m, rfl⟩ := Nat.exists_eq_succ_of_ne_zero (numberLength?_pos hn).ne'
      simp)
    rcases hc with rfl | rfl <;> exact absurd hchar (by decide)
  · obtain ⟨d, es, hes, hd, -⟩ := word?_eq_some hword
    obtain rfl : c = d := (List.cons.inj hes).1
    rcases hc with rfl | rfl <;> exact absurd hd (by decide)
  · have hchar := symbol?_chars hsymbol c (by
      obtain ⟨m, hm⟩ := Nat.exists_eq_succ_of_ne_zero (symbol?_pos hsymbol).ne'
      simp [hm])
    rcases hc with rfl | rfl <;> exact absurd hchar (by decide)

/-- The token at the start of a source stays the same when the source goes on, if a closing brace
stands behind the token and no bracket directly follows it. -/
theorem known?_append {l : Lexeme} (h : known? as = some l)
    (hclose : '\x7d' ∈ as.drop l.length) (hnext : (as.drop l.length).head? ≠ some '[') :
    known? (as ++ bs) = some l := by
  have hmem : '\x7d' ∈ as := List.mem_of_mem_drop hclose
  have hne : as ≠ [] := List.ne_nil_of_mem hmem
  have hsome : known? (as ++ bs) ≠ none := fun hnone ↦ by
    rw [survivesCut_known?.eq_none hnone] at h
    exact absurd h (by simp)
  obtain ⟨l', hl'⟩ := Option.ne_none_iff_exists'.mp hsome
  -- it is enough that the token of the longer source does not run over the end of the shorter one
  have hle : l'.length ≤ as.length := by
    rcases known?_eq_some hl' with ⟨n, hn, rfl⟩ | ⟨n, hn, rfl⟩ | ⟨n, hn, rfl⟩ | hword | hsymbol
    · obtain ⟨ds, hds, hword, -⟩ := Text.pathLength?_eq_some hn
      obtain ⟨m, hm⟩ := Text.pathLength?_of_append hmem hds hword
      obtain rfl : ⟨.path, m⟩ = l := by simpa [known?, hm] using h
      rw [Text.pathLength?_append hm hclose hnext] at hn
      obtain rfl : m = n := by simpa using hn
      exact (Text.lt_length_of_mem_drop hclose).le
    · obtain ⟨c, cs, -, hcs, hc, -⟩ := Text.quotedLengthWith?_eq_some hn
      have hquoted := quotedLength?_of_known? hc (Text.head?_eq_of_append hcs hne) h
      have hn' : quotedLength? (as ++ bs) = some l.length :=
        Text.quotedLengthWith?_append hquoted
      obtain rfl : l.length = n := by simpa [hn'] using hn
      exact (Text.lt_length_of_mem_drop hclose).le
    · exact Text.le_length_of_not_mem hmem fun hc ↦ absurd (numberLength?_chars hn _ hc) (by decide)
    · exact Text.le_length_of_not_mem hmem fun hc ↦ absurd (word?_chars hword _ hc) (by decide)
    · exact Text.le_length_of_not_mem hmem fun hc ↦ absurd (symbol?_chars hsymbol _ hc) (by decide)
  rw [hl', ← h, survivesCut_known?.eq_some hl' hle]

end Stencil.Token
