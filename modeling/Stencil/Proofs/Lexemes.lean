import Mathlib.Data.List.TakeWhile
import Stencil.Token

/-!
# Cutting a source behind a lexeme

The measures of `Text` and `Token` look at a whole source, and a piece may be as long as the source
allows. Whatever stands behind a piece still does not matter for it: a source that is cut anywhere
behind the piece at its start begins with the same piece, and it begins with a piece only if the
whole source does.

## Main definitions

* `Text.SurvivesCut`: a measure that does not depend on the text behind the piece.

## Main results

* `Text.stepsLength_of_append`, `Text.survivesCut_pathLength?`: paths and their steps survive a cut.
* `Token.survivesCut_known?`: the token at the start of a source survives a cut behind it.
-/

namespace Stencil.Text

/-- A measure of the piece at the start of a source that survives every cut behind the piece. The
cut source starts no piece that the whole source does not start. -/
structure SurvivesCut {α : Type} (size : α → Nat) (f : List Char → Option α) : Prop where
  eq_some {as bs : List Char} {a : α} (h : f (as ++ bs) = some a) (hle : size a ≤ as.length) :
    f as = some a
  eq_none {as bs : List Char} (h : f (as ++ bs) = none) : f as = none

/-- A measure that no continuation changes starts no piece only in a cut source. -/
theorem eq_none_of_append {α : Type} {f : List Char → Option α}
    (h : ∀ {as bs : List Char} {a : α}, f as = some a → f (as ++ bs) = some a)
    {as bs : List Char} (hnone : f (as ++ bs) = none) : f as = none := by
  by_contra hsome
  obtain ⟨a, ha⟩ := Option.ne_none_iff_exists'.mp hsome
  rw [h ha] at hnone
  exact absurd hnone (by simp)

namespace SurvivesCut

variable {α : Type} {size : α → Nat} {f g : List Char → Option α}

theorem or (hf : SurvivesCut size f) (hg : SurvivesCut size g) :
    SurvivesCut size fun cs ↦ (f cs).or (g cs) where
  eq_some {as bs a} h hle := by
    rcases Option.or_eq_some_iff.mp h with h | ⟨hnone, h⟩
    · rw [hf.eq_some h hle, Option.some_or]
    · rw [hf.eq_none hnone, hg.eq_some h hle, Option.none_or]
  eq_none {as bs} h := by
    obtain ⟨h₁, h₂⟩ := Option.or_eq_none_iff.mp h
    rw [hf.eq_none h₁, hg.eq_none h₂, Option.none_or]

theorem map {β : Type} {size' : β → Nat} (hf : SurvivesCut size f) (i : α → β)
    (hi : ∀ a, size a ≤ size' (i a)) : SurvivesCut size' fun cs ↦ (f cs).map i where
  eq_some {as bs b} h hle := by
    obtain ⟨a, ha, rfl⟩ := Option.map_eq_some_iff.mp h
    rw [hf.eq_some ha (Nat.le_trans (hi a) hle), Option.map_some]
  eq_none {as bs} h := by
    rw [hf.eq_none (Option.map_eq_none_iff.mp h), Option.map_none]

end SurvivesCut

/-! ### Runs of characters -/

section Runs

variable {p : Char → Bool} {as bs : List Char}

/-- A run that ends before the cut is the run of the cut source. -/
theorem takeWhile_append_of_le (h : ((as ++ bs).takeWhile p).length ≤ as.length) :
    (as ++ bs).takeWhile p = as.takeWhile p := by
  rw [List.takeWhile_append] at h ⊢
  split at h
  · rename_i hall
    have hnil : bs.takeWhile p = [] := by
      rw [← List.length_eq_zero_iff]
      simp only [List.length_append] at h
      omega
    rw [if_pos hall, hnil, List.append_nil]
    exact ((List.takeWhile_prefix p).eq_of_length hall).symm
  · rename_i hsome
    rw [if_neg hsome]

/-- A run that a character outside of it ends is the run of every longer source. -/
theorem takeWhile_append_of_mem {c : Char} (hc : c ∈ as) (hp : p c = false) :
    (as ++ bs).takeWhile p = as.takeWhile p := by
  rw [List.takeWhile_append, if_neg]
  intro hlen
  have hall := (List.takeWhile_prefix p).eq_of_length hlen
  have hpc := List.mem_takeWhile_imp (hall.symm ▸ hc)
  rw [hp] at hpc
  exact absurd hpc (by decide)

theorem drop_length_takeWhile (p : Char → Bool) (cs : List Char) :
    cs.drop (cs.takeWhile p).length = cs.dropWhile p := by
  calc cs.drop (cs.takeWhile p).length
      = (cs.takeWhile p ++ cs.dropWhile p).drop (cs.takeWhile p).length := by
        rw [List.takeWhile_append_dropWhile]
    _ = cs.dropWhile p := List.drop_left

/-- What stands behind a run keeps the characters that are outside of it. -/
theorem mem_drop_takeWhile {c : Char} (hc : c ∈ as) (hp : p c = false) :
    c ∈ as.drop (as.takeWhile p).length := by
  rw [drop_length_takeWhile]
  rw [← List.takeWhile_append_dropWhile (p := p) (l := as), List.mem_append] at hc
  rcases hc with hc | hc
  · rw [List.mem_takeWhile_imp hc] at hp
    exact absurd hp (by decide)
  · exact hc

end Runs

/-! ### Quoted texts -/

section Quoted

variable {escapable : Char → Bool} {quote : Char} {as bs : List Char} {n : Nat}

theorem closingLength?_cons_of_ne {c : Char} (hc : c ≠ '\\') (cs : List Char) :
    closingLength? escapable quote (c :: cs) =
      if c = quote then some 1 else (closingLength? escapable quote cs).map (· + 1) := by
  cases cs <;> simp [closingLength?, hc]

theorem closingLength?_ne_nil (h : closingLength? escapable quote as = some n) : as ≠ [] := by
  rintro rfl
  simp [closingLength?] at h

/-- A quoted text that is closed stays closed at the same place. -/
theorem closingLength?_append (hq : quote ≠ '\\')
    (h : closingLength? escapable quote as = some n) :
    closingLength? escapable quote (as ++ bs) = some n := by
  fun_induction closingLength? escapable quote as generalizing n with
  | case1 => simp at h
  | case2 c cs hesc ih =>
    obtain ⟨m, hm, rfl⟩ := Option.map_eq_some_iff.mp h
    simp only [List.cons_append, closingLength?, hesc, if_true, ih hm, Option.map_some]
  | case3 => simp at h
  | case4 cs hne => rwa [List.cons_append, closingLength?_cons_of_ne hq, if_pos rfl]
  | case5 c cs hne hc ih =>
    obtain ⟨m, hm, rfl⟩ := Option.map_eq_some_iff.mp h
    obtain ⟨d, ds, rfl⟩ := List.exists_cons_of_ne_nil (closingLength?_ne_nil hm)
    have hslash : c ≠ '\\' := fun he ↦ hne d ds he rfl
    rw [List.cons_append, closingLength?_cons_of_ne hslash, if_neg hc, ih hm, Option.map_some]

theorem closingLength?_of_append (hq : quote ≠ '\\')
    (h : closingLength? escapable quote (as ++ bs) = some n) (hle : n ≤ as.length) :
    closingLength? escapable quote as = some n := by
  generalize hcs : as ++ bs = cs at h
  fun_induction closingLength? escapable quote cs generalizing as n with
  | case1 => simp at h
  | case2 c cs hesc ih =>
    obtain ⟨m, hm, rfl⟩ := Option.map_eq_some_iff.mp h
    match as, hle, hcs with
    | a :: b :: as, hle, hcs =>
      simp only [List.cons_append, List.cons.injEq] at hcs
      obtain ⟨rfl, rfl, htail⟩ := hcs
      have hm' := ih (by simpa using hle) htail hm
      simp only [closingLength?, hesc, if_true, hm', Option.map_some]
  | case3 => simp at h
  | case4 cs hne =>
    match as, hle, hcs with
    | [], hle, _ => simp_all
    | a :: as, hle, hcs =>
      obtain ⟨rfl, rfl⟩ := List.cons.inj hcs
      rwa [closingLength?_cons_of_ne hq, if_pos rfl]
  | case5 c cs hne hc ih =>
    obtain ⟨m, hm, rfl⟩ := Option.map_eq_some_iff.mp h
    obtain ⟨d, ds, rfl⟩ := List.exists_cons_of_ne_nil (closingLength?_ne_nil hm)
    have hslash : c ≠ '\\' := fun he ↦ hne d ds he rfl
    match as, hle, hcs with
    | a :: as, hle, hcs =>
      obtain ⟨rfl, htail⟩ := List.cons.inj hcs
      have hm' := ih (by simpa using hle) htail hm
      rw [closingLength?_cons_of_ne hslash, if_neg hc, hm', Option.map_some]

theorem quotedLengthWith?_cons {c : Char} (hc : c = '"' ∨ c = '\'') (cs : List Char) :
    quotedLengthWith? escapable (c :: cs) = (closingLength? escapable c cs).map (· + 1) := by
  rw [quotedLengthWith?, if_pos hc]

theorem quotedLengthWith?_eq_some (h : quotedLengthWith? escapable as = some n) :
    ∃ c cs m, as = c :: cs ∧ (c = '"' ∨ c = '\'') ∧ c ≠ '\\' ∧
      closingLength? escapable c cs = some m ∧ n = m + 1 := by
  unfold quotedLengthWith? at h
  split at h
  · rename_i c cs
    split at h
    · rename_i hc
      obtain ⟨m, hm, rfl⟩ := Option.map_eq_some_iff.mp h
      refine ⟨c, cs, m, rfl, hc, ?_, hm, rfl⟩
      rcases hc with rfl | rfl <;> decide
    · simp at h
  · simp at h

theorem quotedLengthWith?_append (h : quotedLengthWith? escapable as = some n) :
    quotedLengthWith? escapable (as ++ bs) = some n := by
  obtain ⟨c, cs, m, rfl, hc, hslash, hm, rfl⟩ := quotedLengthWith?_eq_some h
  rw [List.cons_append, quotedLengthWith?_cons hc, closingLength?_append hslash hm,
    Option.map_some]

theorem survivesCut_quotedLengthWith? : SurvivesCut id (quotedLengthWith? escapable) where
  eq_some {as bs n} h hle := by
    obtain ⟨c, cs, m, hcs, hc, hslash, hm, rfl⟩ := quotedLengthWith?_eq_some h
    match as, hle, hcs with
    | a :: as, hle, hcs =>
      obtain ⟨rfl, rfl⟩ := List.cons.inj hcs
      rw [quotedLengthWith?_cons hc,
        closingLength?_of_append hslash hm (by simpa using hle), Option.map_some]
  eq_none h := eq_none_of_append quotedLengthWith?_append h

end Quoted

/-! ### The steps of a path -/

section Steps

variable {as bs cs : List Char} {n : Nat}

theorem wordLength_pos_of_isNameStart {c : Char} (hc : isNameStart c = true) (cs : List Char) :
    0 < wordLength (c :: cs) := by
  have hw : isWordChar c = true := by
    simp only [isNameStart, Bool.or_eq_true] at hc
    rcases hc with hc | hc <;> simp [isWordChar, Char.isAlphanum, hc]
  simp [wordLength, hw]

theorem wordLength_of_append (bs : List Char) (h : wordLength (as ++ bs) ≤ as.length) :
    wordLength as = wordLength (as ++ bs) := by
  rw [wordLength, wordLength, takeWhile_append_of_le h]

theorem digitsLength_of_append (bs : List Char) (h : digitsLength (as ++ bs) ≤ as.length) :
    digitsLength as = digitsLength (as ++ bs) := by
  rw [digitsLength, digitsLength, takeWhile_append_of_le h]

theorem selectorLength?_cons_cons (a c : Char) (cs : List Char) :
    selectorLength? (a :: c :: cs) =
      if a = '.' ∧ isNameStart c = true then some (1 + wordLength (c :: cs)) else none := by
  by_cases ha : a = '.'
  · subst ha
    simp [selectorLength?]
  · simp [selectorLength?, ha]

theorem selectorLength?_eq_some (h : selectorLength? cs = some n) :
    ∃ c ds, cs = '.' :: c :: ds ∧ isNameStart c = true ∧ n = 1 + wordLength (c :: ds) := by
  unfold selectorLength? at h
  split at h
  · rename_i c ds
    split at h
    · rename_i hc
      exact ⟨c, ds, rfl, hc, by simpa using h.symm⟩
    · simp at h
  · simp at h

theorem survivesCut_selectorLength? : SurvivesCut id selectorLength? where
  eq_some {as bs n} h hle := by
    obtain ⟨c, ds, hcs, hc, rfl⟩ := selectorLength?_eq_some h
    have hpos := wordLength_pos_of_isNameStart hc ds
    match as, hle, hcs with
    | [], hle, _ | [_], hle, _ =>
      simp only [id_eq, List.length_nil, List.length_cons] at hle
      omega
    | a :: d :: as, hle, hcs =>
      simp only [List.cons_append, List.cons.injEq] at hcs
      obtain ⟨rfl, rfl, rfl⟩ := hcs
      have hword : wordLength (d :: as) = wordLength (d :: (as ++ bs)) := by
        refine wordLength_of_append bs ?_
        simp only [id_eq, List.length_cons, List.cons_append] at hle ⊢
        omega
      rw [selectorLength?_cons_cons, if_pos ⟨rfl, hc⟩, hword]
  eq_none {as bs} h := by
    match as, h with
    | [], _ | [_], _ => simp [selectorLength?]
    | a :: d :: as, h =>
      rw [List.cons_append, List.cons_append, selectorLength?_cons_cons] at h
      rw [selectorLength?_cons_cons]
      split at h
      · simp at h
      · rename_i hno
        rw [if_neg hno]

theorem survivesCut_indexLength? : SurvivesCut id indexLength? where
  eq_some {as bs n} h hle := by
    unfold indexLength? at h ⊢
    split at h
    · rename_i hd
      rw [if_pos (by rw [digitsLength_of_append bs (by omega), hd])]
      exact survivesCut_quotedLengthWith?.eq_some h hle
    · rename_i hd
      obtain rfl : digitsLength (as ++ bs) = n := by simpa using h
      rw [digitsLength_of_append bs hle, if_neg hd]
  eq_none {as bs} h := by
    unfold indexLength? at h ⊢
    split at h
    · rename_i hd
      rw [if_pos (by rw [digitsLength_of_append bs (by omega), hd])]
      exact survivesCut_quotedLengthWith?.eq_none h
    · simp at h

theorem bracketLength?_eq_some (h : bracketLength? cs = some n) :
    ∃ ds m, cs = '[' :: ds ∧ indexLength? ds = some m ∧ (ds.drop m).head? = some ']' ∧
      n = m + 2 := by
  unfold bracketLength? at h
  split at h
  · rename_i ds
    simp only [Option.bind_eq_bind, Option.bind_eq_some_iff] at h
    obtain ⟨m, hm, h⟩ := h
    split at h
    · rename_i hhead
      exact ⟨ds, m, rfl, hm, hhead, by simpa using h.symm⟩
    · simp at h
  · simp at h

theorem bracketLength?_cons {m : Nat} (h : indexLength? cs = some m)
    (hhead : (cs.drop m).head? = some ']') : bracketLength? ('[' :: cs) = some (m + 2) := by
  simp only [bracketLength?, h, Option.bind_eq_bind, Option.bind_some, if_pos hhead]

theorem head?_drop_append (h : n < as.length) :
    ((as ++ bs).drop n).head? = (as.drop n).head? := by
  have hne : as.drop n ≠ [] := List.drop_eq_nil_iff.not.mpr (by omega)
  rw [List.drop_append_of_le_length h.le]
  rw [List.head?_append, List.head?_eq_some_head hne, Option.some_or]

/-- A step in brackets is closed for good. -/
theorem bracketLength?_append (h : bracketLength? as = some n) :
    bracketLength? (as ++ bs) = some n := by
  obtain ⟨ds, m, rfl, hm, hhead, rfl⟩ := bracketLength?_eq_some h
  have hmem : ']' ∈ ds := List.mem_of_mem_drop (List.mem_of_head? hhead)
  have hlt : m < ds.length := by
    by_contra hle
    rw [List.drop_eq_nil_iff.mpr (by omega)] at hhead
    exact absurd hhead (by simp)
  have hdigits : digitsLength (ds ++ bs) = digitsLength ds := by
    rw [digitsLength, digitsLength, takeWhile_append_of_mem hmem (by decide)]
  have hindex : indexLength? (ds ++ bs) = some m := by
    unfold indexLength? at hm ⊢
    rw [hdigits]
    split at hm
    · rename_i hd
      rw [if_pos hd]
      exact quotedLengthWith?_append hm
    · rename_i hd
      rwa [if_neg hd]
  rw [List.cons_append]
  exact bracketLength?_cons hindex (by rwa [head?_drop_append hlt])

theorem survivesCut_bracketLength? : SurvivesCut id bracketLength? where
  eq_some {as bs n} h hle := by
    obtain ⟨ds, m, hcs, hm, hhead, rfl⟩ := bracketLength?_eq_some h
    match as, hle, hcs with
    | a :: as, hle, hcs =>
      obtain ⟨rfl, rfl⟩ := List.cons.inj hcs
      have hlt : m < as.length := by
        simp only [id_eq, List.length_cons] at hle
        omega
      have hhead' : (as.drop m).head? = some ']' := by
        rw [← hhead]
        exact (head?_drop_append hlt).symm
      exact bracketLength?_cons (survivesCut_indexLength?.eq_some hm hlt.le) hhead'
  eq_none h := eq_none_of_append bracketLength?_append h

theorem survivesCut_stepLength? : SurvivesCut id stepLength? :=
  survivesCut_selectorLength?.or survivesCut_bracketLength?

theorem stepsLength_of_none (h : stepLength? as = none) : stepsLength as = 0 := by
  rw [stepsLength]
  split <;> simp_all

theorem stepsLength_of_some (h : stepLength? as = some n) :
    stepsLength as = n + stepsLength (as.drop n) := by
  rw [stepsLength]
  split <;> simp_all

/-- The steps that end before a cut are the steps of the cut source. -/
theorem stepsLength_of_append (h : stepsLength (as ++ bs) ≤ as.length) :
    stepsLength as = stepsLength (as ++ bs) := by
  generalize hn : as.length = n
  induction n using Nat.strong_induction_on generalizing as with
  | _ n ih =>
    cases hstep : stepLength? (as ++ bs) with
    | none =>
      rw [stepsLength_of_none hstep, stepsLength_of_none (survivesCut_stepLength?.eq_none hstep)]
    | some m =>
      obtain ⟨hpos, -⟩ := stepLength?_pos hstep
      rw [stepsLength_of_some hstep] at h ⊢
      have hm : m ≤ as.length := by omega
      have hstep' := survivesCut_stepLength?.eq_some hstep hm
      obtain ⟨-, hne⟩ := stepLength?_pos hstep'
      have hlt : (as.drop m).length < n := by
        rw [← hn]
        exact length_drop_lt ⟨hpos, hne⟩
      rw [List.drop_append_of_le_length hm] at h ⊢
      rw [stepsLength_of_some hstep']
      rw [ih _ hlt (by rw [List.length_drop]; omega) rfl]

end Steps

/-! ### Paths and numbers -/

section Pieces

variable {as bs cs : List Char} {n : Nat}

theorem pathLength?_eq_some (h : pathLength? cs = some n) :
    ∃ ds, cs = '%' :: ds ∧ wordLength ds ≠ 0 ∧
      n = 1 + wordLength ds + stepsLength (ds.drop (wordLength ds)) := by
  unfold pathLength? at h
  split at h
  · rename_i ds
    split at h
    · simp at h
    · rename_i hword
      exact ⟨ds, rfl, hword, by simpa using h.symm⟩
  · simp at h

theorem pathLength?_cons {ds : List Char} (h : wordLength ds ≠ 0) :
    pathLength? ('%' :: ds) =
      some (1 + wordLength ds + stepsLength (ds.drop (wordLength ds))) := by
  rw [pathLength?, if_neg h]

theorem survivesCut_pathLength? : SurvivesCut id pathLength? where
  eq_some {as bs n} h hle := by
    obtain ⟨ds, hcs, hword, rfl⟩ := pathLength?_eq_some h
    match as, hle, hcs with
    | [], hle, _ =>
      simp only [id_eq, List.length_nil] at hle
      omega
    | a :: as, hle, hcs =>
      obtain ⟨rfl, rfl⟩ := List.cons.inj hcs
      simp only [id_eq, List.append_eq, List.length_cons] at hle hword
      have hw : wordLength as = wordLength (as ++ bs) := wordLength_of_append bs (by omega)
      rw [← hw] at hle hword
      have hle' : wordLength as ≤ as.length := (List.takeWhile_prefix _).length_le
      rw [List.drop_append_of_le_length hle'] at hle
      have hs : stepsLength (as.drop (wordLength as)) =
          stepsLength (as.drop (wordLength as) ++ bs) :=
        stepsLength_of_append (by rw [List.length_drop]; omega)
      rw [pathLength?_cons hword, hs, List.append_eq, ← hw, List.drop_append_of_le_length hle']
  eq_none {as bs} h := by
    by_contra hsome
    obtain ⟨n, hn⟩ := Option.ne_none_iff_exists'.mp hsome
    obtain ⟨ds, rfl, hword, rfl⟩ := pathLength?_eq_some hn
    have hword' : wordLength (ds ++ bs) ≠ 0 := by
      intro h0
      exact hword (by rw [wordLength_of_append bs (by omega), h0])
    rw [List.cons_append, pathLength?_cons hword'] at h
    exact absurd h (by simp)

theorem fractionLength?_eq_some (h : fractionLength? cs = some n) :
    ∃ ds, cs = '.' :: ds ∧ digitsLength ds ≠ 0 ∧ n = 1 + digitsLength ds := by
  unfold fractionLength? at h
  split at h
  · rename_i ds
    split at h
    · simp at h
    · rename_i hd
      exact ⟨ds, rfl, hd, by simpa using h.symm⟩
  · simp at h

theorem fractionLength?_cons (h : digitsLength cs ≠ 0) :
    fractionLength? ('.' :: cs) = some (1 + digitsLength cs) := by
  rw [fractionLength?, if_neg h]

theorem survivesCut_fractionLength? : SurvivesCut id fractionLength? where
  eq_some {as bs n} h hle := by
    obtain ⟨ds, hcs, hd, rfl⟩ := fractionLength?_eq_some h
    match as, hle, hcs with
    | [], hle, _ =>
      simp only [id_eq, List.length_nil] at hle
      omega
    | a :: as, hle, hcs =>
      obtain ⟨rfl, rfl⟩ := List.cons.inj hcs
      simp only [id_eq, List.append_eq, List.length_cons] at hle hd
      have hrun : digitsLength as = digitsLength (as ++ bs) := digitsLength_of_append bs (by omega)
      rw [← hrun] at hd
      rw [fractionLength?_cons hd, List.append_eq, hrun]
  eq_none {as bs} h := by
    by_contra hsome
    obtain ⟨n, hn⟩ := Option.ne_none_iff_exists'.mp hsome
    obtain ⟨ds, rfl, hd, rfl⟩ := fractionLength?_eq_some hn
    have hd' : digitsLength (ds ++ bs) ≠ 0 := by
      intro h0
      exact hd (by rw [digitsLength_of_append bs (by omega), h0])
    rw [List.cons_append, fractionLength?_cons hd'] at h
    exact absurd h (by simp)

theorem hexTailLength?_eq_some (h : hexTailLength? cs = some n) :
    ∃ c ds, cs = c :: ds ∧ (c = 'x' ∨ c = 'X') ∧
      (ds.takeWhile Numeral.isHexDigit).length ≠ 0 ∧
      n = 1 + (ds.takeWhile Numeral.isHexDigit).length := by
  unfold hexTailLength? at h
  split at h
  · rename_i c ds
    dsimp only at h
    split at h
    · rename_i hc
      exact ⟨c, ds, rfl, hc.1, hc.2.ne', by simpa using h.symm⟩
    · simp at h
  · simp at h

theorem hexTailLength?_cons {c : Char} (hc : c = 'x' ∨ c = 'X')
    (h : (cs.takeWhile Numeral.isHexDigit).length ≠ 0) :
    hexTailLength? (c :: cs) = some (1 + (cs.takeWhile Numeral.isHexDigit).length) := by
  simp only [hexTailLength?]
  rw [if_pos ⟨hc, Nat.pos_of_ne_zero h⟩]

theorem survivesCut_hexTailLength? : SurvivesCut id hexTailLength? where
  eq_some {as bs n} h hle := by
    obtain ⟨c, ds, hcs, hc, hd, rfl⟩ := hexTailLength?_eq_some h
    match as, hle, hcs with
    | [], hle, _ =>
      simp only [id_eq, List.length_nil] at hle
      omega
    | a :: as, hle, hcs =>
      obtain ⟨rfl, rfl⟩ := List.cons.inj hcs
      simp only [id_eq, List.append_eq, List.length_cons] at hle hd
      rw [takeWhile_append_of_le (by omega)] at hd
      rw [hexTailLength?_cons hc hd, List.append_eq, takeWhile_append_of_le (by omega)]
  eq_none {as bs} h := by
    by_contra hsome
    obtain ⟨n, hn⟩ := Option.ne_none_iff_exists'.mp hsome
    obtain ⟨c, ds, rfl, hc, hd, rfl⟩ := hexTailLength?_eq_some hn
    have hd' : ((ds ++ bs).takeWhile Numeral.isHexDigit).length ≠ 0 := by
      intro h0
      rw [takeWhile_append_of_le (by omega)] at h0
      exact hd h0
    rw [List.cons_append, hexTailLength?_cons hc hd'] at h
    exact absurd h (by simp)

end Pieces

end Stencil.Text

namespace Stencil.Token

open Text (SurvivesCut)

theorem tailLength_of_append {digits as : List Char} (bs : List Char)
    (h : tailLength digits (as ++ bs) ≤ as.length) :
    tailLength digits as = tailLength digits (as ++ bs) := by
  have hcut : SurvivesCut id fun cs ↦
      (if digits = ['0'] then Text.hexTailLength? cs else none).or (Text.fractionLength? cs) := by
    by_cases hd : digits = ['0']
    · simp only [if_pos hd]
      exact Text.survivesCut_hexTailLength?.or Text.survivesCut_fractionLength?
    · simpa only [if_neg hd, Option.none_or] using Text.survivesCut_fractionLength?
  unfold tailLength at h ⊢
  dsimp only at h ⊢
  cases htail : (if digits = ['0'] then Text.hexTailLength? (as ++ bs) else none).or
      (Text.fractionLength? (as ++ bs)) with
  | none => rw [hcut.eq_none htail]
  | some n =>
    rw [htail, Option.getD_some] at h
    rw [hcut.eq_some htail h]

theorem survivesCut_unsignedLength? : SurvivesCut id unsignedLength? where
  eq_some {as bs n} h hle := by
    unfold unsignedLength? at h ⊢
    split at h
    · simp at h
    · rename_i hd
      obtain rfl : _ = n := by simpa using h
      simp only [id_eq] at hle
      have hrun : Text.digitsLength as = Text.digitsLength (as ++ bs) :=
        Text.digitsLength_of_append bs (by omega)
      have hlen : Text.digitsLength as ≤ as.length := (List.takeWhile_prefix _).length_le
      rw [← hrun] at hle hd ⊢
      rw [List.take_append_of_le_length hlen, List.drop_append_of_le_length hlen] at hle ⊢
      rw [if_neg hd, tailLength_of_append bs (by rw [List.length_drop]; omega)]
  eq_none {as bs} h := by
    unfold unsignedLength? at h ⊢
    split at h
    · rename_i hd
      rw [if_pos (by rw [Text.digitsLength_of_append bs (by omega), hd])]
    · simp at h

theorem numberLength?_of_ne {cs : List Char} (h : cs.head? ≠ some '-') :
    numberLength? cs = (unsignedLength? cs).or (Text.fractionLength? cs) := by
  unfold numberLength?
  split
  · simp at h
  · rfl

theorem survivesCut_numberLength? : SurvivesCut id numberLength? where
  eq_some {as bs n} h hle := by
    match as, h, hle with
    | [], h, hle =>
      obtain rfl : n = 0 := by simpa using hle
      exact absurd (numberLength?_pos h) (by omega)
    | a :: as, h, hle =>
      by_cases ha : a = '-'
      · subst ha
        rw [List.cons_append, numberLength?] at h
        obtain ⟨m, hm, rfl⟩ := Option.map_eq_some_iff.mp h
        have hm' := survivesCut_unsignedLength?.eq_some hm (by simpa using hle)
        rw [numberLength?, hm', Option.map_some]
      · rw [numberLength?_of_ne (by simpa using ha)] at h ⊢
        exact (survivesCut_unsignedLength?.or Text.survivesCut_fractionLength?).eq_some h hle
  eq_none {as bs} h := by
    match as, h with
    | [], _ => rfl
    | a :: as, h =>
      by_cases ha : a = '-'
      · subst ha
        rw [List.cons_append, numberLength?] at h
        rw [numberLength?, survivesCut_unsignedLength?.eq_none (Option.map_eq_none_iff.mp h),
          Option.map_none]
      · rw [numberLength?_of_ne (by simpa using ha)] at h ⊢
        exact (survivesCut_unsignedLength?.or Text.survivesCut_fractionLength?).eq_none h

/-! ### Words and symbols -/

theorem word?_eq_some {cs : List Char} {l : Lexeme} (h : word? cs = some l) :
    ∃ c ds, cs = c :: ds ∧ Text.isNameStart c = true ∧
      l = ⟨wordKind (cs.take (Text.wordLength cs)), Text.wordLength cs⟩ := by
  obtain ⟨n, hn, rfl⟩ := Option.map_eq_some_iff.mp h
  unfold wordLength? at hn
  split at hn
  · rename_i c ds
    split at hn
    · rename_i hc
      obtain rfl : _ = n := by simpa using hn
      exact ⟨c, ds, rfl, hc, rfl⟩
    · simp at hn
  · simp at hn

theorem word?_cons {c : Char} (hc : Text.isNameStart c = true) (cs : List Char) :
    word? (c :: cs) = some ⟨wordKind ((c :: cs).take (Text.wordLength (c :: cs))),
      Text.wordLength (c :: cs)⟩ := by
  rw [word?, wordLength?, if_pos hc, Option.map_some]

theorem survivesCut_word? : SurvivesCut Lexeme.length word? where
  eq_some {as bs l} h hle := by
    obtain ⟨c, ds, hcs, hc, rfl⟩ := word?_eq_some h
    match as, hle, hcs with
    | [], hle, hcs =>
      have hpos := Text.wordLength_pos_of_isNameStart hc ds
      rw [hcs] at hle
      simp only [List.length_nil] at hle
      omega
    | a :: as, hle, hcs =>
      obtain ⟨rfl, rfl⟩ := List.cons.inj hcs
      have hrun := Text.wordLength_of_append bs hle
      have hlen : Text.wordLength (a :: as) ≤ (a :: as).length :=
        (List.takeWhile_prefix _).length_le
      rw [word?_cons hc, ← hrun, List.take_append_of_le_length hlen]
  eq_none {as bs} h := by
    by_contra hsome
    obtain ⟨l, hl⟩ := Option.ne_none_iff_exists'.mp hsome
    obtain ⟨c, ds, rfl, hc, rfl⟩ := word?_eq_some hl
    rw [List.cons_append, word?_cons hc] at h
    exact absurd h (by simp)

theorem survivesCut_symbolOf? (n : Nat) : SurvivesCut Lexeme.length (symbolOf? · n) where
  eq_some {as bs l} h hle := by
    unfold symbolOf? at h ⊢
    split at h
    · rename_i hn
      obtain ⟨k, hk, rfl⟩ := Option.map_eq_some_iff.mp h
      rw [List.take_append_of_le_length hle] at hn hk
      rw [if_pos hn, hk, Option.map_some]
    · simp at h
  eq_none {as bs} h := by
    unfold symbolOf? at h ⊢
    by_cases hn : (as.take n).length = n
    · have hle : n ≤ as.length := by
        rw [List.length_take] at hn
        omega
      rwa [List.take_append_of_le_length hle] at h
    · rw [if_neg hn]

/-- The token at the start of a source survives every cut behind it. -/
theorem survivesCut_known? : SurvivesCut Lexeme.length known? := by
  have hpath : SurvivesCut Lexeme.length fun cs ↦ (Text.pathLength? cs).map (Lexeme.mk .path) :=
    Text.survivesCut_pathLength?.map _ fun _ ↦ Nat.le_refl _
  have hquoted : SurvivesCut Lexeme.length fun cs ↦ (quotedLength? cs).map (Lexeme.mk .quoted) :=
    Text.survivesCut_quotedLengthWith?.map _ fun _ ↦ Nat.le_refl _
  have hnumber : SurvivesCut Lexeme.length fun cs ↦ (numberLength? cs).map (Lexeme.mk .number) :=
    survivesCut_numberLength?.map _ fun _ ↦ Nat.le_refl _
  have hsymbol : SurvivesCut Lexeme.length symbol? :=
    ((survivesCut_symbolOf? 3).or (survivesCut_symbolOf? 2)).or (survivesCut_symbolOf? 1)
  exact hpath.or (hquoted.or (hnumber.or (survivesCut_word?.or hsymbol)))

end Stencil.Token
