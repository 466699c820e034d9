import Stencil.Proofs.Escapes
import Stencil.Proofs.Neighbours
import Stencil.Proofs.Numerals
import Stencil.Proofs.Operands

/-!
# Paths written out

A path is written with its positions in decimal digits and its entries between double quotes. What
is written is one token and spells the path again, as long as the names of its entries are plain:
then nothing in them needs an escape that reading does not know.

## Main definitions

* `Text.isPlain`: the visible characters of ASCII, and the blanks that have an escape.
* `Path.WellFormed`: the paths that texts spell.
* `Path.Plain`: the paths whose entries have plain names.

## Main results

* `Text.quotedLengthWith?_quote`, `Text.unquote_quote`: a plain text between quotes is one piece,
  and stands for the text.
* `Path.wellFormed_of_compile?`: what a text spells is well-formed.
* `Path.compile?_write`, `Path.pathLength?_write`: a path that is written out is spelled by its
  text.
-/

namespace Stencil

/-! ### Plain texts between quotes -/

namespace Text

/-- The visible characters of ASCII, and the blanks that have an escape of their own. -/
def isPlain (c : Char) : Bool :=
  (' ' ≤ c && c ≤ '~') || c == '\t' || c == '\n' || c == '\r'

variable {c : Char} {cs rest : List Char} {escapable : Char → Bool}

/-- A plain character is written as it is, or as a backslash and what stands for it there. -/
theorem standsFor_quoteChar (h : isPlain c = true) : StandsFor '"' c (quoteChar c) := by
  by_cases hescaped : c ∈ ['\t', '\n', '\r', '"', '\\']
  · simp only [List.mem_cons, List.not_mem_nil, or_false] at hescaped
    rcases hescaped with rfl | rfl | rfl | rfl | rfl <;> exact .escape (by decide) (by decide)
  · simp only [List.mem_cons, List.not_mem_nil, or_false, not_or] at hescaped
    obtain ⟨htab, hfeed, hreturn, hquote, hslash⟩ := hescaped
    have hrange : ' ' ≤ c ∧ c ≤ '~' := by
      simpa [isPlain, htab, hfeed, hreturn] using h
    have hlow : 0x20 ≤ c.toNat := UInt32.le_iff_toNat_le.mp hrange.1
    have hhigh : c.toNat ≤ 0x7e := UInt32.le_iff_toNat_le.mp hrange.2
    have hvisible : isVisible c = true := by
      rw [isVisible, if_pos (by omega)]
      simpa using hlow
    have hzero : c ≠ '\x00' := by
      rintro rfl
      exact absurd hlow (by decide)
    have hwrite : quoteChar c = [c] := by simp [quoteChar, *]
    rw [hwrite]
    exact .self hquote hslash

/-- A plain text between quotes is one piece. -/
theorem quotedLengthWith?_quote (hesc : ∀ d, d ≠ '\n' → escapable d = true)
    (h : ∀ c ∈ cs, isPlain c = true) (rest : List Char) :
    quotedLengthWith? escapable (quote cs ++ rest) = some (quote cs).length :=
  quotedLengthWith?_enclose (fun c hc ↦ standsFor_quoteChar (h c hc)) (Or.inl rfl) hesc rest

/-- A plain text between quotes stands for the text. -/
theorem unquote_quote (h : ∀ c ∈ cs, isPlain c = true) : unquote (quote cs) = cs :=
  unquote_enclose fun c hc ↦ standsFor_quoteChar (h c hc)

end Text

/-! ### The steps of a path -/

namespace Path

open Text (isPlain isNameStart isWordChar BeginsOutside)

/-- The steps that texts spell. -/
def Step.WellFormed : Step → Prop
  | field name => ∃ c cs, name.toList = c :: cs ∧ isNameStart c = true ∧
      ∀ d ∈ cs, isWordChar d = true
  | position i => 0 ≤ i.toInt
  | entry _ => True

/-- The steps that are no entries with an unusual name. -/
def Step.Plain : Step → Prop
  | entry name => ∀ c ∈ name.toList, isPlain c = true
  | _ => True

/-- The paths that texts spell. -/
structure WellFormed (p : Path) : Prop where
  base_ne_nil : p.base.toList ≠ []
  base_word : ∀ c ∈ p.base.toList, isWordChar c = true
  steps : ∀ s ∈ p.steps, s.WellFormed

/-- The paths whose entries have plain names. -/
def Plain (p : Path) : Prop :=
  ∀ s ∈ p.steps, s.Plain

variable {p : Path} {s : Step} {ss : List Step} {cs rest : List Char} {n : Nat}

/-- A number that begins with a digit is not negative. -/
theorem toInt_nonneg_of_integer? {i : Int64} {c : Char} (h : Numeral.integer? (c :: cs) = some i)
    (hc : c.isDigit = true) : 0 ≤ i.toInt := by
  unfold Numeral.integer? Numeral.signed? at h
  split at h
  · rename_i heq
    rw [(List.cons.inj heq).1] at hc
    exact absurd hc (by decide)
  · rename_i heq
    rw [(List.cons.inj heq).1] at hc
    exact absurd hc (by decide)
  · obtain ⟨k, -, hk⟩ := Option.bind_eq_some_iff.mp h
    unfold Numeral.word? at hk
    split at hk
    · rename_i hrange
      rw [← Option.some.inj hk, Int64.toInt_ofInt_of_le hrange.1 hrange.2]
      exact Int.natCast_nonneg k
    · simp at hk

/-- Digits between brackets are no negative position. -/
theorem wellFormed_indexStep
    (h : ∀ c, cs.head? = some c → (c = '"' ∨ c = '\'') ∨ c.isDigit = true) :
    (indexStep cs).WellFormed := by
  unfold indexStep
  split
  · trivial
  rename_i hquote
  split
  · rename_i i hi
    cases cs with
    | nil => simp [Numeral.integer?, Numeral.signed?, Numeral.natural?] at hi
    | cons c cs =>
      have hdigit := (h c rfl).resolve_left (by simpa using hquote)
      exact toInt_nonneg_of_integer? hi hdigit
  · trivial

/-- An index begins with a quote or a digit. -/
theorem head?_take_of_indexLength? (h : Text.indexLength? cs = some n) :
    ∀ c, (cs.take n).head? = some c → (c = '"' ∨ c = '\'') ∨ c.isDigit = true := by
  intro c hc
  unfold Text.indexLength? at h
  split at h
  · obtain ⟨d, ds, m, rfl, hd, -, -, rfl⟩ := Text.quotedLengthWith?_eq_some h
    obtain rfl : d = c := by simpa using hc
    exact Or.inl hd
  · obtain rfl := Option.some.inj h
    rw [Value.take_digitsLength] at hc
    exact Or.inr (List.mem_takeWhile_imp (List.mem_of_mem_head? hc))

theorem wellFormed_of_step? (h : step? cs = some (s, n)) : s.WellFormed := by
  unfold step? at h
  split at h
  · rename_i m hm
    obtain ⟨c, ds, rfl, hc, rfl⟩ := Text.selectorLength?_eq_some hm
    obtain ⟨rfl, -⟩ := Prod.mk.inj (Option.some.inj h)
    have htake : (('.' :: c :: ds).take (1 + Text.wordLength (c :: ds))).drop 1 =
        (c :: ds).takeWhile isWordChar := by
      rw [Nat.add_comm, List.take_succ_cons, List.drop_succ_cons, List.drop_zero]
      exact Text.take_length_takeWhile _ _
    have hword := Text.isWordChar_of_isNameStart hc
    refine ⟨c, ds.takeWhile isWordChar, ?_, hc, fun d hd ↦ List.mem_takeWhile_imp hd⟩
    rw [htake, List.takeWhile_cons_of_pos hword, String.toList_ofList]
  · obtain ⟨m, hm, heq⟩ := Option.map_eq_some_iff.mp h
    obtain ⟨rfl, -⟩ := Prod.mk.inj heq
    obtain ⟨ds, k, rfl, hk, -, rfl⟩ := Text.bracketLength?_eq_some hm
    have htake : (('[' :: ds).take (k + 2 - 1)).drop 1 = ds.take k := by
      rw [Nat.add_sub_assoc (by decide), List.take_succ_cons, List.drop_succ_cons, List.drop_zero]
    rw [htake]
    exact wellFormed_indexStep (head?_take_of_indexLength? hk)

theorem wellFormed_of_steps? (h : steps? cs = some ss) : ∀ s ∈ ss, s.WellFormed := by
  fun_induction steps? cs generalizing ss with
  | case1 => simp [← Option.some.inj h]
  | case2 cs hne s n hs ih =>
    obtain ⟨ss', hss', rfl⟩ := Option.map_eq_some_iff.mp h
    exact List.forall_mem_cons.mpr ⟨wellFormed_of_step? hs, ih hss'⟩
  | case3 => simp at h

/-- What a text spells is well-formed. -/
theorem wellFormed_of_compile? (h : compile? cs = some p) : p.WellFormed := by
  unfold compile? at h
  split at h
  · rename_i ds
    dsimp only at h
    split at h
    · simp at h
    rename_i hword
    obtain ⟨ss, hss, rfl⟩ := Option.map_eq_some_iff.mp h
    have htake : ds.take (Text.wordLength ds) = ds.takeWhile isWordChar :=
      Text.take_length_takeWhile _ _
    rw [htake]
    refine ⟨?_, ?_, wellFormed_of_steps? hss⟩
    · rw [String.toList_ofList]
      exact fun hnil ↦ hword (List.length_eq_zero_iff.mpr hnil)
    · rw [String.toList_ofList]
      exact fun c hc ↦ List.mem_takeWhile_imp hc
  · simp at h

/-! ### Steps and paths written out -/

theorem wordLength_append (hcs : ∀ c ∈ cs, isWordChar c = true)
    (hrest : BeginsOutside isWordChar rest) : Text.wordLength (cs ++ rest) = cs.length := by
  rw [Text.wordLength_append_of_beginsOutside hrest, Text.wordLength,
    List.takeWhile_eq_self_iff.mpr hcs]

theorem step?_field {name : String} (hs : (Step.field name).WellFormed)
    (hrest : BeginsOutside isWordChar rest) :
    step? ((Step.field name).write ++ rest) =
      some (.field name, (Step.field name).write.length) := by
  obtain ⟨c, ds, hname, hc, hds⟩ := hs
  have hword : Text.wordLength (c :: ds ++ rest) = (c :: ds).length :=
    wordLength_append (List.forall_mem_cons.mpr ⟨Text.isWordChar_of_isNameStart hc, hds⟩) hrest
  have hlength : Text.selectorLength? ('.' :: (c :: ds ++ rest)) = some (1 + (c :: ds).length) := by
    rw [List.cons_append, Text.selectorLength?_cons_cons, if_pos ⟨rfl, hc⟩, ← List.cons_append,
      hword]
  have htake : (('.' :: (c :: ds ++ rest)).take (1 + (c :: ds).length)).drop 1 = c :: ds := by
    rw [Nat.add_comm, List.take_succ_cons, List.drop_succ_cons, List.drop_zero, List.take_left]
  rw [Step.write, hname, List.cons_append, step?, hlength]
  dsimp only
  rw [htake, ← hname, String.ofList_toList, List.length_cons, Nat.add_comm]

/-- A step in brackets is read from its text when its index is. -/
theorem step?_bracket {index : List Char}
    (hindex : Text.indexLength? (index ++ ']' :: rest) = some index.length)
    (hs : indexStep index = s) :
    step? ('[' :: index ++ [']'] ++ rest) = some (s, ('[' :: index ++ [']']).length) := by
  have hbracket : Text.bracketLength? ('[' :: (index ++ ']' :: rest)) = some (index.length + 2) :=
    Text.bracketLength?_cons hindex (by rw [List.drop_left, List.head?_cons])
  have hselector : Text.selectorLength? ('[' :: (index ++ ']' :: rest)) = none := by
    simp [Text.selectorLength?]
  rw [List.append_assoc, List.cons_append, List.singleton_append, step?, hselector, hbracket]
  simp [hs]

/-- A step is read from its text, in front of what is no part of a name. -/
theorem step?_write (hs : s.WellFormed) (hplain : s.Plain) (hrest : BeginsOutside isWordChar rest) :
    step? (s.write ++ rest) = some (s, s.write.length) := by
  cases s with
  | field name => exact step?_field hs hrest
  | position i =>
    obtain ⟨k, hk⟩ := Int.eq_ofNat_of_zero_le hs
    have hdigits : Numeral.decimal i.toInt = Numeral.digits 10 k := by rw [hk]; rfl
    have hall : ∀ c ∈ Numeral.decimal i.toInt, c.isDigit = true := by
      rw [hdigits]
      exact fun c ↦ Numeral.isDigit_of_mem_digits
    have hne := Numeral.decimal_ne_nil i.toInt
    have hlength : Text.digitsLength (Numeral.decimal i.toInt ++ ']' :: rest) =
        (Numeral.decimal i.toInt).length := by
      rw [Text.digitsLength, (Value.takeWhile_isDigit_append _ hall (by simp)).1]
    have hquote : ¬((Numeral.decimal i.toInt).head? = some '"' ∨
        (Numeral.decimal i.toInt).head? = some '\'') := by
      rintro (h | h) <;> exact absurd (hall _ (List.mem_of_head? h)) (by decide)
    refine step?_bracket ?_ ?_
    · rw [Text.indexLength?, hlength, if_neg (by simpa using hne)]
    · rw [indexStep, if_neg hquote, Numeral.integer?_decimal]
  | entry name =>
    have hquoted := Text.quotedLengthWith?_quote (fun _ _ ↦ rfl) hplain (']' :: rest)
    have hdigits : Text.digitsLength (Text.quote name.toList ++ ']' :: rest) = 0 := by
      simp [Text.quote, Text.digitsLength]
    refine step?_bracket ?_ ?_
    · rw [Text.indexLength?, if_pos hdigits]
      exact hquoted
    · rw [indexStep, if_pos (by simp [Text.quote]), Text.unquote_quote hplain, String.ofList_toList]

theorem beginsOutside_flatMap_write (ss : List Step) :
    BeginsOutside isWordChar (ss.flatMap Step.write) := by
  cases ss with
  | nil => simp [BeginsOutside]
  | cons s ss => cases s <;> simp [BeginsOutside, Step.write] <;> decide

theorem steps?_write (hs : ∀ s ∈ ss, s.WellFormed) (hplain : ∀ s ∈ ss, s.Plain) :
    steps? (ss.flatMap Step.write) = some ss ∧
      Text.stepsLength (ss.flatMap Step.write) = (ss.flatMap Step.write).length := by
  induction ss with
  | nil =>
    have hnone : Text.stepLength? [] = none := by decide
    rw [List.flatMap_nil, steps?, if_pos rfl, Text.stepsLength_of_none hnone]
    exact ⟨rfl, rfl⟩
  | cons s ss ih =>
    obtain ⟨hs, hss⟩ := List.forall_mem_cons.mp hs
    obtain ⟨hplain, hplains⟩ := List.forall_mem_cons.mp hplain
    obtain ⟨hsteps, hlength⟩ := ih hss hplains
    have hstep := step?_write hs hplain (beginsOutside_flatMap_write ss)
    have hlength' := Text.stepsLength_of_some (stepLength?_of_step? hstep)
    rw [List.drop_left, hlength] at hlength'
    rw [List.flatMap_cons]
    refine ⟨?_, by rw [hlength', List.length_append]⟩
    rw [steps?_of_step? hstep, List.drop_left, hsteps, Option.map_some]

section Write

variable (hp : p.WellFormed) (hplain : p.Plain)
include hp hplain

/-- A path that is written out is spelled by its text. -/
theorem compile?_write : compile? p.write = some p := by
  have hword := wordLength_append hp.base_word (beginsOutside_flatMap_write p.steps)
  have hpos : p.base.toList.length ≠ 0 := List.length_eq_zero_iff.not.mpr hp.base_ne_nil
  rw [write, List.cons_append, compile?, hword, if_neg hpos, List.drop_left, List.take_left,
    (steps?_write hp.steps hplain).1, Option.map_some, String.ofList_toList]

/-- A path that is written out fills its text. -/
theorem pathLength?_write : Text.pathLength? p.write = some p.write.length := by
  have hword := wordLength_append hp.base_word (beginsOutside_flatMap_write p.steps)
  have hpos : p.base.toList.length ≠ 0 := List.length_eq_zero_iff.not.mpr hp.base_ne_nil
  rw [write, List.cons_append, Text.pathLength?_cons (by rwa [hword]), hword, List.drop_left,
    (steps?_write hp.steps hplain).2, List.length_cons, List.length_append]
  congr 1
  omega

end Write

end Path

end Stencil
