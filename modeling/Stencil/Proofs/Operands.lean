import Stencil.Condition
import Stencil.Proofs.Lookahead

/-!
# Operands stand for something

A token that the scan takes for a path spells a path, and one that it takes for a number spells a
number: whatever the measures accept, the readers can convert.

## Main results

* `Path.compile?_of_pathLength?`: the text of a path token spells a path.
* `Value.ofNumeral?_of_numberLength?`: the text of a number token spells a number.
-/

namespace Stencil

/-! ### Paths -/

namespace Text

variable {cs : List Char} {n : Nat}

theorem selectorLength?_le (h : selectorLength? cs = some n) : n ≤ cs.length := by
  obtain ⟨c, ds, rfl, -, rfl⟩ := selectorLength?_eq_some h
  have hle : wordLength (c :: ds) ≤ (c :: ds).length := (List.takeWhile_prefix _).length_le
  rw [List.length_cons]
  omega

theorem bracketLength?_le (h : bracketLength? cs = some n) : n ≤ cs.length := by
  obtain ⟨ds, m, rfl, -, hhead, rfl⟩ := bracketLength?_eq_some h
  have hlt := lt_length_of_mem_drop (List.mem_of_head? hhead)
  rw [List.length_cons]
  omega

theorem stepLength?_le (h : stepLength? cs = some n) : n ≤ cs.length := by
  rcases Option.or_eq_some_iff.mp h with h | ⟨-, h⟩
  · exact selectorLength?_le h
  · exact bracketLength?_le h

theorem stepsLength_le (cs : List Char) : stepsLength cs ≤ cs.length := by
  generalize hk : cs.length = k
  induction k using Nat.strong_induction_on generalizing cs with
  | _ k ih =>
    cases hstep : stepLength? cs with
    | none =>
      rw [stepsLength_of_none hstep]
      exact Nat.zero_le k
    | some m =>
      have hlt := length_drop_lt (stepLength?_pos hstep)
      have hrest := ih _ (hk ▸ hlt) (cs.drop m) rfl
      have hm := stepLength?_le hstep
      rw [stepsLength_of_some hstep]
      rw [List.length_drop] at hrest
      omega

theorem pathLength?_le (h : pathLength? cs = some n) : n ≤ cs.length := by
  obtain ⟨ds, rfl, -, rfl⟩ := pathLength?_eq_some h
  have hword : wordLength ds ≤ ds.length := (List.takeWhile_prefix _).length_le
  have hsteps := stepsLength_le (ds.drop (wordLength ds))
  rw [List.length_drop] at hsteps
  rw [List.length_cons]
  omega

end Text

namespace Path

variable {cs : List Char} {n : Nat}

theorem step?_of_stepLength? (h : Text.stepLength? cs = some n) : ∃ s, step? cs = some (s, n) := by
  unfold step?
  rcases Option.or_eq_some_iff.mp h with h | ⟨hnone, h⟩
  · rw [h]
    exact ⟨_, rfl⟩
  · rw [hnone, h]
    exact ⟨_, rfl⟩

theorem steps?_of_step? {s : Step} (h : step? cs = some (s, n)) :
    steps? cs = (steps? (cs.drop n)).map (s :: ·) := by
  have hne := (Text.stepLength?_pos (stepLength?_of_step? h)).2
  rw [steps?, if_neg hne]
  split
  · rename_i s' m hs
    obtain ⟨rfl, rfl⟩ := Prod.mk.inj (Option.some.inj (hs.symm.trans h))
    rfl
  · rename_i hnone
    rw [h] at hnone
    cases hnone

/-- A text that the steps at its start fill consists of steps. -/
theorem steps?_of_stepsLength (h : Text.stepsLength cs = cs.length) : (steps? cs).isSome := by
  generalize hk : cs.length = k
  induction k using Nat.strong_induction_on generalizing cs with
  | _ k ih =>
    cases hstep : Text.stepLength? cs with
    | none =>
      rw [Text.stepsLength_of_none hstep] at h
      rw [List.length_eq_zero_iff.mp h.symm, steps?, if_pos rfl]
      rfl
    | some m =>
      obtain ⟨s, hs⟩ := step?_of_stepLength? hstep
      have hlt := Text.length_drop_lt (Text.stepLength?_pos hstep)
      rw [Text.stepsLength_of_some hstep] at h
      have hrest : Text.stepsLength (cs.drop m) = (cs.drop m).length := by
        rw [List.length_drop]
        omega
      rw [steps?_of_step? hs, Option.isSome_map]
      exact ih _ (hk ▸ hlt) hrest rfl

/-- The text of a path at the start of a source spells a path. -/
theorem compile?_of_pathLength? (h : Text.pathLength? cs = some n) :
    (compile? (cs.take n)).isSome := by
  have hlen : (cs.take n).length = n := List.length_take_of_le (Text.pathLength?_le h)
  have hcut : Text.pathLength? (cs.take n) = some n :=
    Text.survivesCut_pathLength?.eq_some (by rwa [List.take_append_drop]) hlen.ge
  obtain ⟨ds, hds, hword, hn⟩ := Text.pathLength?_eq_some hcut
  rw [hds] at hlen ⊢
  have hle : Text.wordLength ds ≤ ds.length := (List.takeWhile_prefix _).length_le
  have hsteps : Text.stepsLength (ds.drop (Text.wordLength ds)) =
      (ds.drop (Text.wordLength ds)).length := by
    rw [List.length_drop]
    rw [List.length_cons] at hlen
    omega
  simp only [compile?, if_neg hword, Option.isSome_map]
  exact steps?_of_stepsLength hsteps

end Path

/-! ### Numbers -/

namespace Value

/-- The texts of numbers without a sign: digits, digits with a point, and hexadecimal digits. -/
inductive Unsigned : List Char → Prop
  | whole {ds : List Char} (hne : ds ≠ []) (hd : ∀ c ∈ ds, c.isDigit = true) : Unsigned ds
  | fraction {ds fs : List Char} (hd : ∀ c ∈ ds, c.isDigit = true) (hne : fs ≠ [])
      (hf : ∀ c ∈ fs, c.isDigit = true) : Unsigned (ds ++ '.' :: fs)
  | hexadecimal {x : Char} {hs : List Char} (hx : x = 'x' ∨ x = 'X') (hne : hs ≠ [])
      (hh : ∀ c ∈ hs, Numeral.isHexDigit c = true) : Unsigned ('0' :: x :: hs)

theorem take_digitsLength (cs : List Char) :
    cs.take (Text.digitsLength cs) = cs.takeWhile Char.isDigit :=
  Text.take_length_takeWhile _ cs

theorem takeWhile_isDigit_ne_nil {cs : List Char} (h : Text.digitsLength cs ≠ 0) :
    cs.takeWhile Char.isDigit ≠ [] := by
  intro hnil
  exact h (by rw [Text.digitsLength, hnil, List.length_nil])

theorem take_of_fractionLength? {cs : List Char} {n : Nat} (h : Text.fractionLength? cs = some n) :
    ∃ fs, cs.take n = '.' :: fs ∧ fs ≠ [] ∧ ∀ c ∈ fs, c.isDigit = true := by
  obtain ⟨ds, rfl, hd, rfl⟩ := Text.fractionLength?_eq_some h
  refine ⟨ds.takeWhile Char.isDigit, ?_, takeWhile_isDigit_ne_nil hd,
    fun c hc ↦ List.mem_takeWhile_imp hc⟩
  rw [Nat.add_comm, List.take_succ_cons, take_digitsLength]

theorem take_of_hexTailLength? {cs : List Char} {n : Nat} (h : Text.hexTailLength? cs = some n) :
    ∃ x hs, cs.take n = x :: hs ∧ (x = 'x' ∨ x = 'X') ∧ hs ≠ [] ∧
      ∀ c ∈ hs, Numeral.isHexDigit c = true := by
  obtain ⟨x, ds, rfl, hx, hd, rfl⟩ := Text.hexTailLength?_eq_some h
  refine ⟨x, ds.takeWhile Numeral.isHexDigit, ?_, hx, ?_, fun c hc ↦ List.mem_takeWhile_imp hc⟩
  · rw [Nat.add_comm, List.take_succ_cons, Text.take_length_takeWhile]
  · intro hnil
    exact hd (by rw [hnil, List.length_nil])

theorem unsigned_of_fractionLength? {cs : List Char} {n : Nat}
    (h : Text.fractionLength? cs = some n) : Unsigned (cs.take n) := by
  obtain ⟨fs, hfs, hne, hf⟩ := take_of_fractionLength? h
  rw [hfs]
  exact Unsigned.fraction (List.forall_mem_nil _) hne hf

theorem unsigned_of_unsignedLength? {cs : List Char} {n : Nat}
    (h : Token.unsignedLength? cs = some n) : Unsigned (cs.take n) := by
  unfold Token.unsignedLength? at h
  split at h
  · simp at h
  rename_i hd
  obtain rfl : _ = n := by simpa using h
  have hdigits : ∀ c ∈ cs.takeWhile Char.isDigit, c.isDigit = true :=
    fun c hc ↦ List.mem_takeWhile_imp hc
  rw [List.take_add, take_digitsLength]
  unfold Token.tailLength
  dsimp only
  cases htail : (if cs.takeWhile Char.isDigit = ['0'] then
      Text.hexTailLength? (cs.drop (Text.digitsLength cs)) else none).or
      (Text.fractionLength? (cs.drop (Text.digitsLength cs))) with
  | none =>
    rw [Option.getD_none, List.take_zero, List.append_nil]
    exact .whole (takeWhile_isDigit_ne_nil hd) hdigits
  | some m =>
    rw [Option.getD_some]
    rcases Option.or_eq_some_iff.mp htail with hhex | ⟨-, hfraction⟩
    · split at hhex
      · rename_i hzero
        obtain ⟨x, hs, htake, hx, hne, hh⟩ := take_of_hexTailLength? hhex
        rw [hzero, htake]
        exact .hexadecimal hx hne hh
      · simp at hhex
    · obtain ⟨fs, hfs, hne, hf⟩ := take_of_fractionLength? hfraction
      rw [hfs]
      exact .fraction hdigits hne hf

/-- A text behind a minus, or without a sign. -/
def withSign (negative : Bool) (cs : List Char) : List Char :=
  if negative then '-' :: cs else cs

/-- A number token is a number without a sign, or one behind a minus. -/
theorem unsigned_of_numberLength? {cs : List Char} {n : Nat}
    (h : Token.numberLength? cs = some n) :
    ∃ negative u, cs.take n = withSign negative u ∧ Unsigned u := by
  unfold Token.numberLength? at h
  split at h
  · obtain ⟨m, hm, rfl⟩ := Option.map_eq_some_iff.mp h
    exact ⟨true, _, List.take_succ_cons, unsigned_of_unsignedLength? hm⟩
  · rcases Option.or_eq_some_iff.mp h with h | ⟨-, h⟩
    · exact ⟨false, _, rfl, unsigned_of_unsignedLength? h⟩
    · exact ⟨false, _, rfl, unsigned_of_fractionLength? h⟩

theorem takeWhile_isDigit_append {ds : List Char} (rest : List Char)
    (hd : ∀ c ∈ ds, c.isDigit = true) (hrest : ∀ c, rest.head? = some c → c.isDigit = false) :
    (ds ++ rest).takeWhile Char.isDigit = ds ∧ (ds ++ rest).dropWhile Char.isDigit = rest := by
  have htake : rest.takeWhile Char.isDigit = [] ∧ rest.dropWhile Char.isDigit = rest := by
    cases rest with
    | nil => simp
    | cons c rest => simp [hrest c rfl]
  rw [List.takeWhile_append_of_pos hd, List.dropWhile_append_of_pos hd, htake.1, htake.2,
    List.append_nil]
  exact ⟨rfl, rfl⟩

theorem scaled?_whole {ds : List Char} (hne : ds ≠ []) (hd : ∀ c ∈ ds, c.isDigit = true) :
    (Decimal.scaled? ds).isSome := by
  have hsplit := takeWhile_isDigit_append [] hd (by simp)
  rw [List.append_nil] at hsplit
  simp [Decimal.scaled?, Decimal.splitDigits, hsplit, hne, Decimal.exponent?]

theorem scaled?_fraction {ds fs : List Char} (hd : ∀ c ∈ ds, c.isDigit = true) (hne : fs ≠ [])
    (hf : ∀ c ∈ fs, c.isDigit = true) : (Decimal.scaled? (ds ++ '.' :: fs)).isSome := by
  have hsplit := takeWhile_isDigit_append ('.' :: fs) hd (by simp)
  have hsplit' := takeWhile_isDigit_append [] hf (by simp)
  rw [List.append_nil] at hsplit'
  simp [Decimal.scaled?, Decimal.splitDigits, hsplit, hsplit', hne, Decimal.exponent?]

theorem magnitude?_of_scaled? {cs : List Char} (h : (Decimal.scaled? cs).isSome) :
    (Decimal.magnitude? cs).isSome := by
  unfold Decimal.magnitude?
  dsimp only
  split
  · rfl
  split
  · rfl
  · rwa [Option.isSome_map]

theorem ofHexadecimal?_isSome (negative : Bool) {hs : List Char} (hne : hs ≠ [])
    (hh : ∀ c ∈ hs, Numeral.isHexDigit c = true) : (ofHexadecimal? negative hs).isSome := by
  unfold ofHexadecimal?
  split
  · rfl
  · rw [Option.isSome_map, wideHexadecimal?, if_pos ⟨hne, List.all_eq_true.mpr hh⟩]
    rfl

theorem ofDecimal?_isSome {cs : List Char} (h : (Decimal.read? cs).isSome) :
    (ofDecimal? cs).isSome := by
  unfold ofDecimal?
  split
  · rfl
  · rwa [Option.isSome_map]

/-- A number without a sign does not begin with one. -/
theorem Unsigned.head?_ne {u : List Char} (h : Unsigned u) {c : Char} (hc : c = '-' ∨ c = '+') :
    u.head? ≠ some c := by
  have hdigit {ds : List Char} (hd : ∀ c ∈ ds, c.isDigit = true) : ds.head? ≠ some c := by
    intro hhead
    have hsign := hd c (List.mem_of_head? hhead)
    rcases hc with rfl | rfl <;> exact absurd hsign (by decide)
  cases h with
  | whole hne hd => exact hdigit hd
  | @fraction ds fs hd hne hf =>
    cases ds with
    | nil => rcases hc with rfl | rfl <;> simp
    | cons d ds => simpa using hdigit hd
  | hexadecimal => rcases hc with rfl | rfl <;> simp

/-- Whether a text has a minus in front, and the text behind it. -/
def splitSign : List Char → Bool × List Char
  | '-' :: cs => (true, cs)
  | cs => (false, cs)

theorem splitSign_cons_of_ne {c : Char} (hc : c ≠ '-') (cs : List Char) :
    splitSign (c :: cs) = (false, c :: cs) := by
  simp [splitSign, hc]

theorem splitSign_withSign (negative : Bool) {u : List Char} (hu : u.head? ≠ some '-') :
    splitSign (withSign negative u) = (negative, u) := by
  cases negative with
  | true => rfl
  | false =>
    cases u with
    | nil => rfl
    | cons c cs => exact splitSign_cons_of_ne (by simpa using hu) cs

theorem ofNumeral?_eq (cs : List Char) : ofNumeral? cs =
    match hexadecimalPart? (splitSign cs).2 with
    | some hs => ofHexadecimal? (splitSign cs).1 hs
    | none => ofDecimal? cs := by
  cases cs with
  | nil => rfl
  | cons c cs =>
    by_cases hc : c = '-'
    · rw [hc]
      rfl
    · rw [splitSign_cons_of_ne hc]
      cases hpart : hexadecimalPart? (c :: cs) <;> simp [ofNumeral?, hc, hpart]

/-- A literal is hexadecimal or not whatever sign it has. -/
theorem ofNumeral?_withSign (negative : Bool) {u : List Char} (hu : u.head? ≠ some '-') :
    ofNumeral? (withSign negative u) =
      match hexadecimalPart? u with
      | some hs => ofHexadecimal? negative hs
      | none => ofDecimal? (withSign negative u) := by
  rw [ofNumeral?_eq, splitSign_withSign negative hu]

theorem isSome_read?_withSign (negative : Bool) {u : List Char} (hu : Unsigned u)
    (h : (Decimal.magnitude? u).isSome) : (Decimal.read? (withSign negative u)).isSome := by
  cases negative with
  | true => rwa [withSign, if_pos rfl, Decimal.read?, Option.isSome_map]
  | false =>
    have hminus := hu.head?_ne (Or.inl rfl)
    have hplus := hu.head?_ne (Or.inr rfl)
    cases u with
    | nil => exact h
    | cons c cs =>
      have hc : c ≠ '-' := by simpa using hminus
      have hc' : c ≠ '+' := by simpa using hplus
      simpa [withSign, Decimal.read?, hc, hc'] using h

theorem hexadecimalPart?_eq_none {u : List Char} (h : ∀ c ∈ u, c ≠ 'x' ∧ c ≠ 'X') :
    hexadecimalPart? u = none := by
  unfold hexadecimalPart?
  split
  · rename_i c cs
    rw [if_neg]
    exact not_or.mpr (h c (by simp))
  · rfl

theorem ne_x_of_isDigit {c : Char} (hc : c.isDigit = true) : c ≠ 'x' ∧ c ≠ 'X' := by
  constructor <;> rintro rfl <;> exact absurd hc (by decide)

theorem hexadecimalPart?_fraction {ds fs : List Char} (hd : ∀ c ∈ ds, c.isDigit = true)
    (hf : ∀ c ∈ fs, c.isDigit = true) : hexadecimalPart? (ds ++ '.' :: fs) = none := by
  refine hexadecimalPart?_eq_none fun c hc ↦ ?_
  rcases List.mem_append.mp hc with hc | hc
  · exact ne_x_of_isDigit (hd c hc)
  rcases List.mem_cons.mp hc with rfl | hc
  · decide
  · exact ne_x_of_isDigit (hf c hc)

/-- The text of a number without a sign is hexadecimal, or a decimal that can be read. -/
theorem Unsigned.readable {u : List Char} (h : Unsigned u) :
    (∃ hs, hexadecimalPart? u = some hs ∧ hs ≠ [] ∧ ∀ c ∈ hs, Numeral.isHexDigit c = true) ∨
      (hexadecimalPart? u = none ∧ (Decimal.magnitude? u).isSome) := by
  cases h with
  | whole hne hd =>
    refine Or.inr ⟨hexadecimalPart?_eq_none fun c hc ↦ ne_x_of_isDigit (hd c hc), ?_⟩
    exact magnitude?_of_scaled? (scaled?_whole hne hd)
  | fraction hd hne hf =>
    exact Or.inr ⟨hexadecimalPart?_fraction hd hf,
      magnitude?_of_scaled? (scaled?_fraction hd hne hf)⟩
  | @hexadecimal x hs hx hne hh =>
    exact Or.inl ⟨hs, by rw [hexadecimalPart?, if_pos hx], hne, hh⟩

/-- A number is read whatever sign it has. -/
theorem isSome_ofNumeral?_withSign (negative : Bool) {u : List Char} (hu : Unsigned u) :
    (ofNumeral? (withSign negative u)).isSome := by
  rw [ofNumeral?_withSign negative (hu.head?_ne (Or.inl rfl))]
  rcases hu.readable with ⟨hs, hhex, hne, hh⟩ | ⟨hnone, hsome⟩
  · rw [hhex]
    exact ofHexadecimal?_isSome negative hne hh
  · rw [hnone]
    exact ofDecimal?_isSome (isSome_read?_withSign negative hu hsome)

/-- The text of a number at the start of a source spells a number. -/
theorem ofNumeral?_of_numberLength? {cs : List Char} {n : Nat}
    (h : Token.numberLength? cs = some n) : (ofNumeral? (cs.take n)).isSome := by
  obtain ⟨negative, u, htake, hu⟩ := unsigned_of_numberLength? h
  rw [htake]
  exact isSome_ofNumeral?_withSign negative hu

end Value

end Stencil
