import Mathlib.Data.List.Induction
import Mathlib.Data.Nat.Digits.Defs
import Stencil.Proofs.Numerals
import Stencil.Proofs.Operands
import Stencil.Proofs.Tokens

/-!
# Number literals stand for numbers

A number literal without a point denotes an integer, however long it is: digits in base ten, or in
base sixteen behind `0x`, and a minus or none in front. If the integer fits a word of 64 bits the
literal stands for it whatever base it is written in, else for a floating-point number. One integer
is an exception. The magnitude of a hexadecimal literal is read before its sign, and the magnitude
of the least word does not fit, so this word has decimal literals only.

The sign of a hexadecimal literal is the one place where a literal is computed with words. The
computation is repeated with the negation checked, and no number token makes it overflow.

## Main definitions

* `Numeral.Denotes`: the integer that a text denotes in a base.
* `Numeral.HasWord`: the integers that the literals in a base stand for as words.
* `Numeral.negate`, `Value.ofNumeralChecked`: a literal that is read with its negation checked.

## Main results

* `Numeral.value_eq_ofDigits`: the number of some digits by its positions.
* `Value.ofNumeral?_of_denotes`: what a literal without a point stands for.
* `Value.ofNumeral?_of_checked`, `Value.ofNumeralChecked_withSign`: the check changes no value, and
  reading a number does not overflow.
* `Token.reads_number`: what the number tokens of a source stand for.
-/

namespace Stencil

namespace Numeral

variable {base k : Nat} {cs hs : List Char} {n : Int}

/-! ### The integer that a text denotes -/

/-- Digits stand for the sum of their values, each times the base as often as digits follow. -/
theorem value_eq_ofDigits (base : Nat) (cs : List Char) :
    value base cs = Nat.ofDigits base (cs.map digitValue).reverse := by
  induction cs using List.reverseRecOn with
  | nil => rfl
  | append_singleton cs c ih =>
    rw [value_append_singleton, ih, List.map_append, List.reverse_append, List.map_singleton,
      List.reverse_singleton, List.singleton_append, Nat.ofDigits_cons, Nat.mul_comm, Nat.add_comm]

/-- The natural number that digits denote, in base ten or behind `0x` in base sixteen. -/
inductive Magnitude : Nat → List Char → Nat → Prop
  | decimal {ds : List Char} (hne : ds ≠ []) (hd : ∀ c ∈ ds, c.isDigit = true) :
      Magnitude 10 ds (Nat.ofDigits 10 (ds.map digitValue).reverse)
  | hexadecimal {x : Char} {hs : List Char} (hx : x = 'x' ∨ x = 'X') (hne : hs ≠ [])
      (hh : ∀ c ∈ hs, isHexDigit c = true) :
      Magnitude 16 ('0' :: x :: hs) (Nat.ofDigits 16 (hs.map digitValue).reverse)

/-- The integer that a text denotes in a base: digits, or a minus and digits. -/
inductive Denotes : Nat → List Char → Int → Prop
  | positive {base k : Nat} {cs : List Char} (h : Magnitude base cs k) : Denotes base cs k
  | negative {base k : Nat} {cs : List Char} (h : Magnitude base cs k) :
      Denotes base ('-' :: cs) (-(k : Int))

theorem Magnitude.unsigned (h : Magnitude base cs k) : Value.Unsigned cs := by
  cases h with
  | decimal hne hd => exact .whole hne hd
  | hexadecimal hx hne hh => exact .hexadecimal hx hne hh

/-- An integer by its sign and its magnitude. -/
def applySign (negative : Bool) (k : Nat) : Int :=
  if negative then -k else k

theorem denotes_iff : Denotes base cs n ↔ ∃ negative u k,
    cs = Value.withSign negative u ∧ Magnitude base u k ∧ n = applySign negative k := by
  constructor
  · rintro (h | h)
    · exact ⟨false, _, _, rfl, h, rfl⟩
    · exact ⟨true, _, _, rfl, h, rfl⟩
  · rintro ⟨negative, u, k, rfl, h, rfl⟩
    cases negative with
    | false => exact .positive h
    | true => exact .negative h

/-- The decimal text of an integer denotes it. -/
theorem denotes_decimal (n : Int) : Denotes 10 (decimal n) n := by
  have hdigits (k : Nat) : Magnitude 10 (digits 10 k) k := by
    have h := Magnitude.decimal (digits_ne_nil 10 k) fun c ↦ isDigit_of_mem_digits
    rwa [← value_eq_ofDigits, value_digits (by omega) (by omega)] at h
  cases n with
  | ofNat k => exact .positive (hdigits k)
  | negSucc k => exact .negative (hdigits (k + 1))

/-! ### The integers that are words -/

/-- The integers that fit a word of 64 bits. -/
def FitsWord (n : Int) : Prop :=
  Int64.minValue.toInt ≤ n ∧ n ≤ Int64.maxValue.toInt

/-- The integers that literals in a base stand for: those that fit a word, but for the least one
in base sixteen. -/
def HasWord (base : Nat) (n : Int) : Prop :=
  FitsWord n ∧ ¬ (base = 16 ∧ n = Int64.minValue.toInt)

instance : Decidable (FitsWord n) :=
  inferInstanceAs (Decidable (_ ∧ _))

instance : Decidable (HasWord base n) :=
  inferInstanceAs (Decidable (_ ∧ _))

theorem toInt_minValue : Int64.minValue.toInt = -0x8000000000000000 := by
  decide

theorem toInt_maxValue : Int64.maxValue.toInt = 0x7fffffffffffffff := by
  decide

theorem fitsWord_iff : FitsWord n ↔ -0x8000000000000000 ≤ n ∧ n < 0x8000000000000000 := by
  rw [FitsWord, toInt_minValue, toInt_maxValue]
  omega

theorem fitsWord_toInt (m : Int64) : FitsWord m.toInt :=
  fitsWord_iff.mpr ⟨m.le_toInt, m.toInt_lt⟩

theorem hasWord_decimal_iff : HasWord 10 n ↔ FitsWord n := by
  simp [HasWord]

/-- In base sixteen the magnitude of an integer decides whether a literal stands for it. -/
theorem hasWord_hexadecimal_iff (negative : Bool) (k : Nat) :
    HasWord 16 (applySign negative k) ↔ FitsWord k := by
  cases negative <;> simp only [HasWord, applySign, fitsWord_iff, toInt_minValue] <;> grind

theorem word?_of_fitsWord (h : FitsWord n) : ∃ m, word? n = some m ∧ m.toInt = n := by
  have hword : word? n = some (Int64.ofInt n) := if_pos (fitsWord_iff.mp h)
  exact ⟨_, hword, word?_eq_some_iff.mp hword⟩

theorem word?_of_not_fitsWord (h : ¬ FitsWord n) : word? n = none :=
  if_neg (mt fitsWord_iff.mpr h)

theorem word?_eq_none_iff : word? n = none ↔ ¬ FitsWord n := by
  refine ⟨fun hnone h ↦ ?_, word?_of_not_fitsWord⟩
  obtain ⟨m, hm, -⟩ := word?_of_fitsWord h
  rw [hnone] at hm
  nomatch hm

/-! ### Negation of words -/

/-- The word whose negation leaves the range of words. -/
structure Overflow where
  operand : Int64
  deriving DecidableEq, Repr

/-- The negation of a word, if it is a word again. -/
def negate (m : Int64) : Except Overflow Int64 :=
  match word? (-m.toInt) with
  | some m' => .ok m'
  | none => .error ⟨m⟩

theorem negate_eq_ok_iff {m m' : Int64} : negate m = .ok m' ↔ m'.toInt = -m.toInt := by
  rw [negate, ← word?_eq_some_iff]
  cases word? (-m.toInt) <;> simp

/-- A negation that is a word is the negation of words. -/
theorem eq_neg_of_negate {m m' : Int64} (h : negate m = .ok m') : m' = -m := by
  have hlow := m'.le_toInt
  have hhigh := m'.toInt_lt
  rw [← Int64.toInt_inj, Int64.toInt_neg, ← negate_eq_ok_iff.mp h, Int.bmod_eq_of_le] <;> omega

theorem toInt_neg_of_nonneg {m : Int64} (h : 0 ≤ m.toInt) : (-m).toInt = -m.toInt := by
  have hlt := m.toInt_lt
  rw [Int64.toInt_neg, Int.bmod_eq_of_le] <;> omega

/-- The negation of a word that is not negative is a word. -/
theorem negate_of_nonneg {m : Int64} (h : 0 ≤ m.toInt) : negate m = .ok (-m) :=
  negate_eq_ok_iff.mpr (toInt_neg_of_nonneg h)

theorem hexadecimal?_of_forall (hne : hs ≠ []) (hh : ∀ c ∈ hs, isHexDigit c = true) :
    hexadecimal? hs = word? (value 16 hs) :=
  signed?_of_forall (by decide) hne hh

end Numeral

namespace Value

open Numeral (Denotes FitsWord HasWord Magnitude Overflow applySign)

variable {base k : Nat} {cs hs u : List Char} {n : Int} {negative : Bool}

/-! ### Reading with the negation checked -/

/-- The value of a hexadecimal literal after its `0x`, its negation checked. -/
def ofHexadecimalChecked (negative : Bool) (cs : List Char) : Except Overflow (Option Value) :=
  match Numeral.hexadecimal? cs with
  | some m => (if negative then Numeral.negate m else .ok m).map fun m ↦ some (int m)
  | none => .ok ((wideHexadecimal? cs).map fun x ↦ float (if negative then -x else x))

/-- The value of a number literal, its negation checked. -/
def ofNumeralChecked (cs : List Char) : Except Overflow (Option Value) :=
  match hexadecimalPart? (splitSign cs).2 with
  | some hs => ofHexadecimalChecked (splitSign cs).1 hs
  | none => .ok (ofDecimal? cs)

theorem ofHexadecimal?_of_checked {result : Option Value}
    (h : ofHexadecimalChecked negative hs = .ok result) : ofHexadecimal? negative hs = result := by
  unfold ofHexadecimalChecked at h
  unfold ofHexadecimal?
  cases hword : Numeral.hexadecimal? hs with
  | none =>
    rw [hword] at h
    exact Except.ok.inj h
  | some m =>
    rw [hword] at h
    cases negative with
    | false => exact Except.ok.inj h
    | true =>
      cases hnegate : Numeral.negate m with
      | error o => simp [hnegate, Except.map] at h
      | ok m' =>
        obtain rfl := Numeral.eq_neg_of_negate hnegate
        simpa [hnegate, Except.map] using h

/-- A literal that is read without an overflow is read as it is without the check. -/
theorem ofNumeral?_of_checked {result : Option Value} (h : ofNumeralChecked cs = .ok result) :
    ofNumeral? cs = result := by
  rw [ofNumeral?_eq]
  unfold ofNumeralChecked at h
  cases hpart : hexadecimalPart? (splitSign cs).2 with
  | none =>
    rw [hpart] at h
    exact Except.ok.inj h
  | some hs =>
    rw [hpart] at h
    exact ofHexadecimal?_of_checked h

/-- Digits have no sign of their own, so what is negated is not negative. -/
theorem exists_ofHexadecimalChecked (negative : Bool) (hne : hs ≠ [])
    (hh : ∀ c ∈ hs, Numeral.isHexDigit c = true) :
    ∃ result, ofHexadecimalChecked negative hs = .ok result := by
  unfold ofHexadecimalChecked
  cases hword : Numeral.hexadecimal? hs with
  | none => exact ⟨_, rfl⟩
  | some m =>
    rw [Numeral.hexadecimal?_of_forall hne hh, Numeral.word?_eq_some_iff] at hword
    have hnonneg : 0 ≤ m.toInt := by omega
    cases negative with
    | false => exact ⟨_, rfl⟩
    | true => simp [Numeral.negate_of_nonneg hnonneg, Except.map]

/-- Reading a number does not overflow. -/
theorem ofNumeralChecked_withSign (negative : Bool) (hu : Unsigned u) :
    ofNumeralChecked (withSign negative u) = .ok (ofNumeral? (withSign negative u)) := by
  have hresult : ∃ result, ofNumeralChecked (withSign negative u) = .ok result := by
    rw [ofNumeralChecked, splitSign_withSign negative (hu.head?_ne (Or.inl rfl))]
    rcases hu.readable with ⟨hs, hhex, hne, hh⟩ | ⟨hnone, -⟩
    · simp only [hhex]
      exact exists_ofHexadecimalChecked negative hne hh
    · simp only [hnone]
      exact ⟨_, rfl⟩
  obtain ⟨result, hresult⟩ := hresult
  rw [hresult, ofNumeral?_of_checked hresult]

/-- A sign behind the `0x` makes a text that is no number, and its negation can overflow. -/
example : ofNumeralChecked "-0x-8000000000000000".toList = .error ⟨Int64.minValue⟩ :=
  rfl

/-! ### Literals without a point -/

/-- A value represents an integer that is denoted in a base: as a word if the literals in this base
stand for it, else as some floating-point number. -/
inductive Represents (base : Nat) (n : Int) : Value → Prop
  | word {m : Int64} (h : HasWord base n) (hm : m.toInt = n) : Represents base n (.int m)
  | wide {x : Float} (h : ¬ HasWord base n) : Represents base n (.float x)

theorem point_notMem_of_forall (hd : ∀ c ∈ u, c.isDigit = true) : '.' ∉ u :=
  fun hpoint ↦ absurd (hd _ hpoint) (by decide)

theorem point_notMem_hexadecimal {x : Char} (hx : x = 'x' ∨ x = 'X')
    (hh : ∀ c ∈ hs, Numeral.isHexDigit c = true) : '.' ∉ '0' :: x :: hs := by
  intro hpoint
  simp only [List.mem_cons] at hpoint
  rcases hpoint with hzero | rfl | hpoint
  · exact absurd hzero (by decide)
  · exact absurd hx (by decide)
  · exact absurd (hh _ hpoint) (by decide)

theorem point_mem_withSign : '.' ∈ withSign negative u ↔ '.' ∈ u := by
  cases negative <;> simp [withSign]

theorem ofDecimal?_of_notMem (hpoint : '.' ∉ cs) :
    ofDecimal? cs = match Numeral.integer? cs with
      | some m => some (int m)
      | none => (Decimal.read? cs).map float := by
  have hcontains : cs.contains '.' = false := by simpa using hpoint
  rw [ofDecimal?, hcontains]
  rfl

theorem integer?_withSign (negative : Bool) (hne : u ≠ []) (hd : ∀ c ∈ u, c.isDigit = true) :
    Numeral.integer? (withSign negative u) =
      Numeral.word? (applySign negative (Numeral.value 10 u)) := by
  cases negative with
  | false => exact Numeral.signed?_of_forall (by decide) hne hd
  | true =>
    rw [withSign, if_pos rfl, Numeral.integer?, Numeral.signed?,
      Numeral.natural?_of_forall hne hd]
    rfl

theorem exists_represents_decimal (negative : Bool) (hne : u ≠ [])
    (hd : ∀ c ∈ u, c.isDigit = true) : ∃ v, ofNumeral? (withSign negative u) = some v ∧
      Represents 10 (applySign negative (Numeral.value 10 u)) v := by
  have hu : Unsigned u := .whole hne hd
  have hpart := hexadecimalPart?_eq_none fun c hc ↦ ne_x_of_isDigit (hd c hc)
  have hpoint : '.' ∉ withSign negative u :=
    mt point_mem_withSign.mp (point_notMem_of_forall hd)
  obtain ⟨v, hv⟩ := Option.isSome_iff_exists.mp (isSome_ofNumeral?_withSign negative hu)
  have hread := ofNumeral?_withSign negative (hu.head?_ne (Or.inl rfl))
  simp only [hpart, ofDecimal?_of_notMem hpoint, integer?_withSign negative hne hd] at hread
  refine ⟨v, hv, ?_⟩
  by_cases hfits : FitsWord (applySign negative (Numeral.value 10 u))
  · obtain ⟨m, hm, hint⟩ := Numeral.word?_of_fitsWord hfits
    rw [hm] at hread
    obtain rfl := Option.some.inj (hv.symm.trans hread)
    exact .word (Numeral.hasWord_decimal_iff.mpr hfits) hint
  · rw [Numeral.word?_of_not_fitsWord hfits] at hread
    obtain ⟨x, -, rfl⟩ := Option.map_eq_some_iff.mp (hread.symm.trans hv)
    exact .wide (mt Numeral.hasWord_decimal_iff.mp hfits)

theorem exists_represents_hexadecimal (negative : Bool) (hne : hs ≠ [])
    (hh : ∀ c ∈ hs, Numeral.isHexDigit c = true) : ∃ v, ofHexadecimal? negative hs = some v ∧
      Represents 16 (applySign negative (Numeral.value 16 hs)) v := by
  rw [ofHexadecimal?, Numeral.hexadecimal?_of_forall hne hh]
  have hiff := Numeral.hasWord_hexadecimal_iff negative (Numeral.value 16 hs)
  by_cases hfits : FitsWord (Numeral.value 16 hs)
  · obtain ⟨m, hm, hint⟩ := Numeral.word?_of_fitsWord hfits
    rw [hm]
    refine ⟨_, rfl, .word (hiff.mpr hfits) ?_⟩
    cases negative with
    | false => exact hint
    | true => exact (Numeral.toInt_neg_of_nonneg (by omega)).trans (by rw [hint]; rfl)
  · rw [Numeral.word?_of_not_fitsWord hfits, wideHexadecimal?,
      if_pos ⟨hne, List.all_eq_true.mpr hh⟩]
    exact ⟨_, rfl, .wide (mt hiff.mp hfits)⟩

/-- A literal without a point is read, and represents the integer that it denotes. -/
theorem ofNumeral?_of_denotes (h : Denotes base cs n) :
    ∃ v, ofNumeral? cs = some v ∧ Represents base n v := by
  obtain ⟨negative, u, k, rfl, hu, rfl⟩ := Numeral.denotes_iff.mp h
  cases hu with
  | decimal hne hd =>
    rw [← Numeral.value_eq_ofDigits]
    exact exists_represents_decimal negative hne hd
  | @hexadecimal x hs hx hne hh =>
    have hhead := (Unsigned.hexadecimal hx hne hh).head?_ne (Or.inl rfl)
    have hpart : hexadecimalPart? ('0' :: x :: hs) = some hs := if_pos hx
    rw [← Numeral.value_eq_ofDigits, ofNumeral?_withSign negative hhead, hpart]
    exact exists_represents_hexadecimal negative hne hh

/-- Literals that stand for a word have one value for each integer. -/
theorem Represents.eq {base' : Nat} {v w : Value} (hv : Represents base n v)
    (hw : Represents base' n w) (h : HasWord base n) (h' : HasWord base' n) : w = v := by
  rcases hv with ⟨-, hm⟩ | hwide
  · rcases hw with ⟨-, hm'⟩ | hwide'
    · rw [Int64.toInt_inj.mp (hm'.trans hm.symm)]
    · exact absurd h' hwide'
  · exact absurd h hwide

/-! ### Literals with a point -/

/-- A literal with a point is a floating-point number. -/
theorem ofNumeral?_of_point (negative : Bool) (hu : Unsigned u) (hpoint : '.' ∈ u) :
    ∃ x, ofNumeral? (withSign negative u) = some (.float x) := by
  have hpart : hexadecimalPart? u = none := by
    cases hu with
    | whole hne hd => exact absurd hpoint (point_notMem_of_forall hd)
    | fraction hd hne hf => exact hexadecimalPart?_fraction hd hf
    | hexadecimal hx hne hh => exact absurd hpoint (point_notMem_hexadecimal hx hh)
  have hcontains : (withSign negative u).contains '.' = true :=
    List.contains_iff_mem.mpr (point_mem_withSign.mpr hpoint)
  obtain ⟨v, hv⟩ := Option.isSome_iff_exists.mp (isSome_ofNumeral?_withSign negative hu)
  have hread := ofNumeral?_withSign negative (hu.head?_ne (Or.inl rfl))
  simp only [hpart, ofDecimal?, hcontains, if_true] at hread
  obtain ⟨x, -, rfl⟩ := Option.map_eq_some_iff.mp (hread.symm.trans hv)
  exact ⟨x, hv⟩

/-- A number without a point and a sign denotes a natural number. -/
theorem Unsigned.exists_magnitude (hu : Unsigned u) (hpoint : '.' ∉ u) :
    ∃ base k, Magnitude base u k := by
  cases hu with
  | whole hne hd => exact ⟨_, _, .decimal hne hd⟩
  | fraction => simp at hpoint
  | hexadecimal hx hne hh => exact ⟨_, _, .hexadecimal hx hne hh⟩

end Value

/-! ### The number tokens of a source -/

namespace Token

open Numeral (Denotes FitsWord HasWord Magnitude)
open Text (Cursor)
open Value (Represents)

variable {right : List Char} {c : Cursor} {t : Token}

theorem unsignedLength?_of_magnitude {base k : Nat} {cs : List Char} (h : Magnitude base cs k) :
    unsignedLength? cs = some cs.length := by
  cases h with
  | decimal hne hd =>
    have hdigits : Text.digitsLength cs = cs.length := by
      rw [Text.digitsLength, List.takeWhile_eq_self_iff.mpr hd]
    have htail : tailLength cs [] = 0 := by
      simp [tailLength, Text.hexTailLength?, Text.fractionLength?]
    rw [unsignedLength?, hdigits, if_neg (List.length_eq_zero_iff.not.mpr hne), List.take_length,
      List.drop_length, htail, Nat.add_zero]
  | @hexadecimal x hs hx hne hh =>
    have hdigits : Text.digitsLength ('0' :: x :: hs) = 1 := by
      rcases hx with rfl | rfl <;> rfl
    have hall : hs.takeWhile Numeral.isHexDigit = hs := List.takeWhile_eq_self_iff.mpr hh
    have hlength : (hs.takeWhile Numeral.isHexDigit).length ≠ 0 := by
      rwa [hall, Ne, List.length_eq_zero_iff]
    have htail : tailLength ['0'] (x :: hs) = 1 + hs.length := by
      rw [tailLength, if_pos rfl, Text.hexTailLength?_cons hx hlength, hall]
      rfl
    rw [unsignedLength?, hdigits, if_neg one_ne_zero, List.take_succ_cons, List.take_zero,
      List.drop_succ_cons, List.drop_zero, htail, List.length_cons, List.length_cons]
    congr 1
    omega

/-- What denotes an integer is a number from its start to its end. -/
theorem numberLength?_of_denotes {base : Nat} {cs : List Char} {n : Int} (h : Denotes base cs n) :
    numberLength? cs = some cs.length := by
  cases h with
  | positive h =>
    have hminus := h.unsigned.head?_ne (Or.inl rfl)
    rw [numberLength?_of_ne hminus, unsignedLength?_of_magnitude h, Option.some_or]
  | negative h =>
    rw [numberLength?, unsignedLength?_of_magnitude h, Option.map_some, List.length_cons]

theorem Known.exists_numberLength? (ht : t.Known) (hkind : t.kind = .number) :
    ∃ cs n, numberLength? cs = some n ∧ t.text = cs.take n := by
  obtain ⟨cs, l, hl, hsame, htext⟩ := ht
  rw [hkind] at hsame
  rcases known?_eq_some hl with ⟨n, -, rfl⟩ | ⟨n, -, rfl⟩ | ⟨n, hn, rfl⟩ | h | h
  · cases hsame
  · cases hsame
  · exact ⟨cs, n, hn, htext⟩
  · obtain ⟨-, -, -, -, rfl⟩ := word?_eq_some h
    simp only [wordKind] at hsame
    split at hsame <;> cases hsame
  · have hmem := mem_symbolKinds (symbol?_eq_some h).2
    rw [← hsame] at hmem
    exact absurd hmem (by decide)

/-- A number token is read without an overflow. With a point it is a floating-point number. Without
one it denotes an integer, and represents every integer that it denotes; whatever else denotes the
same integer, in the same base or the other, has the same value if both stand for a word. -/
theorem reads_number (ht : t ∈ (scan right c).1) (hkind : t.kind = .number) :
    ∃ v, Value.ofNumeralChecked t.text = .ok (some v) ∧ Value.ofNumeral? t.text = some v ∧
      ('.' ∈ t.text → ∃ x, v = .float x) ∧
      ('.' ∉ t.text → ∃ base n, Denotes base t.text n) ∧
      ∀ base n, Denotes base t.text n → Represents base n v ∧
        ∀ base' cs, Denotes base' cs n → HasWord base n → HasWord base' n →
          Value.ofNumeral? cs = some v := by
  have hknown := known_of_mem_scan ht (by rw [hkind]; decide) (by rw [hkind]; decide)
  obtain ⟨cs, n, hn, htext⟩ := hknown.exists_numberLength? hkind
  obtain ⟨negative, u, htake, hu⟩ := Value.unsigned_of_numberLength? hn
  rw [htext, htake, Value.ofNumeralChecked_withSign negative hu, Value.point_mem_withSign]
  obtain ⟨v, hv⟩ := Option.isSome_iff_exists.mp (Value.isSome_ofNumeral?_withSign negative hu)
  refine ⟨v, by rw [hv], hv, fun hpoint ↦ ?_, fun hpoint ↦ ?_, fun base n hdenotes ↦ ?_⟩
  · obtain ⟨x, hx⟩ := Value.ofNumeral?_of_point negative hu hpoint
    exact ⟨x, Option.some.inj (hv.symm.trans hx)⟩
  · obtain ⟨base, k, hmagnitude⟩ := hu.exists_magnitude hpoint
    exact ⟨base, _, Numeral.denotes_iff.mpr ⟨negative, u, k, rfl, hmagnitude, rfl⟩⟩
  · obtain ⟨w, hw, hrepresents⟩ := Value.ofNumeral?_of_denotes hdenotes
    obtain rfl := Option.some.inj (hv.symm.trans hw)
    refine ⟨hrepresents, fun base' cs hdenotes' h h' ↦ ?_⟩
    obtain ⟨w', hw', hrepresents'⟩ := Value.ofNumeral?_of_denotes hdenotes'
    rw [hw', hrepresents.eq hrepresents' h h']

/-- The least word in decimal digits behind a zero, and the number that its digits without the sign
are in base sixteen. -/
theorem reads_number_extremes :
    (scan ['\x7d'] ⟨0, "-09223372036854775808 0X8000000000000000\x7d".toList⟩).1 =
        [⟨.number, "-09223372036854775808".toList, 0⟩, ⟨.number, "0X8000000000000000".toList, 22⟩,
          ⟨.close, ['\x7d'], 40⟩] ∧
      (∃ m, Value.ofNumeral? "-09223372036854775808".toList = some (.int m) ∧
        m.toInt = -9223372036854775808) ∧
      ∃ x, Value.ofNumeral? "0X8000000000000000".toList = some (.float x) := by
  have hscan : (scan ['\x7d'] ⟨0, "-09223372036854775808 0X8000000000000000\x7d".toList⟩).1 =
      [⟨.number, "-09223372036854775808".toList, 0⟩, ⟨.number, "0X8000000000000000".toList, 22⟩,
        ⟨.close, ['\x7d'], 40⟩] := by
    decide +kernel
  refine ⟨hscan, ?_, ?_⟩
  · obtain ⟨v, -, hv, -, -, hdenotes⟩ := reads_number (t := ⟨.number, _, 0⟩)
      (hscan ▸ List.mem_cons_self) rfl
    have hdigits : Magnitude 10 "09223372036854775808".toList 9223372036854775808 :=
      .decimal (by decide) (List.all_eq_true.mp rfl)
    have hleast : Denotes 10 "-09223372036854775808".toList (-9223372036854775808) :=
      .negative hdigits
    obtain ⟨-, hm⟩ | hwide := (hdenotes _ _ hleast).1
    · exact ⟨_, hv, hm⟩
    · exact absurd (by decide) hwide
  · obtain ⟨v, -, hv, -, -, hdenotes⟩ := reads_number (t := ⟨.number, _, 22⟩)
      (hscan ▸ List.mem_cons_of_mem _ List.mem_cons_self) rfl
    have hdigits : Magnitude 16 "0X8000000000000000".toList 9223372036854775808 :=
      .hexadecimal (Or.inr rfl) (by decide) (List.all_eq_true.mp rfl)
    have hpast : Denotes 16 "0X8000000000000000".toList 9223372036854775808 :=
      .positive hdigits
    obtain ⟨hword, -⟩ | hwide := (hdenotes _ _ hpast).1
    · exact absurd hword (by decide)
    · exact ⟨_, hv⟩

/-- The least word in base sixteen: a number token that denotes an integer in the range of words, and
yet it is a floating-point number, while the decimal token is the word. -/
theorem reads_number_fails :
    ∃ t ∈ (scan ['\x7d'] ⟨0, "-0x8000000000000000\x7d".toList⟩).1, t.kind = .number ∧
      Denotes 16 t.text (-9223372036854775808) ∧ FitsWord (-9223372036854775808) ∧
      (∃ x, Value.ofNumeral? t.text = some (.float x)) ∧
      Denotes 10 "-9223372036854775808".toList (-9223372036854775808) ∧
      Value.ofNumeral? "-9223372036854775808".toList = some (.int Int64.minValue) := by
  have hscan : (scan ['\x7d'] ⟨0, "-0x8000000000000000\x7d".toList⟩).1.head? =
      some ⟨.number, "-0x8000000000000000".toList, 0⟩ := by
    decide +kernel
  have hhex : Magnitude 16 "0x8000000000000000".toList 9223372036854775808 :=
    .hexadecimal (Or.inl rfl) (by decide) (List.all_eq_true.mp rfl)
  have hdecimal : Magnitude 10 "9223372036854775808".toList 9223372036854775808 :=
    .decimal (by decide) (List.all_eq_true.mp rfl)
  exact ⟨_, List.mem_of_head? hscan, rfl, .negative hhex, by decide, ⟨_, rfl⟩, .negative hdecimal,
    rfl⟩

end Token

end Stencil
