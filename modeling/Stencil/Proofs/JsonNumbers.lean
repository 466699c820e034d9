import Mathlib.Data.List.Induction
import Stencil.Json.Reader
import Stencil.Proofs.Numerals
import Stencil.Proofs.Shortest

/-!
# Numbers in JSON

Whatever number is written, its text is one that the reader takes as a whole, and it stands for the
same number in front of anything that cannot belong to it. Integers in the range of a word are read
as themselves; what a floating-point number is read as depends on its text alone.

## Main definitions

* `Json.Unsigned`, `Json.Spelled`: the texts of numbers, without and with a sign.
* `Json.Stops`: what may follow a number.
* `Json.numberOf`: the number that such a text stands for.

## Main results

* `Json.Spelled.number?`: the text of a number reads as the same number whatever follows it.
* `Json.spelled_write`: a finite number is written as the text of a number.
* `Json.numberOf_decimal`: integers in the range of a word are read as themselves.
-/

namespace Stencil.Decimal

theorem splitDigits_append {ds rest : List Char} (hds : ∀ c ∈ ds, c.isDigit = true)
    (hrest : ∀ c ∈ rest.head?, c.isDigit = false) : splitDigits (ds ++ rest) = (ds, rest) := by
  have hstop : rest.takeWhile Char.isDigit = [] ∧ rest.dropWhile Char.isDigit = rest := by
    cases rest with
    | nil => exact ⟨rfl, rfl⟩
    | cons c rest => simp [hrest c rfl]
  rw [splitDigits, List.takeWhile_append_of_pos hds, List.dropWhile_append_of_pos hds, hstop.1,
    hstop.2, List.append_nil]

end Stencil.Decimal

namespace Stencil.Json

variable {cs ds whole fraction tail rest : List Char}

/-- What may follow a number: nothing that could belong to it. -/
def Stops (cs : List Char) : Prop :=
  ∀ c ∈ cs.head?, c.isDigit = false ∧ c ≠ '.' ∧ c ≠ 'e' ∧ c ≠ 'E'

/-- The digits before the point: a leading zero stands alone. -/
structure Whole (cs : List Char) : Prop where
  digits : ∀ c ∈ cs, c.isDigit = true
  ne_nil : cs ≠ []
  leading : cs.head? = some '0' → cs.length ≤ 1

/-- The end of a number: an exponent with its sign, or nothing. -/
inductive Scale : List Char → Prop
  | unscaled : Scale []
  | power {sign : Char} {ds : List Char} (hsign : sign = '-' ∨ sign = '+')
      (hne : ds ≠ []) (hds : ∀ c ∈ ds, c.isDigit = true) : Scale ('e' :: sign :: ds)

/-- The text of a number without its sign. -/
inductive Unsigned : List Char → Prop
  | whole {ds tail : List Char} (hds : Whole ds) (htail : Scale tail) : Unsigned (ds ++ tail)
  | fraction {ds fraction tail : List Char} (hds : Whole ds) (hne : fraction ≠ [])
      (hfraction : ∀ c ∈ fraction, c.isDigit = true) (htail : Scale tail) :
      Unsigned (ds ++ '.' :: (fraction ++ tail))

theorem Stops.isDigit_eq_false (h : Stops rest) : ∀ c ∈ rest.head?, c.isDigit = false :=
  fun c hc ↦ (h c hc).1

theorem Scale.head?_append (h : Scale tail) (hrest : Stops rest) :
    ∀ c ∈ (tail ++ rest).head?, c.isDigit = false ∧ c ≠ '.' := by
  cases h with
  | unscaled => exact fun c hc ↦ ⟨(hrest c hc).1, (hrest c hc).2.1⟩
  | power =>
    rintro c ⟨⟩
    decide

theorem exponent?_of_stops (h : Stops rest) : exponent? rest = some (none, rest) := by
  cases rest with
  | nil => rfl
  | cons c rest =>
    have hc := h c rfl
    simp [exponent?, hc.2.2.1, hc.2.2.2]

theorem Scale.exponent? (h : Scale tail) :
    ∃ e, ∀ rest, Stops rest → exponent? (tail ++ rest) = some (e, rest) := by
  cases h with
  | unscaled => exact ⟨none, fun rest hrest ↦ exponent?_of_stops hrest⟩
  | @power sign ds hsign hne hds =>
    rcases hsign with rfl | rfl
    · refine ⟨some (-(Numeral.value 10 ds : Int)), fun rest hrest ↦ ?_⟩
      simp [Json.exponent?, Decimal.splitDigits_append hds hrest.isDigit_eq_false, hne]
    · refine ⟨some (Numeral.value 10 ds : Int), fun rest hrest ↦ ?_⟩
      simp [Json.exponent?, Decimal.splitDigits_append hds hrest.isDigit_eq_false, hne]

/-- The number of digits alone, or with an exponent. -/
def ofDigits (negative : Bool) (ds : List Char) : Option Int → Json
  | some e => ofParts negative (ds.foldl Significand.addWhole .zero) e
  | none => ofWhole negative (ds.foldl Significand.addWhole .zero)

/-- The number of digits on both sides of the point, and an exponent if there is one. -/
def ofFraction (negative : Bool) (ds fraction : List Char) (e : Option Int) : Json :=
  ofParts negative (fraction.foldl Significand.addFraction
    { ds.foldl Significand.addWhole .zero with full := false }) (e.getD 0)

/-- The reader has nothing against the digits before a point. -/
theorem Whole.not_refused (h : Whole ds) : ¬(ds = [] ∨ ds.head? = some '0' ∧ 1 < ds.length) := by
  rintro (hnil | ⟨hzero, hlength⟩)
  · exact h.ne_nil hnil
  · exact absurd (h.leading hzero) (by omega)

theorem unsigned?_whole (negative : Bool) (hds : Whole ds)
    (hrest : ∀ c ∈ rest.head?, c.isDigit = false ∧ c ≠ '.') :
    unsigned? negative (ds ++ rest) =
      (exponent? rest).map fun (e, rest) ↦ (ofDigits negative ds e, rest) := by
  rw [unsigned?, Decimal.splitDigits_append hds.digits fun c hc ↦ (hrest c hc).1]
  simp only [if_neg hds.not_refused]
  split
  · exact absurd rfl (hrest '.' rfl).2
  · cases exponent? rest with
    | none => rfl
    | some found => rcases found with ⟨e | e, rest⟩ <;> rfl

theorem unsigned?_fraction (negative : Bool) (hds : Whole ds) (hne : fraction ≠ [])
    (hfraction : ∀ c ∈ fraction, c.isDigit = true) (hrest : ∀ c ∈ rest.head?, c.isDigit = false) :
    unsigned? negative (ds ++ '.' :: (fraction ++ rest)) =
      (exponent? rest).map fun (e, rest) ↦ (ofFraction negative ds fraction e, rest) := by
  have hpoint : ∀ c ∈ ('.' :: (fraction ++ rest)).head?, c.isDigit = false := by
    rintro c ⟨⟩
    decide
  rw [unsigned?, Decimal.splitDigits_append hds.digits hpoint]
  simp only [if_neg hds.not_refused, Decimal.splitDigits_append hfraction hrest, if_neg hne]
  cases exponent? rest <;> rfl

/-- The text of a number reads as one number, whatever follows it. -/
theorem Unsigned.unsigned? (h : Unsigned cs) (negative : Bool) :
    ∃ j, ∀ rest, Stops rest → unsigned? negative (cs ++ rest) = some (j, rest) := by
  cases h with
  | @whole ds tail hds htail =>
    obtain ⟨e, he⟩ := htail.exponent?
    refine ⟨ofDigits negative ds e, fun rest hrest ↦ ?_⟩
    rw [List.append_assoc, unsigned?_whole negative hds (htail.head?_append hrest), he rest hrest]
    rfl
  | @fraction ds fraction tail hds hne hfraction htail =>
    obtain ⟨e, he⟩ := htail.exponent?
    refine ⟨ofFraction negative ds fraction e, fun rest hrest ↦ ?_⟩
    rw [List.append_assoc, List.cons_append, List.append_assoc,
      unsigned?_fraction negative hds hne hfraction fun c hc ↦ (htail.head?_append hrest c hc).1,
      he rest hrest]
    rfl

theorem Whole.head_isDigit (h : Whole ds) : ∃ c cs, ds = c :: cs ∧ c.isDigit = true := by
  cases ds with
  | nil => exact absurd rfl h.ne_nil
  | cons c cs => exact ⟨c, cs, rfl, h.digits c List.mem_cons_self⟩

theorem Unsigned.head_isDigit (h : Unsigned cs) : ∃ c ds, cs = c :: ds ∧ c.isDigit = true := by
  cases h with
  | whole hds _ | fraction hds _ _ _ =>
    obtain ⟨c, ds, rfl, hc⟩ := hds.head_isDigit
    exact ⟨c, _, rfl, hc⟩

/-- The text of a number. -/
inductive Spelled : List Char → Prop
  | positive {cs : List Char} (h : Unsigned cs) : Spelled cs
  | negative {cs : List Char} (h : Unsigned cs) : Spelled ('-' :: cs)

theorem number?_of_isDigit {c : Char} (h : c.isDigit = true) :
    number? (c :: cs) = unsigned? false (c :: cs) := by
  unfold number?
  split
  · next heq =>
    obtain ⟨rfl, -⟩ := List.cons.inj heq
    exact absurd h (by decide)
  · rfl

/-- The number that the text of a number stands for. -/
def numberOf (cs : List Char) : Json :=
  ((number? cs).map Prod.fst).getD .null

theorem stops_nil : Stops [] := by
  rintro c ⟨⟩

/-- The text of a number reads as the same number whatever follows it. -/
theorem Spelled.number? (h : Spelled cs) (hrest : Stops rest) :
    number? (cs ++ rest) = some (numberOf cs, rest) := by
  have hread : ∃ j, ∀ rest, Stops rest → Json.number? (cs ++ rest) = some (j, rest) := by
    cases h with
    | positive h =>
      obtain ⟨j, hj⟩ := h.unsigned? false
      obtain ⟨c, ds, rfl, hc⟩ := h.head_isDigit
      exact ⟨j, fun rest hrest ↦ (number?_of_isDigit hc).trans (hj rest hrest)⟩
    | negative h => exact h.unsigned? true
  obtain ⟨j, hj⟩ := hread
  have hnil := hj [] stops_nil
  rw [List.append_nil] at hnil
  rw [hj rest hrest, numberOf, hnil, Option.map_some, Option.getD_some]

theorem whole_digits (n : Nat) : Whole (Numeral.digits 10 n) where
  digits _ := Numeral.isDigit_of_mem_digits
  ne_nil := Numeral.digits_ne_nil 10 n
  leading h := by
    rcases Nat.eq_zero_or_pos n with rfl | hpos
    · simp [Numeral.digits]
    · exact absurd h (Numeral.head?_digits (by omega))

theorem unsigned_digits (n : Nat) : Unsigned (Numeral.digits 10 n) := by
  simpa using Unsigned.whole (whole_digits n) .unscaled

theorem spelled_decimal (n : Int) : Spelled (Numeral.decimal n) := by
  cases n with
  | ofNat n => exact .positive (unsigned_digits n)
  | negSucc n => exact .negative (unsigned_digits (n + 1))

theorem unsigned_writePlain (hne : ds ≠ []) (hds : ∀ c ∈ ds, c.isDigit = true)
    (hlead : ds.head? ≠ some '0') (point : Int) : Unsigned (floatFormat.writePlain ds point) := by
  have hzeros (n : Nat) : ∀ c ∈ List.replicate n '0', c.isDigit = true := by
    intro c hc
    rw [List.eq_of_mem_replicate hc]
    decide
  have hzero : Whole ['0'] := ⟨by simp, by simp, by simp⟩
  rw [Decimal.Format.writePlain]
  split
  · have hfraction : ∀ c ∈ List.replicate (-point).toNat '0' ++ ds, c.isDigit = true := by
      intro c hc
      exact (List.mem_append.mp hc).elim (hzeros _ c) (hds c)
    simpa using Unsigned.fraction hzero (by simp [hne]) hfraction .unscaled
  · split
    · have hwhole : Whole (ds ++ List.replicate (point.toNat - ds.length) '0') := by
        refine ⟨fun c hc ↦ (List.mem_append.mp hc).elim (hds c) (hzeros _ c), by simp [hne], ?_⟩
        rw [List.head?_append_of_ne_nil _ hne]
        exact fun h ↦ absurd h hlead
      simpa [floatFormat] using Unsigned.fraction hwhole (by simp) hzero.digits .unscaled
    · next hpoint hlength =>
      have hwhole : Whole (ds.take point.toNat) := by
        refine ⟨fun c hc ↦ hds c (List.mem_of_mem_take hc), ?_, ?_⟩
        · simp only [ne_eq, List.take_eq_nil_iff, hne, or_false]
          omega
        · rw [List.head?_take, if_neg (by omega)]
          exact fun h ↦ absurd h hlead
      have hrest : ds.drop point.toNat ≠ [] := by
        rw [Ne, List.drop_eq_nil_iff]
        omega
      simpa using Unsigned.fraction hwhole hrest (fun c hc ↦ hds c (List.mem_of_mem_drop hc))
        .unscaled

theorem unsigned_writeScientific (hne : ds ≠ []) (hds : ∀ c ∈ ds, c.isDigit = true)
    (point : Int) : Unsigned (Decimal.Format.writeScientific ds point) := by
  have hsign : (if point - 1 < 0 then '-' else '+') = '-' ∨
      (if point - 1 < 0 then '-' else '+') = '+' := by
    split <;> simp
  have hscale := Scale.power hsign (Numeral.digits_ne_nil 10 (point - 1).natAbs)
    fun c ↦ Numeral.isDigit_of_mem_digits
  have hsingle {d : Char} (hd : d.isDigit = true) : Whole [d] := ⟨by simp [hd], by simp, by simp⟩
  match ds, hne with
  | [d], _ =>
    simpa [Decimal.Format.writeScientific] using Unsigned.whole (hsingle (hds d (by simp))) hscale
  | d :: e :: ds, _ =>
    simpa [Decimal.Format.writeScientific] using Unsigned.fraction (hsingle (hds d (by simp)))
      (List.cons_ne_nil e ds) (fun c hc ↦ hds c (List.mem_cons_of_mem d hc)) hscale

/-- A finite number is written as the text of a number, any other one as null. -/
theorem spelled_write (x : Float) :
    Spelled (floatFormat.write x) ∨ floatFormat.write x = "null".toList := by
  unfold Decimal.Format.write
  cases hparts : Decimal.Binary.ofFloat? x with
  | none =>
    right
    simp only
    split
    · split <;> rfl
    · rfl
  | some b =>
    left
    have hsize : Unsigned (if b.significand = 0 then '0' :: floatFormat.wholeEnd.toList
        else floatFormat.writePositive b) := by
      split
      · have hzero : Whole ['0'] := ⟨by simp, by simp, by simp⟩
        exact .fraction hzero hzero.ne_nil hzero.digits .unscaled
      · next hpos =>
        have hne := Decimal.shortest_ne_zero (Decimal.Binary.finite_of_ofFloat? hparts) hpos
          floatFormat.tie
        rw [Decimal.Format.writePositive]
        split
        · exact unsigned_writePlain (Numeral.digits_ne_nil _ _)
            (fun c ↦ Numeral.isDigit_of_mem_digits) (Numeral.head?_digits hne) _
        · exact unsigned_writeScientific (Numeral.digits_ne_nil _ _)
            (fun c ↦ Numeral.isDigit_of_mem_digits) _
    simp only
    split
    · exact .negative hsize
    · exact .positive hsize

/-- Digits that fit a word are collected in full. -/
theorem foldl_addWhole (hfits : Numeral.value 10 ds < 2 ^ 64) :
    ds.foldl Significand.addWhole .zero = ⟨Numeral.value 10 ds, 0, false⟩ := by
  -- from the right: a prefix fits when the whole number does
  induction ds using List.reverseRecOn with
  | nil => rfl
  | append_singleton ds c ih =>
    have hvalue := Numeral.value_append_singleton 10 ds c
    have hds : ds.foldl Significand.addWhole .zero = ⟨Numeral.value 10 ds, 0, false⟩ :=
      ih (by omega)
    rw [hvalue] at hfits
    have hroom :
        Significand.fits ⟨Numeral.value 10 ds, 0, false⟩ (Numeral.digitValue c) = true := by
      simpa [Significand.fits] using hfits
    rw [List.foldl_append, hds, hvalue, List.foldl_cons, List.foldl_nil, Significand.addWhole,
      if_pos hroom]

theorem unsigned?_digits (negative : Bool) (n : Nat) :
    unsigned? negative (Numeral.digits 10 n) =
      some (ofDigits negative (Numeral.digits 10 n) none, []) := by
  have hnil : ∀ c ∈ ([] : List Char).head?, c.isDigit = false ∧ c ≠ '.' := by rintro c ⟨⟩
  have h := unsigned?_whole negative (whole_digits n) hnil
  rwa [List.append_nil] at h

/-- Integers in the range of a word, signed or not, are read as themselves. -/
theorem numberOf_decimal {n : Int} (hlow : -2 ^ 63 ≤ n) (hhigh : n < 2 ^ 64) :
    numberOf (Numeral.decimal n) = .int n := by
  have hvalue (k : Nat) : Numeral.value 10 (Numeral.digits 10 k) = k :=
    Numeral.value_digits (by decide) (by decide) k
  cases n with
  | ofNat k =>
    obtain ⟨c, ds, heq, hc⟩ := (whole_digits k).head_isDigit
    have hread : number? (Numeral.digits 10 k) = unsigned? false (Numeral.digits 10 k) := by
      rw [heq, number?_of_isDigit hc]
    have hfits : k < 2 ^ 64 := by
      rw [Int.ofNat_eq_natCast] at hhigh
      omega
    rw [numberOf, Numeral.decimal, hread, unsigned?_digits, ofDigits,
      foldl_addWhole (by rwa [hvalue]), hvalue]
    rfl
  | negSucc k =>
    rw [numberOf, Numeral.decimal, number?, unsigned?_digits, ofDigits,
      foldl_addWhole (by rw [hvalue]; omega), hvalue]
    have hsmall : ¬(k + 1 = 0 ∨ 0x8000000000000000 < k + 1) := by omega
    simp only [Option.map_some, Option.getD_some, ofWhole, Bool.false_eq_true, Bool.not_true,
      if_false, if_neg hsmall, Int.negSucc_eq, Int.natCast_succ]

end Stencil.Json
