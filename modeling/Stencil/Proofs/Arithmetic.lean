import Stencil.Proofs.FloatingPoint
import Stencil.Proofs.NumberLiterals
import Stencil.Value.Operation

/-!
# Arithmetic is exact or widens

The arithmetic of conditions takes its operands from every kind of value that can be read as a
number. Sums, differences, products and quotients of integers never wrap: the result is the exact
one if that is a word, else the operation is done in floating point. What is null is so because an
operand is no number, or because it is divided by zero.

The remainder of integers does not widen. It is the truncated one for every divisor but zero, with
one exception: the least word has no remainder by minus one, though zero remains, since it is looked
for beside a quotient that is no word.

## Main definitions

* `Value.Spells`, `Value.Unnumbered`: the values that are read as an integer, and as no number.
* `Number.IsZero`: the numbers that nothing is divided by.
* `BinaryOp.Widens`, `BinaryOp.exact?`: the operators on rational numbers, and their results.
* `Value.ExactOrWide`: an exact result as a word, or a floating-point number where none is exact.
* `IsRemainder`: the remainder of a truncated division.

## Main results

* `Value.number?_eq_int_iff`, `Value.number?_eq_none_iff`: the numbers that values are read as.
* `Value.binary_arithmetic`: when arithmetic gives null, and what it gives for integers.
* `Value.binary_mod_of_spells`: when there is a remainder, and which one it is.
-/

namespace Stencil

/-- The operators whose results widen where no word is exact. -/
inductive BinaryOp.Widens : BinaryOp → Prop
  | add : Widens .add
  | sub : Widens .sub
  | mul : Widens .mul
  | div : Widens .div

/-- The exact result of an operator on rational numbers, if it has one. -/
def BinaryOp.exact? : BinaryOp → ℚ → ℚ → Option ℚ
  | .add, p, q => some (p + q)
  | .sub, p, q => some (p - q)
  | .mul, p, q => some (p * q)
  | .div, p, q => if q = 0 then none else some (p / q)
  | _, _, _ => none

/-! ### Operands -/

/-- The numbers that nothing is divided by: zero, and both zeros of floating point. -/
def Number.IsZero : Number → Prop
  | .int n => n = 0
  | .float x => x == 0

theorem toInt_eq_zero_iff {n : Int64} : n.toInt = 0 ↔ n = 0 := by
  rw [← Int64.toInt_zero, Int64.toInt_inj]

theorem Number.toFloat_beq_zero (y : Number) : y.toFloat == 0 ↔ y.IsZero := by
  cases y with
  | int n =>
    rw [toFloat, FloatingPoint.ofInt_beq_zero, decide_eq_true_iff, toInt_eq_zero_iff]
    rfl
  | float x => rfl

namespace Value

/-- The values that are read as an integer: integers, truth values, the null value, and the texts
that spell an integer between blanks. -/
inductive Spells : Value → Int64 → Prop
  | null : Spells null 0
  | no : Spells (bool false) 0
  | yes : Spells (bool true) 1
  | int (n : Int64) : Spells (int n) n
  | text {s : String} {n : Int64} (h : Numeral.integer? (Text.trim s.toList) = some n) :
      Spells (text s) n

/-- The values that are read as no number: those that hold other values, and texts that spell
none. -/
inductive Unnumbered : Value → Prop
  | list (items : List Value) : Unnumbered (list items)
  | map (entries : List (String × Value)) : Unnumbered (map entries)
  | text {s : String} (h : Number.ofText? s = none) : Unnumbered (text s)

variable {a b v : Value} {m n k : Int64} {op : BinaryOp}

theorem number?_eq_none_iff : v.number? = none ↔ v.Unnumbered := by
  constructor
  · intro h
    cases v with
    | list items => exact .list items
    | map entries => exact .map entries
    | text s => exact .text h
    | _ => nomatch h
  · rintro (_ | _ | h)
    · rfl
    · rfl
    · exact h

/-- The values whose number is an integer are those that spell it. -/
theorem number?_eq_int_iff : v.number? = some (.int n) ↔ v.Spells n := by
  constructor
  · intro h
    cases v with
    | null =>
      obtain rfl := Number.int.inj (Option.some.inj h)
      exact .null
    | bool b =>
      obtain rfl := Number.int.inj (Option.some.inj h)
      cases b with
      | false => exact .no
      | true => exact .yes
    | int m =>
      obtain rfl := Number.int.inj (Option.some.inj h)
      exact .int m
    | text s =>
      rw [number?, Number.ofText?] at h
      split at h
      · rename_i hword
        obtain rfl := Number.int.inj (Option.some.inj h)
        exact .text hword
      split at h
      · obtain ⟨x, -, hfloat⟩ := Option.map_eq_some_iff.mp h
        nomatch hfloat
      · nomatch h
    | float | list | map => nomatch h
  · intro h
    cases h with
    | text h =>
      rw [number?, Number.ofText?]
      simp only [h]
    | _ => rfl

theorem onNumbers_of_spells (op : BinaryOp) (ha : a.Spells m) (hb : b.Spells n) :
    onNumbers op a b = intArithmetic op m n := by
  rw [onNumbers, number?_eq_int_iff.mpr ha, number?_eq_int_iff.mpr hb]
  rfl

/-! ### The null value as a result -/

theorem floatArithmetic_eq_null_iff (hop : op.Widens) (x y : Float) :
    floatArithmetic op x y = null ↔ op = .div ∧ y == 0 := by
  cases hop
  · simp [floatArithmetic]
  · simp [floatArithmetic]
  · simp [floatArithmetic]
  · by_cases h : y == 0 <;> simp [floatArithmetic, h]

theorem exactOr_ne_null {r : Option Int64}
    (h : floatArithmetic op (Number.int m).toFloat (Number.int n).toFloat ≠ null) :
    exactOr op m n r ≠ null := by
  cases r with
  | none => exact h
  | some k => exact nofun

/-- Among integers, only a division by zero gives null. -/
theorem intArithmetic_eq_null_iff (hop : op.Widens) :
    intArithmetic op m n = null ↔ op = .div ∧ n = 0 := by
  have hfloat := floatArithmetic_eq_null_iff hop (Number.int m).toFloat (Number.int n).toFloat
  rw [Number.toFloat_beq_zero, Number.IsZero] at hfloat
  cases hop
  · exact iff_of_false (exactOr_ne_null (mt hfloat.mp (by simp))) (by simp)
  · exact iff_of_false (exactOr_ne_null (mt hfloat.mp (by simp))) (by simp)
  · exact iff_of_false (exactOr_ne_null (mt hfloat.mp (by simp))) (by simp)
  · by_cases hn : n = 0
    · simp [intArithmetic, hn]
    · rw [intArithmetic, if_neg hn]
      exact iff_of_false (exactOr_ne_null (mt hfloat.mp (by simp [hn]))) (by simp [hn])

theorem arithmetic_eq_null_iff (hop : op.Widens) (x y : Number) :
    arithmetic op x y = null ↔ op = .div ∧ y.IsZero := by
  have hfloat := floatArithmetic_eq_null_iff hop x.toFloat y.toFloat
  rw [Number.toFloat_beq_zero] at hfloat
  cases x with
  | int m =>
    cases y with
    | int n => exact intArithmetic_eq_null_iff hop
    | float y => exact hfloat
  | float x => exact hfloat

/-- Arithmetic gives null for operands that are no numbers and for a division by zero. -/
theorem onNumbers_eq_null_iff (hop : op.Widens) :
    onNumbers op a b = null ↔
      a.Unnumbered ∨ b.Unnumbered ∨ op = .div ∧ ∃ y, b.number? = some y ∧ y.IsZero := by
  rw [onNumbers, ← number?_eq_none_iff, ← number?_eq_none_iff]
  cases a.number? with
  | none => simp
  | some x =>
    cases b.number? with
    | none => simp
    | some y => simp [arithmetic_eq_null_iff hop]

/-! ### Exact results -/

/-- An exact result as a word, or a floating-point number where no word is exact. -/
inductive ExactOrWide (q : ℚ) (x : Float) : Value → Prop
  | exact {k : Int64} (h : (k.toInt : ℚ) = q) : ExactOrWide q x (int k)
  | wide (h : ∀ k : Int64, (k.toInt : ℚ) ≠ q) : ExactOrWide q x (float x)

/-- What is looked for among the words decides whether a result is exact. -/
theorem exactOrWide_exactOr {r : Option Int64} {q : ℚ} {x : Float}
    (hr : ∀ k, r = some k ↔ (k.toInt : ℚ) = q)
    (hx : floatArithmetic op (Number.int m).toFloat (Number.int n).toFloat = float x) :
    ExactOrWide q x (exactOr op m n r) := by
  cases r with
  | none =>
    rw [exactOr, hx]
    exact .wide fun k hk ↦ nomatch (hr k).mpr hk
  | some k => exact .exact ((hr k).mp rfl)

theorem word?_eq_some_iff_cast {i : Int} (k : Int64) :
    Numeral.word? i = some k ↔ (k.toInt : ℚ) = i := by
  rw [Numeral.word?_eq_some_iff, Int.cast_inj]

theorem exactQuotient?_eq_some_iff (hn : n ≠ 0) :
    exactQuotient? m n = some k ↔ k.toInt * n.toInt = m.toInt := by
  rw [exactQuotient?]
  constructor
  · intro h
    split at h
    · rename_i hrem
      rw [Numeral.word?_eq_some_iff.mp h]
      exact Int.tdiv_mul_cancel (Int.dvd_of_tmod_eq_zero hrem)
    · nomatch h
  · intro h
    rw [← h, if_pos (Int.mul_tmod_left _ _), Int.mul_tdiv_cancel _ (mt toInt_eq_zero_iff.mp hn)]
    exact Numeral.word?_toInt k

/-- Integers have an exact result unless they are divided by zero, and it is kept if it is a word. -/
theorem intArithmetic_exactOrWide (hop : op.Widens) (h : intArithmetic op m n ≠ null) :
    ∃ q x, op.exact? m.toInt n.toInt = some q ∧
      floatArithmetic op (Number.int m).toFloat (Number.int n).toFloat = float x ∧
      ExactOrWide q x (intArithmetic op m n) := by
  rw [Ne, intArithmetic_eq_null_iff hop] at h
  cases hop with
  | add =>
    refine ⟨m.toInt + n.toInt, _, rfl, rfl, exactOrWide_exactOr (fun k ↦ ?_) rfl⟩
    rw [word?_eq_some_iff_cast, Int.cast_add]
  | sub =>
    refine ⟨m.toInt - n.toInt, _, rfl, rfl, exactOrWide_exactOr (fun k ↦ ?_) rfl⟩
    rw [word?_eq_some_iff_cast, Int.cast_sub]
  | mul =>
    refine ⟨m.toInt * n.toInt, _, rfl, rfl, exactOrWide_exactOr (fun k ↦ ?_) rfl⟩
    rw [word?_eq_some_iff_cast, Int.cast_mul]
  | div =>
    have hn : n ≠ 0 := fun hn ↦ h ⟨rfl, hn⟩
    have hcast : (n.toInt : ℚ) ≠ 0 := Int.cast_ne_zero.mpr (mt toInt_eq_zero_iff.mp hn)
    have hwide : floatArithmetic .div (Number.int m).toFloat (Number.int n).toFloat =
        float ((Number.int m).toFloat / (Number.int n).toFloat) :=
      if_neg (mt (Number.toFloat_beq_zero (.int n)).mp hn)
    refine ⟨m.toInt / n.toInt, _, if_neg hcast, hwide, ?_⟩
    rw [intArithmetic, if_neg hn]
    refine exactOrWide_exactOr (fun k ↦ ?_) hwide
    rw [exactQuotient?_eq_some_iff hn, eq_div_iff hcast, ← Int.cast_mul, Int.cast_inj]

/-- Sums, differences, products and quotients are null when an operand is no number or divides by
zero. For integers they are the exact result if it is a word, and else what the operation on the
nearest floating-point numbers gives. -/
theorem binary_arithmetic (hop : op.Widens) (a b : Value) :
    (binary op a b = null ↔
      a.Unnumbered ∨ b.Unnumbered ∨ op = .div ∧ ∃ y, b.number? = some y ∧ y.IsZero) ∧
    ∀ m n, a.Spells m → b.Spells n → binary op a b ≠ null →
      ∃ q x, op.exact? m.toInt n.toInt = some q ∧
        floatArithmetic op (Number.int m).toFloat (Number.int n).toFloat = float x ∧
        ExactOrWide q x (binary op a b) := by
  have hbinary : binary op a b = onNumbers op a b := by
    cases hop <;> rfl
  rw [hbinary]
  refine ⟨onNumbers_eq_null_iff hop, fun m n ha hb ↦ ?_⟩
  rw [onNumbers_of_spells op ha hb]
  exact intArithmetic_exactOrWide hop

/-- The least word divided by minus one, which a text spells: the quotient is exact, and no word. -/
theorem binary_arithmetic_least :
    BinaryOp.Widens .div ∧ (int Int64.minValue).Spells Int64.minValue ∧
      (text " -1 ").Spells (-1) ∧
      binary .div (int Int64.minValue) (text " -1 ") ≠ null ∧
      (∃ q x, BinaryOp.exact? .div Int64.minValue.toInt (-1 : Int64).toInt = some q ∧
        floatArithmetic .div (Number.int Int64.minValue).toFloat (Number.int (-1)).toFloat =
          float x ∧
        ExactOrWide q x (binary .div (int Int64.minValue) (text " -1 "))) ∧
      binary .div (int Int64.minValue) (text " -1 ") = float 9223372036854775808 := by
  have ha : (int Int64.minValue).Spells Int64.minValue := .int _
  have hb : (text " -1 ").Spells (-1) := .text (by decide)
  have hquotient : (Number.int Int64.minValue).toFloat / (Number.int (-1)).toFloat =
      9223372036854775808 := by
    decide +kernel
  have hwide : binary .div (int Int64.minValue) (text " -1 ") =
      floatArithmetic .div (Number.int Int64.minValue).toFloat (Number.int (-1)).toFloat :=
    onNumbers_of_spells .div ha hb
  have hfloat : binary .div (int Int64.minValue) (text " -1 ") = float 9223372036854775808 := by
    rw [hwide, floatArithmetic, hquotient]
    exact if_neg (by decide +kernel)
  have hne : binary .div (int Int64.minValue) (text " -1 ") ≠ null := by
    rw [hfloat]
    nofun
  exact ⟨.div, ha, hb, hne, (binary_arithmetic .div _ _).2 _ _ ha hb hne, hfloat⟩

end Value

/-! ### Remainders -/

/-- The remainder of a truncated division: smaller than the divisor, with the sign of the
dividend. -/
structure IsRemainder (m n r : Int) : Prop where
  exists_quotient : ∃ q, m = n * q + r
  abs_lt : |r| < |n|
  sign : r = 0 ∨ r.sign = m.sign

theorem natAbs_tmod_lt (m : Int) {n : Int} (hn : n ≠ 0) : (m.tmod n).natAbs < n.natAbs := by
  rw [Int.natAbs_tmod]
  exact Nat.mod_lt _ (Int.natAbs_pos.mpr hn)

theorem isRemainder_tmod (m : Int) {n : Int} (hn : n ≠ 0) : IsRemainder m n (m.tmod n) where
  exists_quotient := ⟨m.tdiv n, (Int.mul_tdiv_add_tmod m n).symm⟩
  abs_lt := by
    rw [Int.abs_eq_natAbs, Int.abs_eq_natAbs, Int.ofNat_lt]
    exact natAbs_tmod_lt m hn
  sign := by
    by_cases hdvd : n ∣ m
    · exact .inl (Int.tmod_eq_zero_of_dvd hdvd)
    · exact .inr (by rw [Int.sign_tmod, if_neg hdvd])

namespace Value

open Numeral (FitsWord fitsWord_iff)

variable {a b : Value} {m n k : Int64}

/-- Of all quotients of words, only that of the least one by minus one is no word. -/
theorem fitsWord_tdiv_iff (hn : n ≠ 0) :
    FitsWord (m.toInt.tdiv n.toInt) ↔ ¬ (m = Int64.minValue ∧ n = -1) := by
  have hlow := m.le_toInt
  have hhigh := m.toInt_lt
  have hzero := mt toInt_eq_zero_iff.mp hn
  have hquotient := Int.natAbs_tdiv m.toInt n.toInt
  rw [fitsWord_iff, ← Int64.toInt_inj, ← Int64.toInt_inj (x := n), Numeral.toInt_minValue,
    show (-1 : Int64).toInt = -1 from rfl]
  by_cases hone : n.toInt.natAbs = 1
  · rcases Int.natAbs_eq_iff.mp hone with h | h
    · rw [h, Nat.cast_one, Int.tdiv_one]
      omega
    · rw [h, Nat.cast_one, Int.tdiv_neg, Int.tdiv_one]
      omega
  · -- any other divisor leaves at most half of the dividend, which is far from the limits
    have hhalf : m.toInt.natAbs.div n.toInt.natAbs ≤ m.toInt.natAbs / 2 :=
      Nat.div_le_div_left (by omega) (by decide)
    omega

theorem remainder?_eq_none_iff :
    remainder? m n = none ↔ n = 0 ∨ m = Int64.minValue ∧ n = -1 := by
  have hnone : remainder? m n = none ↔
      n = 0 ∨ (Numeral.word? (m.toInt.tdiv n.toInt)).isNone := by
    rw [remainder?, ite_eq_left_iff]
    simp [or_iff_not_imp_left]
  rw [hnone, Option.isNone_iff_eq_none, Numeral.word?_eq_none_iff]
  by_cases hn : n = 0
  · simp [hn]
  · rw [fitsWord_tdiv_iff hn, not_not]

/-- A remainder that is given is the truncated one. -/
theorem remainder?_eq_some_iff :
    remainder? m n = some k ↔ remainder? m n ≠ none ∧ k.toInt = m.toInt.tmod n.toInt := by
  by_cases hnone : remainder? m n = none
  · simp [hnone]
  have hn : n ≠ 0 := fun hn ↦ hnone (remainder?_eq_none_iff.mpr (.inl hn))
  have hlow := n.le_toInt
  have hhigh := n.toInt_lt
  have hlt := natAbs_tmod_lt m.toInt (mt toInt_eq_zero_iff.mp hn)
  have hsome : remainder? m n = some (Int64.ofInt (m.toInt.tmod n.toInt)) := by
    unfold remainder? at hnone ⊢
    split
    · rename_i h
      exact absurd (if_pos h) hnone
    · rfl
  rw [hsome, Option.some_inj, ← Int64.toInt_inj, Int64.toInt_ofInt_of_le (by omega) (by omega)]
  simp [eq_comm]

/-- The quotient of two words is exact if the remainder is there and zero. -/
theorem exists_exactQuotient?_iff (hn : n ≠ 0) :
    (∃ k, exactQuotient? m n = some k) ↔ remainder? m n = some 0 := by
  rw [remainder?_eq_some_iff, Ne, remainder?_eq_none_iff, or_iff_right hn, ← fitsWord_tdiv_iff hn,
    Int64.toInt_zero]
  simp only [exactQuotient?_eq_some_iff hn]
  constructor
  · rintro ⟨k, hk⟩
    rw [← hk, Int.mul_tmod_left, Int.mul_tdiv_cancel _ (mt toInt_eq_zero_iff.mp hn)]
    exact ⟨Numeral.fitsWord_toInt k, rfl⟩
  · rintro ⟨hfits, hrem⟩
    obtain ⟨k, -, hk⟩ := Numeral.word?_of_fitsWord hfits
    refine ⟨k, ?_⟩
    rw [hk]
    exact Int.tdiv_mul_cancel (Int.dvd_of_tmod_eq_zero hrem.symm)

theorem intArithmetic_mod_eq_null_iff : intArithmetic .mod m n = null ↔ remainder? m n = none := by
  cases h : remainder? m n <;> simp [intArithmetic, h]

theorem intArithmetic_mod_eq_int_iff :
    intArithmetic .mod m n = int k ↔ remainder? m n = some k := by
  cases h : remainder? m n <;> simp [intArithmetic, h]

/-- A quotient is an integer if the remainder is there and zero. -/
theorem intArithmetic_div_eq_int_iff :
    (∃ k, intArithmetic .div m n = int k) ↔ intArithmetic .mod m n = int 0 := by
  rw [intArithmetic_mod_eq_int_iff]
  by_cases hn : n = 0
  · simp [intArithmetic, remainder?, hn]
  · have hquotient : (∃ k, exactQuotient? m n = some k) ↔ ∃ k, intArithmetic .div m n = int k := by
      rw [intArithmetic, if_neg hn]
      cases exactQuotient? m n with
      | none =>
        rw [exactOr, floatArithmetic]
        split <;> simp
      | some k => simp [exactOr]
    rw [← hquotient, exists_exactQuotient?_iff hn]

/-- Words have no remainder by zero, and the least one has none by minus one. All others have the
truncated one, which is zero just if the quotient is an integer. -/
theorem binary_mod_of_spells (ha : a.Spells m) (hb : b.Spells n) :
    (binary .mod a b = null ↔ n = 0 ∨ m = Int64.minValue ∧ n = -1) ∧
    (binary .mod a b ≠ null →
      ∃ r : Int64, binary .mod a b = int r ∧ IsRemainder m.toInt n.toInt r.toInt) ∧
    ((∃ k, binary .div a b = int k) ↔ binary .mod a b = int 0) := by
  have hmod : binary .mod a b = intArithmetic .mod m n := onNumbers_of_spells .mod ha hb
  have hdiv : binary .div a b = intArithmetic .div m n := onNumbers_of_spells .div ha hb
  rw [hmod, hdiv, Ne, intArithmetic_mod_eq_null_iff]
  refine ⟨remainder?_eq_none_iff, fun h ↦ ?_, intArithmetic_div_eq_int_iff⟩
  obtain ⟨r, hr⟩ := Option.ne_none_iff_exists'.mp h
  refine ⟨r, intArithmetic_mod_eq_int_iff.mpr hr, ?_⟩
  have hn : n ≠ 0 := fun hn ↦ h (remainder?_eq_none_iff.mpr (.inl hn))
  rw [(remainder?_eq_some_iff.mp hr).2]
  exact isRemainder_tmod m.toInt (mt toInt_eq_zero_iff.mp hn)

/-- A negative dividend has a negative remainder. -/
theorem binary_mod_of_spells_negative :
    (text " -7").Spells (-7) ∧ (int 2).Spells 2 ∧
      (binary .mod (text " -7") (int 2) = null ↔
        (2 : Int64) = 0 ∨ (-7 : Int64) = Int64.minValue ∧ (2 : Int64) = -1) ∧
      (binary .mod (text " -7") (int 2) ≠ null →
        ∃ r : Int64, binary .mod (text " -7") (int 2) = int r ∧
          IsRemainder (-7 : Int64).toInt (2 : Int64).toInt r.toInt) ∧
      ((∃ k, binary .div (text " -7") (int 2) = int k) ↔
        binary .mod (text " -7") (int 2) = int 0) ∧
      binary .mod (text " -7") (int 2) = int (-1) := by
  have ha : (text " -7").Spells (-7) := .text (by decide)
  have hb : (int 2).Spells 2 := .int 2
  obtain ⟨hnull, hrem, hdiv⟩ := binary_mod_of_spells ha hb
  exact ⟨ha, hb, hnull, hrem, hdiv, onNumbers_of_spells .mod ha hb⟩

/-- The least word has no remainder by minus one, though the divisor is not zero and zero is what
remains. -/
theorem binary_mod_least :
    (int Int64.minValue).Spells Int64.minValue ∧ (int (-1)).Spells (-1) ∧
      ¬ (binary .mod (int Int64.minValue) (int (-1)) = null ↔ (-1 : Int64) = 0) ∧
      IsRemainder Int64.minValue.toInt (-1 : Int64).toInt (0 : Int64).toInt := by
  have hnull : binary .mod (int Int64.minValue) (int (-1)) = null := rfl
  have hne : (-1 : Int64) ≠ 0 := by decide
  exact ⟨.int _, .int _, fun h ↦ hne (h.mp hnull),
    isRemainder_tmod Int64.minValue.toInt (mt toInt_eq_zero_iff.mp hne)⟩

end Value

end Stencil
