import Mathlib.Data.List.Basic
import Mathlib.Data.Nat.Init
import Stencil.Numeral
import Stencil.Text.Blank

/-!
# Numerals stand for what they were made from

The digits of a number have its value, and every reader of integers gives back the number whose
decimal text it is shown.

## Main results

* `Numeral.value_digits`: digits stand for the number that they are the digits of.
* `Numeral.head?_digits`: no number but zero has a leading zero.
* `Numeral.natural?_digits`, `Numeral.integer?_decimal`: the readers undo the writers.
* `Text.trim_of_forall`: a text without blanks has none to lose at its ends.
-/

namespace Stencil.Numeral

variable {base n : Nat} {c : Char} {cs : List Char}

theorem digits_of_lt (h : n < base) : digits base n = [Nat.digitChar n] := by
  rw [digits, dif_neg (by omega)]

theorem digits_of_le (hbase : 2 ≤ base) (h : base ≤ n) :
    digits base n = digits base (n / base) ++ [Nat.digitChar (n % base)] := by
  rw [digits, dif_pos ⟨hbase, h⟩]

theorem digitValue_digitChar : ∀ d < 16, digitValue (Nat.digitChar d) = d := by
  decide

theorem isDigit_digitChar : ∀ d < 10, (Nat.digitChar d).isDigit = true := by
  decide

theorem digitChar_ne_zero : ∀ d < 16, d ≠ 0 → Nat.digitChar d ≠ '0' := by
  decide

theorem value_append_singleton (base : Nat) (cs : List Char) (c : Char) :
    value base (cs ++ [c]) = value base cs * base + digitValue c := by
  rw [value, List.foldl_append]
  rfl

/-- Digits stand for the number that they are the digits of. -/
theorem value_digits (hbase : 2 ≤ base) (hle : base ≤ 16) (n : Nat) :
    value base (digits base n) = n := by
  induction n using Nat.strong_induction_on with
  | _ n ih =>
    rcases Nat.lt_or_ge n base with hlt | hge
    · rw [digits_of_lt hlt, ← List.nil_append [_], value_append_singleton,
        digitValue_digitChar n (by omega)]
      simp [value]
    · rw [digits_of_le hbase hge, value_append_singleton,
        ih (n / base) (Nat.div_lt_self (by omega) (by omega)),
        digitValue_digitChar _ (Nat.lt_of_lt_of_le (Nat.mod_lt n (by omega)) hle)]
      exact Nat.div_add_mod' n base

theorem digits_ne_nil (base n : Nat) : digits base n ≠ [] := by
  rw [digits]
  split <;> simp

theorem isDigit_of_mem_digits (h : c ∈ digits 10 n) : c.isDigit = true := by
  induction n using Nat.strong_induction_on with
  | _ n ih =>
    rcases Nat.lt_or_ge n 10 with hlt | hge
    · rw [digits_of_lt hlt, List.mem_singleton] at h
      exact h ▸ isDigit_digitChar n hlt
    · rw [digits_of_le (by omega) hge, List.mem_append, List.mem_singleton] at h
      rcases h with h | rfl
      · exact ih _ (by omega) h
      · exact isDigit_digitChar _ (by omega)

/-- No number but zero has a leading zero. -/
theorem head?_digits (hn : n ≠ 0) : (digits 10 n).head? ≠ some '0' := by
  induction n using Nat.strong_induction_on with
  | _ n ih =>
    rcases Nat.lt_or_ge n 10 with hlt | hge
    · rw [digits_of_lt hlt, List.head?_cons]
      exact fun h ↦ digitChar_ne_zero n (by omega) hn (Option.some.inj h)
    · rw [digits_of_le (by omega) hge, List.head?_append_of_ne_nil _ (digits_ne_nil _ _)]
      exact ih _ (by omega) (by omega)

theorem natural?_of_forall {p : Char → Bool} (hne : cs ≠ []) (h : ∀ c ∈ cs, p c = true) :
    natural? p base cs = some (value base cs) := by
  rw [natural?, if_pos ⟨hne, List.all_eq_true.mpr h⟩]

theorem natural?_digits (n : Nat) : natural? Char.isDigit 10 (digits 10 n) = some n := by
  rw [natural?_of_forall (digits_ne_nil 10 n) fun c ↦ isDigit_of_mem_digits,
    value_digits (by omega) (by omega)]

theorem word?_toInt (n : Int64) : word? n.toInt = some n := by
  have hlow := n.le_toInt
  have hhigh := n.toInt_lt
  rw [word?, if_pos ⟨by omega, by omega⟩, Int64.ofInt_toInt]

/-- An integer is kept as the word that stands for it, if there is one. -/
theorem word?_eq_some_iff {n : Int} {m : Int64} : word? n = some m ↔ m.toInt = n := by
  constructor
  · intro h
    unfold word? at h
    split at h
    · rename_i hrange
      rw [← Option.some.inj h]
      exact Int64.toInt_ofInt_of_le hrange.1 hrange.2
    · cases h
  · rintro rfl
    exact word?_toInt m

/-- Digits have no sign in front of them. -/
theorem signed?_of_forall {p : Char → Bool} (hsign : p '-' = false ∧ p '+' = false) (hne : cs ≠ [])
    (h : ∀ c ∈ cs, p c = true) : signed? p base cs = word? (value base cs) := by
  have hnat : natural? p base cs = some (value base cs) := natural?_of_forall hne h
  unfold signed?
  split
  · rw [h '-' List.mem_cons_self] at hsign
    exact absurd hsign.1 (by decide)
  · rw [h '+' List.mem_cons_self] at hsign
    exact absurd hsign.2 (by decide)
  · rw [hnat, Option.bind_eq_bind, Option.bind_some]

theorem signed?_digits (n : Nat) : signed? Char.isDigit 10 (digits 10 n) = word? n := by
  rw [signed?_of_forall (by decide) (digits_ne_nil 10 n) fun c ↦ isDigit_of_mem_digits,
    value_digits (by omega) (by omega)]

/-- The decimal text of a word reads as the word. -/
theorem integer?_decimal (n : Int64) : integer? (decimal n.toInt) = some n := by
  have hword := word?_toInt n
  cases hn : n.toInt with
  | ofNat k =>
    rw [integer?, decimal, signed?_digits, ← hword, hn, Int.ofNat_eq_natCast]
  | negSucc k =>
    rw [integer?, decimal, signed?, natural?_digits, ← hword, hn, Int.negSucc_eq,
      Option.bind_eq_bind, Option.bind_some, Int.natCast_succ]

theorem decimal_ne_nil (n : Int) : decimal n ≠ [] := by
  cases n with
  | ofNat k => exact digits_ne_nil 10 k
  | negSucc k => exact List.cons_ne_nil _ _

/-- A decimal text has no blanks. -/
theorem isBlank_of_mem_decimal {n : Int} (h : c ∈ decimal n) : Text.isBlank c = false := by
  have hdigit {k : Nat} (hc : c ∈ digits 10 k) : Text.isBlank c = false := by
    have hrange := isDigit_of_mem_digits hc
    simp only [Char.isDigit, Bool.and_eq_true, decide_eq_true_eq, UInt32.le_iff_toNat_le] at hrange
    have hlow : 48 ≤ c.toNat := hrange.1
    have hhigh : c.toNat ≤ 57 := hrange.2
    simp only [Text.isBlank, Bool.or_eq_false_iff, Bool.and_eq_false_iff, decide_eq_false_iff_not,
      beq_eq_false_iff_ne]
    omega
  cases n with
  | ofNat k => exact hdigit h
  | negSucc k =>
    rcases List.mem_cons.mp h with rfl | h
    · decide
    · exact hdigit h

/-- Only zero is written as a lone zero. -/
theorem decimal_eq_zero_iff {n : Int} : decimal n = ['0'] ↔ n = 0 := by
  constructor
  · intro h
    cases n with
    | ofNat k =>
      by_contra hne
      have hk : k ≠ 0 := by
        rintro rfl
        exact hne rfl
      exact head?_digits hk (by rw [show digits 10 k = ['0'] from h, List.head?_cons])
    | negSucc k =>
      rw [decimal] at h
      exact absurd (List.cons.inj h).1 (by decide)
  · rintro rfl
    exact digits_of_lt (n := 0) (by decide)

end Stencil.Numeral

namespace Stencil.Text

variable {cs : List Char}

theorem trimStart_of_forall (h : ∀ c ∈ cs, isBlank c = false) : trimStart cs = cs := by
  cases cs with
  | nil => rfl
  | cons c cs => rw [trimStart, List.dropWhile_cons, if_neg (by simp [h c (by simp)])]

/-- A text without blanks has none to lose at its ends. -/
theorem trim_of_forall (h : ∀ c ∈ cs, isBlank c = false) : trim cs = cs := by
  rw [trim, trimStart_of_forall h,
    trimStart_of_forall fun c hc ↦ h c (List.mem_reverse.mp hc), List.reverse_reverse]

end Stencil.Text
