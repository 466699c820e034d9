import Mathlib
import Stencil.Decimal.Shortest

/-!
# A shortest decimal is always found

The search for the shortest decimal of a number goes through two dozen grids of powers of ten. The
last of them is finer than the reals that round to the number are wide, so that one of its points
is among them.

## Main definitions

* `Decimal.Binary.Finite`: the parts that a finite number may have.

## Main results

* `Decimal.Interval.OnGrid.nearest?_ne_none`: a fine grid has a point in the interval.
* `Decimal.shortest_ne_zero`: the shortest decimal of a positive number is not zero.
-/

namespace Stencil.Decimal

theorem ten_pow_le (n : Nat) : 10 ^ n ≤ 2 ^ (10 * (n / 3) + 4 * (n % 3)) := by
  calc 10 ^ n = (10 ^ 3) ^ (n / 3) * 10 ^ (n % 3) := by
        rw [← Nat.pow_mul, ← Nat.pow_add, Nat.div_add_mod]
    _ ≤ (2 ^ 10) ^ (n / 3) * (2 ^ 4) ^ (n % 3) :=
        Nat.mul_le_mul (Nat.pow_le_pow_left (by decide) _) (Nat.pow_le_pow_left (by decide) _)
    _ = 2 ^ (10 * (n / 3) + 4 * (n % 3)) := by rw [← Nat.pow_mul, ← Nat.pow_mul, ← Nat.pow_add]

theorem two_pow_le (n : Nat) : 2 ^ (33 * (n / 10) + 3 * (n % 10)) ≤ 10 ^ n := by
  calc 2 ^ (33 * (n / 10) + 3 * (n % 10)) = (2 ^ 33) ^ (n / 10) * (2 ^ 3) ^ (n % 10) := by
        rw [← Nat.pow_mul, ← Nat.pow_mul, ← Nat.pow_add]
    _ ≤ (10 ^ 10) ^ (n / 10) * 10 ^ (n % 10) :=
        Nat.mul_le_mul (Nat.pow_le_pow_left (by decide) _) (Nat.pow_le_pow_left (by decide) _)
    _ = 10 ^ n := by rw [← Nat.pow_mul, ← Nat.pow_add, Nat.div_add_mod]

namespace Interval

/-- A point next to the middle lies in the interval when the grid is finer than the way up. -/
theorem OnGrid.nearest?_ne_none {g : OnGrid} (hscale : 0 < g.scale)
    (hfine : g.middle + g.scale < g.high) (hlow : g.low ≤ g.middle) (tie : Tie) :
    g.nearest? tie ≠ none := by
  have hup : g.contains (g.middle / g.scale + 1) = true := by
    have hlt := Nat.lt_div_mul_add hscale (a := g.middle)
    have hle := Nat.div_mul_le_self g.middle g.scale
    rw [contains, Nat.add_mul, Nat.one_mul]
    split <;> simp only [Bool.and_eq_true, decide_eq_true_eq] <;> omega
  unfold nearest?
  simp only [hup]
  cases g.middle / g.scale != 0 && g.contains (g.middle / g.scale) with
  | false => exact Option.some_ne_none _
  | true =>
    simp only
    split
    · exact Option.some_ne_none _
    · split
      · exact Option.some_ne_none _
      · cases tie <;> exact Option.some_ne_none _

/-- Zero is never taken for a positive number. -/
theorem OnGrid.ne_zero_of_nearest? {g : OnGrid} {tie : Tie} {d : Nat}
    (h : g.nearest? tie = some d) : d ≠ 0 := by
  unfold nearest? at h
  cases hdown : g.middle / g.scale != 0 && g.contains (g.middle / g.scale) with
  | false => cases hup : g.contains (g.middle / g.scale + 1) <;> grind
  | true =>
    have hne : g.middle / g.scale ≠ 0 := bne_iff_ne.mp (Bool.and_eq_true_iff.mp hdown).1
    cases hup : g.contains (g.middle / g.scale + 1) <;> cases tie <;> grind

end Interval

theorem firstOnGrid_ne_zero {tie : Tie} {i : Interval} {n : Nat} {k : Int} (m : Nat) (hm : m < n)
    (h : (i.onGrid (k - m)).nearest? tie ≠ none) : (firstOnGrid tie i n k).digits ≠ 0 := by
  induction n generalizing k m with
  | zero => omega
  | succ n ih =>
    rw [firstOnGrid]
    cases hfound : (i.onGrid k).nearest? tie with
    | some d => exact Interval.OnGrid.ne_zero_of_nearest? hfound
    | none =>
      cases m with
      | zero => exact absurd hfound (by simpa using h)
      | succ m =>
        have hstep : k - 1 - (m : Int) = k - (m + 1 : Nat) := by omega
        exact ih m (by omega) (by rwa [hstep])

/-- Parts as a finite number has them. -/
structure Binary.Finite (b : Binary) : Prop where
  significand_lt : b.significand < 2 ^ 53
  exponent_ge : -1074 ≤ b.exponent
  exponent_le : b.exponent ≤ 971

theorem Binary.finite_of_ofFloat? {x : Float} {b : Binary} (h : ofFloat? x = some b) :
    b.Finite := by
  unfold ofFloat? at h
  simp only at h
  split at h
  · cases h
  · next hpower =>
    split at h
    · obtain rfl := Option.some.inj h
      refine ⟨?_, ?_, ?_⟩ <;> simp only <;> omega
    · obtain rfl := Option.some.inj h
      refine ⟨?_, ?_, ?_⟩ <;> simp only <;> omega

theorem scale_lt {b : Binary} (hb : b.Finite) (hpos : b.significand ≠ 0) :
    let k := (b.exponent + Nat.log2 b.significand + 1) * 30103 / 100000 + 2 - 23
    Nat.pow 10 k.toNat <<< (-(b.exponent - 2)).toNat <
      2 * Nat.pow 10 (-k).toNat <<< (b.exponent - 2).toNat := by
  intro k
  rw [Nat.shiftLeft_eq, Nat.shiftLeft_eq, Nat.pow_eq, Nat.pow_eq]
  have hlog : Nat.log2 b.significand < 53 := (Nat.log2_lt hpos).mpr hb.significand_lt
  have hlow := hb.exponent_ge
  have hhigh := hb.exponent_le
  have hten := ten_pow_le k.toNat
  have htwo := two_pow_le (-k).toNat
  -- the powers of two and ten stand on either side, depending on the signs of both exponents
  rcases Int.lt_or_le k 0 with hk | hk
  · rw [show k.toNat = 0 by omega]
    rcases Int.lt_or_le b.exponent 2 with he | he
    · rw [show (b.exponent - 2).toNat = 0 by omega]
      have : 2 ^ (-(b.exponent - 2)).toNat ≤
          2 ^ (33 * ((-k).toNat / 10) + 3 * ((-k).toNat % 10)) :=
        Nat.pow_le_pow_right (by decide) (by omega)
      have := Nat.pow_pos (n := (-k).toNat) (show 0 < 10 by decide)
      omega
    · rw [show (-(b.exponent - 2)).toNat = 0 by omega]
      have := Nat.mul_pos (Nat.pow_pos (n := (-k).toNat) (show 0 < 10 by decide))
        (Nat.two_pow_pos (b.exponent - 2).toNat)
      omega
  · rw [show (-k).toNat = 0 by omega, show (-(b.exponent - 2)).toNat = 0 by omega]
    have : 2 ^ (10 * (k.toNat / 3) + 4 * (k.toNat % 3)) ≤ 2 ^ (b.exponent - 2).toNat :=
      Nat.pow_le_pow_right (by decide) (by omega)
    have := Nat.two_pow_pos (b.exponent - 2).toNat
    omega

theorem shortest_ne_zero {b : Binary} (hb : b.Finite) (hpos : b.significand ≠ 0) (tie : Tie) :
    (shortest tie b).digits ≠ 0 := by
  rw [shortest]
  refine firstOnGrid_ne_zero 23 (by omega) ?_
  have hscale := scale_lt hb hpos
  generalize (b.exponent + Nat.log2 b.significand + 1) * 30103 / 100000 + 2 - 23 = k at hscale
  refine Interval.OnGrid.nearest?_ne_none ?_ ?_ ?_ tie
  · simp only [Interval.onGrid, Nat.shiftLeft_eq]
    exact Nat.mul_pos (Nat.pow_pos (by decide)) (Nat.two_pow_pos _)
  · simp only [Interval.onGrid, Binary.interval, Nat.add_mul]
    exact Nat.add_lt_add_left hscale _
  · exact Nat.mul_le_mul_right _ (Nat.sub_le _ _)

end Stencil.Decimal
