import Stencil.Decimal.Binary
import Stencil.Proofs.FloatingPoint

/-!
# Exact values of floating-point numbers

A finite number of the format is a rational number. The parts that are read from its bits stand for
this number, and the integer that is read from the parts is the number itself: it is found just when
the number is whole, and nothing is rounded on the way.

## Main definitions

* `FloatingPoint.rational?`: the rational number that a floating-point number is.
* `Decimal.Binary.value`: the rational number that some parts stand for.

## Main results

* `FloatingPoint.rational?_eq`: the parts of a number stand for it.
* `Decimal.Binary.toInt?_eq_some_iff`: the integer of some parts is the number they stand for.
-/

open Float.Model (UnpackedFloat)
open Float.Model.UnpackedFloat

namespace Stencil

namespace Decimal.Binary

/-- The number that some parts stand for. -/
def value (b : Binary) : ℚ :=
  (if b.negative then -b.significand else b.significand : ℤ) * 2 ^ b.exponent

/-- The size of a number is found just if it is whole. -/
theorem wholeMagnitude?_eq_some_iff {m n : Nat} {e : Int} :
    wholeMagnitude? m e = some n ↔ (m : ℚ) * 2 ^ e = n := by
  cases e with
  | ofNat k =>
    rw [wholeMagnitude?, Option.some.injEq, Nat.shiftLeft_eq, Int.ofNat_eq_natCast, zpow_natCast]
    exact_mod_cast Iff.rfl
  | negSucc k =>
    have hpow : (2 : ℚ) ^ (k + 1) ≠ 0 := by positivity
    have hcast : (m : ℚ) = n * 2 ^ (k + 1) ↔ m = n * 2 ^ (k + 1) := by exact_mod_cast Iff.rfl
    rw [wholeMagnitude?, Nat.shiftLeft_eq, Nat.one_mul, Nat.shiftRight_eq_div_pow, zpow_negSucc,
      ← div_eq_mul_inv, div_eq_iff hpow, hcast]
    split_ifs with h
    · rw [Option.some.injEq]
      exact Nat.div_eq_iff_eq_mul_left (Nat.two_pow_pos _) (Nat.dvd_of_mod_eq_zero h)
    · refine iff_of_false nofun ?_
      rintro rfl
      exact h (Nat.mul_mod_left _ _)

/-- The integer of some parts is the number that they stand for, if it is whole. -/
theorem toInt?_eq_some_iff {b : Binary} {n : Int} : b.toInt? = some n ↔ b.value = n := by
  have hmap : b.toInt? = (wholeMagnitude? b.significand b.exponent).map
      fun k : Nat ↦ if b.negative then -(k : Int) else k := by
    rw [toInt?]
    cases wholeMagnitude? b.significand b.exponent <;> rfl
  have hnonneg : (0 : ℚ) ≤ b.significand * 2 ^ b.exponent := by positivity
  have hwhole {i : Int} (h : (b.significand : ℚ) * 2 ^ b.exponent = i) :
      ∃ k : Nat, (b.significand : ℚ) * 2 ^ b.exponent = k ∧ (k : Int) = i := by
    have hi : 0 ≤ i := by
      rw [h] at hnonneg
      exact_mod_cast hnonneg
    obtain ⟨k, rfl⟩ := Int.eq_ofNat_of_zero_le hi
    exact ⟨k, by rw [h, Int.cast_natCast], rfl⟩
  rw [hmap, Option.map_eq_some_iff, value]
  simp only [wholeMagnitude?_eq_some_iff]
  split_ifs
  · rw [Int.cast_neg, Int.cast_natCast, neg_mul, neg_eq_iff_eq_neg, ← Int.cast_neg]
    constructor
    · rintro ⟨k, hk, rfl⟩
      rw [hk, neg_neg, Int.cast_natCast]
    · intro h
      obtain ⟨k, hk, hn⟩ := hwhole h
      exact ⟨k, hk, by rw [hn, neg_neg]⟩
  · rw [Int.cast_natCast]
    constructor
    · rintro ⟨k, hk, rfl⟩
      rw [hk, Int.cast_natCast]
    · exact hwhole

end Decimal.Binary

namespace FloatingPoint

open Decimal (Binary)

/-- The rational number that a floating-point number is, if it is finite. -/
def rational? (x : Float) : Option ℚ :=
  match x.toModel.unpack with
  | .zero _ => some 0
  | .finite s m e _ => some (s.apply m * 2 ^ e)
  | .infinity _ | .notANumber => none

theorem toNat_unpackExponent (b : UInt64) :
    (@unpackExponent .binary64 b.toBitVec).toNat = b.toNat / 0x10000000000000 % 0x800 := by
  rw [unpackExponent, BitVec.toNat_cast, BitVec.extractLsb_toNat, Nat.shiftRight_eq_div_pow]
  rfl

theorem toNat_unpackMantissa (b : UInt64) :
    (@unpackMantissa .binary64 b.toBitVec).toNat = b.toNat % 0x10000000000000 := by
  rw [unpackMantissa, BitVec.toNat_cast, BitVec.extractLsb_toNat, Nat.shiftRight_zero]
  rfl

theorem apply_unpackSign (b : UInt64) (k : Int) :
    (Sign.ofBitVec (@unpackSign .binary64 b.toBitVec)).apply k =
      if b.toNat / 0x8000000000000000 == 1 then -k else k := by
  have hlt : b.toNat / 0x8000000000000000 < 2 := by
    have := b.toNat_lt
    omega
  have hsign : (@unpackSign .binary64 b.toBitVec).toNat = b.toNat / 0x8000000000000000 := by
    rw [unpackSign, BitVec.toNat_cast, BitVec.extractLsb_toNat, Nat.shiftRight_eq_div_pow]
    exact Nat.mod_eq_of_lt hlt
  simp only [← hsign, Sign.ofBitVec, beq_iff_eq]
  by_cases h : @unpackSign .binary64 b.toBitVec = 0#1
  · rw [if_pos h, h]
    rfl
  · have hone : (@unpackSign .binary64 b.toBitVec).toNat = 1 := by
      have hne := mt BitVec.toNat_inj.mp h
      rw [hsign, BitVec.toNat_zero] at hne
      omega
    rw [if_neg h, if_pos hone]
    rfl

/-- The parts that are read from the bits of a number stand for it. -/
theorem rational?_eq (x : Float) : rational? x = (Binary.ofFloat? x).map Binary.value := by
  have hexponent := toNat_unpackExponent x.toBits
  have hmantissa := toNat_unpackMantissa x.toBits
  have hsign := apply_unpackSign x.toBits
  rw [rational?, Float.Model.unpack, Binary.ofFloat?, ← hexponent, ← hmantissa]
  fun_cases UnpackedFloat.unpack .binary64 x.toModel.toBits.toBitVec with
  | case1 mantissa exponent sign s hinfinite hzero =>
    have hfield : (@unpackExponent .binary64 x.toBits.toBitVec).toNat = 2047 :=
      congrArg BitVec.toNat hinfinite
    rw [if_pos hfield]
    rfl
  | case2 mantissa exponent hinfinite hnonzero =>
    have hfield : (@unpackExponent .binary64 x.toBits.toBitVec).toNat = 2047 :=
      congrArg BitVec.toNat hinfinite
    rw [if_pos hfield]
    rfl
  | case3 mantissa exponent sign s hfinite hsubnormal hzero =>
    have hfield : (@unpackExponent .binary64 x.toBits.toBitVec).toNat = 0 :=
      congrArg BitVec.toNat hsubnormal
    have hplaces : (@unpackMantissa .binary64 x.toBits.toBitVec).toNat = 0 :=
      congrArg BitVec.toNat hzero
    simp [hfield, hplaces, Binary.value]
  | case4 mantissa exponent power sign s hfinite hsubnormal hzero =>
    have hfield : (@unpackExponent .binary64 x.toBits.toBitVec).toNat = 0 :=
      congrArg BitVec.toNat hsubnormal
    have hpower : power + 1 = -1074 := by
      rw [show power = (@unpackExponent .binary64 x.toBits.toBitVec).toNat - 1075 from rfl, hfield]
      rfl
    rw [if_neg (by omega), if_pos hfield, hpower]
    exact congrArg (fun k : Int ↦ some ((k : ℚ) * 2 ^ (-1074 : Int))) (hsign _)
  | case5 mantissa exponent power sign s hfinite hnormal =>
    have hne : (@unpackExponent .binary64 x.toBits.toBitVec).toNat ≠ 2047 := fun h ↦
      hfinite (BitVec.eq_of_toNat_eq h)
    have hne' : (@unpackExponent .binary64 x.toBits.toBitVec).toNat ≠ 0 := fun h ↦
      hnormal (BitVec.eq_of_toNat_eq h)
    have hleading : (1#1 ++ mantissa).toNat =
        0x10000000000000 + (@unpackMantissa .binary64 x.toBits.toBitVec).toNat := by
      change 2 ^ 52 ||| mantissa.toNat = _
      rw [Nat.or_comm, Nat.or_two_pow_eq_add_of_lt mantissa.isLt, Nat.add_comm]
      rfl
    rw [if_neg hne, if_neg hne', ← hleading]
    exact congrArg (fun k : Int ↦ some ((k : ℚ) * 2 ^ power)) (hsign _)

/-- The integer that a number is exactly is that of its parts. -/
theorem rational?_eq_some_iff {x : Float} {n : Int} :
    rational? x = some (n : ℚ) ↔ (Binary.ofFloat? x).bind Binary.toInt? = some n := by
  rw [rational?_eq, Option.map_eq_some_iff, Option.bind_eq_some_iff]
  exact exists_congr fun b ↦ and_congr_right fun _ ↦ Binary.toInt?_eq_some_iff.symm

end FloatingPoint

end Stencil
