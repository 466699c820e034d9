import Mathlib
import Stencil.Decimal.Reader

/-!
# What rounding leaves of a number

The result of an operation in floating point is rounded to 53 binary places, and fewer below the
smallest exponent. A number no smaller than the smallest one of the format keeps at least one place,
so it does not become zero; in particular no integer but zero becomes zero. Nor does rounding ever
give what is no number: this comes from operands that are none, from infinities and from zeros
alone, and no decimal is read with such operands.

## Main definitions

* `FloatingPoint.Sized`: the numbers of the format that are neither zero nor none.
* `FloatingPoint.Proper`: finite numbers other than zero.

## Main results

* `FloatingPoint.sized_roundWithAccuracy`: rounding keeps a place of a number of the format.
* `FloatingPoint.sized_unpack_pack`: storing a number keeps it different from zero.
* `FloatingPoint.ofInt_beq_zero`: only zero is zero in floating point.
* `FloatingPoint.ofScientific_ne_nan`, `Decimal.ne_nan_of_read?`: digits spell a number.
* `FloatingPoint.le_of_beq`: equal numbers are ordered both ways.
-/

open Float.Model (Format UnpackedFloat totalExponent)
open Float.Model.UnpackedFloat

namespace Stencil.FloatingPoint

/-- The numbers in the range of the format that are neither zero nor none. -/
inductive Sized : UnpackedFloat → Prop
  | infinity (s : Sign) : Sized (.infinity s)
  | finite {s : Sign} {m : Nat} {e : Int} {h : 0 < m} (hm : m < 2 ^ 53) (he : -1074 ≤ e) :
      Sized (.finite s m e h)

variable {x : UnpackedFloat} {s s' : Sign} {m n : Nat} {e e' : Int}

/-! ### Rounding -/

theorem mantissa_shiftRight (em : ExtendedMantissa) (k : Nat) :
    (em >>> k).mantissa = em.mantissa / 2 ^ k := by
  induction k with
  | zero => rw [Nat.pow_zero, Nat.div_one]; rfl
  | succ k ih =>
    have hstep : (em >>> (k + 1)).mantissa = (em >>> k).mantissa / 2 := rfl
    rw [hstep, ih, Nat.div_div_eq_div_mul, Nat.pow_succ]

theorem mantissa_le_roundedMantissa (em : ExtendedMantissa) :
    em.mantissa ≤ em.roundedMantissa := by
  obtain ⟨m, r, s⟩ := em
  cases r <;> cases s <;>
    simp [ExtendedMantissa.roundedMantissa, ExtendedMantissa.accuracy, Accuracy.roundToNearestEven]

theorem mantissa_ofMantissaAndAccuracy (m : Nat) (a : Accuracy) :
    (ExtendedMantissa.ofMantissaAndAccuracy m a).mantissa = m := by
  fun_cases ExtendedMantissa.ofMantissaAndAccuracy m a <;> rfl

/-- Of a number no smaller than the smallest one of the format, a place is left when those that do
not fit the format are dropped. -/
theorem shiftToTargetExponent_bounds (a : Accuracy) (hm : m ≠ 0) (he : -1074 ≤ m.log2 + e) :
    let p := shiftToTargetExponent .binary64 m e a
    p.1.mantissa ≠ 0 ∧ p.1.mantissa < 2 ^ 53 ∧ -1074 ≤ p.2 := by
  intro p
  let k := (Format.binary64.targetExponent (totalExponent m e) - e).toNat
  have htarget : Format.binary64.targetExponent (totalExponent m e) =
      max (m.log2 + 1 + e - 53) (-1074) := by
    rw [Format.targetExponent, totalExponent]
    rfl
  have hk : k ≤ m.log2 ∧ m.log2 < 53 + k ∧ -1074 ≤ e + k := by omega
  have hmantissa : p.1.mantissa = m / 2 ^ k := by
    rw [← mantissa_ofMantissaAndAccuracy m a, ← mantissa_shiftRight]
    rfl
  have hexponent : p.2 = e + k := rfl
  rw [hmantissa, hexponent]
  refine ⟨?_, ?_, hk.2.2⟩
  · exact (Nat.div_pos ((Nat.le_log2 hm).mp hk.1) (Nat.two_pow_pos k)).ne'
  · rw [Nat.div_lt_iff_lt_mul (Nat.two_pow_pos k), ← Nat.pow_add]
    exact (Nat.log2_lt hm).mp hk.2.1

/-- A number no smaller than the smallest one of the format is not rounded to zero. -/
theorem sized_roundWithAccuracy (a : Accuracy) (hm : m ≠ 0) (he : -1074 ≤ m.log2 + e) :
    Sized (roundWithAccuracy .binary64 s m e a) := by
  obtain ⟨hfirst, -, hlow⟩ := shiftToTargetExponent_bounds a hm he
  have hround := mantissa_le_roundedMantissa (shiftToTargetExponent .binary64 m e a).1
  -- rounding up can make a new place, so the places are counted once more
  obtain ⟨hne, hlt, hge⟩ := shiftToTargetExponent_bounds .exact
    (m := (shiftToTargetExponent .binary64 m e a).1.roundedMantissa)
    (e := (shiftToTargetExponent .binary64 m e a).2) (by omega) (by omega)
  rw [roundWithAccuracy]
  simp only
  rw [dif_neg hne]
  exact .finite hlt hge

theorem log2_add_log2_le (hm : m ≠ 0) (hn : n ≠ 0) : m.log2 + n.log2 ≤ (m * n).log2 := by
  rw [Nat.le_log2 (Nat.mul_ne_zero hm hn), Nat.pow_add]
  exact Nat.mul_le_mul (Nat.log2_self_le hm) (Nat.log2_self_le hn)

theorem sized_round (hm : m ≠ 0) (he : -1074 ≤ m.log2 + e) :
    Sized (UnpackedFloat.round .binary64 s m e) := by
  let k := (e - Format.binary64.targetExponent (totalExponent m e)).toNat
  have hpow : 2 ^ k ≠ 0 := (Nat.two_pow_pos k).ne'
  have hlog := log2_add_log2_le hm hpow
  rw [Nat.log2_two_pow] at hlog
  have hround : UnpackedFloat.round .binary64 s m e =
      roundWithAccuracy .binary64 s (m * 2 ^ k) (e - k) .exact := by
    rw [← Nat.shiftLeft_eq]
    rfl
  rw [hround]
  exact sized_roundWithAccuracy .exact (Nat.mul_ne_zero hm hpow) (by omega)

theorem sized_normalize {n : Int} (hn : n ≠ 0) (s : Sign) :
    Sized (UnpackedFloat.normalize .binary64 n 0 s) := by
  rw [UnpackedFloat.normalize]
  rcases Int.lt_trichotomy n 0 with hlt | heq | hgt
  · rw [Int.compare_eq_lt.mpr hlt]
    exact sized_round (by omega) (by omega)
  · exact absurd heq hn
  · rw [Int.compare_eq_gt.mpr hgt]
    exact sized_round (by omega) (by omega)

theorem sized_mul_finite {h : 0 < m} {h' : 0 < n} (he : -1074 ≤ m.log2 + n.log2 + (e + e')) :
    Sized (mul .binary64 (.finite s m e h) (.finite s' n e' h')) := by
  have hlog := log2_add_log2_le h.ne' h'.ne'
  exact sized_roundWithAccuracy .exact (Nat.mul_pos h h').ne' (by omega)

/-- A product with a number of size one at least is not zero. -/
theorem sized_mul {h : 0 < m} (hx : Sized x) (he : 0 ≤ m.log2 + e) :
    Sized (mul .binary64 x (.finite s m e h)) := by
  cases hx with
  | infinity s' => exact .infinity _
  | finite hm' he' => exact sized_mul_finite (by omega)

theorem sized_neg (hx : Sized x) : Sized x.neg := by
  cases hx with
  | infinity => exact .infinity _
  | finite hm he => exact .finite hm he

/-- The integers are scaled by no power of ten. -/
theorem sized_ofScientific (hn : n ≠ 0) : Sized (ofScientific .binary64 n 0) := by
  have hbits : Format.binary64.mantissaBits = 53 := rfl
  have hpow : (0 : Int) ≤ 2 ^ Format.binary64.exponentBits := by decide
  rw [ofScientific, dif_neg hn, if_neg (by decide), if_neg (by omega), if_pos le_rfl]
  exact sized_mul_finite (by omega)

/-! ### Storing -/

/-- A finite number is stored as an infinity, with a leading one left out, or with all its places. -/
theorem pack_finite (s : Sign) (e : Int) (h : 0 < m) :
    pack .binary64 (.finite s m e h) =
      if 2048 ≤ (e + 1075).toNat + 1 then packedInfinity .binary64 s
      else if m.log2 + 1 = 53 then
        packComponents .binary64 s (BitVec.ofNat 11 (e + 1075).toNat) (BitVec.ofNat 52 m)
      else packComponents .binary64 s 0#11 (BitVec.ofNat 52 m) := by
  rw [show e + 1075 = e + 1023 + 52 by omega]
  rfl

/-- What is not zero is not stored as zero: its exponent or its places are left. -/
theorem pack_ne_packedZero (hx : Sized x) (s : Sign) :
    pack .binary64 x ≠ packedZero .binary64 s := by
  intro hzero
  have hexponent := congrArg (@unpackExponent .binary64) hzero
  have hmantissa := congrArg (@unpackMantissa .binary64) hzero
  rw [packedZero, unpackExponent_packComponents] at hexponent
  rw [packedZero, unpackMantissa_packComponents] at hmantissa
  revert hexponent hmantissa
  cases hx with
  | infinity s' => simp [pack, packedInfinity]
  | @finite s' m e h hm he =>
    rw [pack_finite]
    split
    · simp [packedInfinity]
    split
    · rw [unpackExponent_packComponents, ← BitVec.toNat_inj, BitVec.toNat_ofNat]
      intro hexponent
      have hzero : (e + 1075).toNat % 2 ^ 11 = 0 := hexponent
      omega
    · have hlog := (Nat.log2_lt h.ne').mpr hm
      have hlt : m < 2 ^ 52 := (Nat.log2_lt h.ne').mp (by omega)
      rw [unpackMantissa_packComponents, ← BitVec.toNat_inj (x := BitVec.ofNat 52 m),
        BitVec.toNat_ofNat]
      intro _ hmantissa
      have hzero : m % 2 ^ 52 = 0 := hmantissa
      omega

/-- Only what is no number is stored as such. -/
theorem eq_notANumber_of_pack (hnone : pack .binary64 x = packedNaN .binary64) :
    x = .notANumber := by
  have hexponent := congrArg (@unpackExponent .binary64) hnone
  have hmantissa := congrArg (@unpackMantissa .binary64) hnone
  rw [packedNaN, unpackExponent_packComponents] at hexponent
  rw [packedNaN, unpackMantissa_packComponents] at hmantissa
  revert hexponent hmantissa
  cases x with
  | notANumber => exact fun _ _ ↦ rfl
  | infinity s =>
    rw [pack, packedInfinity, unpackMantissa_packComponents]
    exact fun _ hmantissa ↦ absurd hmantissa (by decide)
  | zero s => simp [pack, packedZero]
  | finite s m e h =>
    rw [pack_finite]
    split
    · simp [packedInfinity]
    split
    · rw [unpackExponent_packComponents, BitVec.neg_one_eq_allOnes, ← BitVec.toNat_inj,
        BitVec.toNat_ofNat, BitVec.toNat_allOnes]
      omega
    · simp

/-- What is stored is no number, a zero, or in the range of the format. -/
theorem unpack_cases (v : Float.Model) :
    v.unpack = .notANumber ∨ (∃ s, v.unpack = .zero s) ∨ Sized v.unpack := by
  have hmantissa : (@unpackMantissa .binary64 v.toBits.toBitVec).toNat < 2 ^ 52 :=
    (@unpackMantissa .binary64 v.toBits.toBitVec).isLt
  rw [Float.Model.unpack]
  fun_cases UnpackedFloat.unpack with
  | case1 => exact .inr (.inr (.infinity _))
  | case2 => exact .inl rfl
  | case3 => exact .inr (.inl ⟨_, rfl⟩)
  | case4 mantissa exponent power sign s hinfinity hsubnormal hzero =>
    have hpower : exponent.toNat - 1075 = power := rfl
    have hlt : mantissa.toNat < 2 ^ 53 := hmantissa.trans (by decide)
    exact .inr (.inr (.finite hlt (by omega)))
  | case5 mantissa exponent power sign s hinfinity hnormal =>
    have hpower : exponent.toNat - 1075 = power := rfl
    have hpos : exponent.toNat ≠ 0 := fun h ↦ hnormal (BitVec.eq_of_toNat_eq h)
    have hlt : (1#1 ++ mantissa).toNat < 2 ^ 53 := (1#1 ++ mantissa).isLt
    exact .inr (.inr (.finite hlt (by omega)))

theorem unpack_pack_eq_notANumber_iff :
    (Float.Model.pack x).unpack = .notANumber ↔ x = .notANumber := by
  constructor
  · intro h
    exact eq_notANumber_of_pack ((unpack_eq_notANumber_iff_of_valid valid_pack).mp h)
  · rintro rfl
    exact unpack_packedNaN

/-- A stored number is read as zero only if it is zero. -/
theorem sized_unpack_pack (hx : Sized x) : Sized (Float.Model.pack x).unpack := by
  rcases unpack_cases (Float.Model.pack x) with hnone | ⟨s, hzero⟩ | hsized
  · obtain rfl := unpack_pack_eq_notANumber_iff.mp hnone
    nomatch hx
  · exact absurd ((unpack_eq_zero_iff_of_valid valid_pack).mp hzero) (pack_ne_packedZero hx s)
  · exact hsized

/-! ### Integers -/

theorem unpack_zero : (0 : Float).toModel.unpack = .zero .positive :=
  (unpack_eq_zero_iff_of_valid (0 : Float).toModel.valid).mpr (by decide +kernel)

theorem unpack_neg_zero : (-0 : Float).toModel.unpack = .zero .negative :=
  (unpack_eq_zero_iff_of_valid (-0 : Float).toModel.valid).mpr (by decide +kernel)

theorem beq_zero_of_sized {y : Float} (hy : Sized y.toModel.unpack) : (y == 0) = false := by
  rw [Bool.eq_false_iff]
  intro hzero
  have hzeros : y = 0 ∨ y = -0 := by
    obtain ⟨-, -, h | ⟨h, -⟩ | ⟨h, -⟩⟩ := Float.beq_iff_ne_nan_and_eq.mp hzero
    · exact .inl h
    · exact .inl h
    · exact .inr h
  rcases hzeros with rfl | rfl
  · rw [unpack_zero] at hy
    nomatch hy
  · rw [unpack_neg_zero] at hy
    nomatch hy

theorem sized_ofNat (hn : n ≠ 0) : Sized (Float.ofNat n).toModel.unpack := by
  have hofNat : Float.ofNat n = Float.ofScientific n false 0 := rfl
  rw [hofNat, Float.ofScientific]
  split
  · rename_i hlt
    have hword : n.toUInt64.toNat = n := by
      rw [Nat.toUInt64, UInt64.toNat_ofNat']
      exact Nat.mod_eq_of_lt (by omega)
    have hsized : Sized n.toUInt64.toFloat.toModel.unpack :=
      sized_unpack_pack (sized_normalize (by omega) .positive)
    obtain ⟨h, hone⟩ : ∃ h, Float.exactlyRepresentablePowersOfTen[0].toModel.unpack =
        .finite .positive (2 ^ 52) (-52) h := ⟨by decide, rfl⟩
    refine sized_unpack_pack ?_
    simp only [hone]
    exact sized_mul hsized (by rw [Nat.log2_two_pow]; decide)
  · exact sized_unpack_pack (sized_ofScientific hn)

theorem sized_ofInt {n : Int} (hn : n ≠ 0) : Sized (Float.ofInt n).toModel.unpack := by
  cases n with
  | ofNat n => exact sized_ofNat (by simpa using hn)
  | negSucc n => exact sized_unpack_pack (sized_neg (sized_ofNat n.succ_ne_zero))

/-- Only zero is zero in floating point. -/
theorem ofInt_beq_zero (n : Int) : (Float.ofInt n == 0) = decide (n = 0) := by
  by_cases hn : n = 0
  · subst hn
    decide +kernel
  · rw [beq_zero_of_sized (sized_ofInt hn), decide_eq_false hn]

/-! ### What is no number -/

theorem eq_nan_iff {y : Float} : y = Float.nan ↔ y.toModel.unpack = .notANumber := by
  have hnan : y.isNaN = y.toModel.unpack.isNaN := rfl
  rw [← isNaN_iff, ← hnan, Float.isNaN_eq_decide_eq_nan, decide_eq_true_iff]

theorem neg_ne_nan {y : Float} (hy : y ≠ Float.nan) : -y ≠ Float.nan := by
  have hneg : (-y).toModel = Float.Model.pack y.toModel.unpack.neg := rfl
  rw [Ne, eq_nan_iff] at hy ⊢
  rw [hneg, unpack_pack_eq_notANumber_iff]
  cases h : y.toModel.unpack with
  | notANumber => exact absurd h hy
  | _ => simp [neg]

theorem roundWithAccuracy_ne_notANumber (s : Sign) (m : Nat) (e : Int) (a : Accuracy) :
    roundWithAccuracy .binary64 s m e a ≠ .notANumber := by
  rw [roundWithAccuracy]
  simp only
  split <;> simp

theorem normalize_ne_notANumber (n : Int) (s : Sign) :
    UnpackedFloat.normalize .binary64 n 0 s ≠ .notANumber := by
  rw [UnpackedFloat.normalize]
  split
  · exact roundWithAccuracy_ne_notANumber _ _ _ _
  · simp
  · exact roundWithAccuracy_ne_notANumber _ _ _ _

/-- A finite number other than zero. -/
def Proper (y : Float) : Prop :=
  ∃ s m e h, y.toModel.unpack = .finite s m e h

variable {y z : Float}

theorem mul_ne_nan (hy : y ≠ Float.nan) (hz : Proper z) : y * z ≠ Float.nan := by
  obtain ⟨s, m, e, h, hz⟩ := hz
  have hmul : (y * z).toModel =
      Float.Model.pack (mul .binary64 y.toModel.unpack z.toModel.unpack) := rfl
  rw [Ne, eq_nan_iff] at hy ⊢
  rw [hmul, unpack_pack_eq_notANumber_iff, hz]
  cases hunpack : y.toModel.unpack with
  | notANumber => exact absurd hunpack hy
  | infinity | zero => simp [mul]
  | finite => exact roundWithAccuracy_ne_notANumber _ _ _ _

theorem div_ne_nan (hy : y ≠ Float.nan) (hz : Proper z) : y / z ≠ Float.nan := by
  obtain ⟨s, m, e, h, hz⟩ := hz
  have hdiv : (y / z).toModel =
      Float.Model.pack (div .binary64 y.toModel.unpack z.toModel.unpack) := rfl
  rw [Ne, eq_nan_iff] at hy ⊢
  rw [hdiv, unpack_pack_eq_notANumber_iff, hz]
  cases hunpack : y.toModel.unpack with
  | notANumber => exact absurd hunpack hy
  | infinity | zero => simp [div]
  | finite => exact roundWithAccuracy_ne_notANumber _ _ _ _

theorem ofScientific_ne_notANumber (m : Nat) (e : Int) :
    ofScientific .binary64 m e ≠ .notANumber := by
  rw [ofScientific]
  split
  · simp
  split
  · simp
  split
  · simp
  split
  · exact roundWithAccuracy_ne_notANumber _ _ _ _
  · exact roundWithAccuracy_ne_notANumber _ _ _ _

theorem proper_powerOfTen : ∀ e : Fin 23, Proper Float.exactlyRepresentablePowersOfTen[e] := by
  intro e
  fin_cases e <;> exact ⟨_, _, _, _, rfl⟩

theorem toFloat_ne_nan (n : UInt64) : n.toFloat ≠ Float.nan := by
  rw [Ne, eq_nan_iff]
  exact mt unpack_pack_eq_notANumber_iff.mp (normalize_ne_notANumber _ _)

/-- Digits and a power of ten make a number. -/
theorem ofScientific_ne_nan (m : Nat) (negative : Bool) (e : Nat) :
    Float.ofScientific m negative e ≠ Float.nan := by
  rw [Float.ofScientific]
  split
  · rename_i h
    have hpower := proper_powerOfTen ⟨e, by omega⟩
    cases negative with
    | true => exact div_ne_nan (toFloat_ne_nan _) hpower
    | false => exact mul_ne_nan (toFloat_ne_nan _) hpower
  · rw [Ne, eq_nan_iff]
    exact mt unpack_pack_eq_notANumber_iff.mp (ofScientific_ne_notANumber _ _)

/-! ### Order -/

/-- Equal numbers are ordered both ways. -/
theorem le_of_beq (h : y == z) : y ≤ z := by
  have hcompare : y.toModel.unpack.compare z.toModel.unpack = some .eq := beq_iff_eq.mp h
  have hle : y.le z = (y.toModel.unpack.compare z.toModel.unpack).any (·.isLE) := Bool.decide_coe _
  have htrue : y.le z = true := by
    rw [hle, hcompare]
    rfl
  exact htrue

end Stencil.FloatingPoint

namespace Stencil.Decimal

open FloatingPoint (neg_ne_nan ofScientific_ne_nan)

variable {cs : List Char} {x : Float}

theorem Scaled.toFloat_ne_nan (d : Scaled) : d.toFloat ≠ Float.nan := by
  rw [toFloat]
  split
  · exact ofScientific_ne_nan 0 false 0
  split
  · decide +kernel
  · exact ofScientific_ne_nan _ _ _

theorem ne_nan_of_magnitude? (hcs : ∀ c ∈ cs, c.toLower ≠ 'n') (h : magnitude? cs = some x) :
    x ≠ Float.nan := by
  rw [magnitude?] at h
  split at h
  · obtain rfl := Option.some.inj h
    decide +kernel
  split at h
  · rename_i hword
    have hmem : 'n' ∈ cs.map Char.toLower := by
      rw [← String.toList_ofList (l := cs.map Char.toLower), hword]
      decide
    obtain ⟨c, hc, hlower⟩ := List.mem_map.mp hmem
    exact absurd hlower (hcs c hc)
  · obtain ⟨d, -, rfl⟩ := Option.map_eq_some_iff.mp h
    exact d.toFloat_ne_nan

/-- A text without the letter of the word for no number is not read as that. -/
theorem ne_nan_of_read? (hcs : ∀ c ∈ cs, c.toLower ≠ 'n') (h : read? cs = some x) :
    x ≠ Float.nan := by
  unfold read? at h
  split at h
  · obtain ⟨y, hy, rfl⟩ := Option.map_eq_some_iff.mp h
    exact neg_ne_nan (ne_nan_of_magnitude? (List.forall_mem_of_forall_mem_cons hcs) hy)
  · exact ne_nan_of_magnitude? (List.forall_mem_of_forall_mem_cons hcs) h
  · exact ne_nan_of_magnitude? hcs h

end Stencil.Decimal
