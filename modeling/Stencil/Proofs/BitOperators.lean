import Stencil.Proofs.Arithmetic
import Stencil.Proofs.ExactValues

/-!
# Operators on bits

The operators on bits take integers that their operands are exactly: words, and floating-point
numbers that are whole and smaller than a word can be. Nothing is rounded to an integer on the way,
and what is none makes the result null. Two integers are combined bit by bit as if each went on
without end, which changes no bit of a word; a shift to the left is cut to the bits of a word, and a
shift to the right rounds downwards. A shift by a negative amount, or by all bits or more, is null.

## Main definitions

* `BinaryOp.OnBits`, `BinaryOp.Yields`: the operators on bits, and their results in the integers.
* `Value.IsExactly`: the values that are exactly an integer.
* `Value.BitOutcome`: what an operator on bits makes of two integers.

## Main results

* `testBit_toInt`: the bits of the integer that a word is.
* `Value.int?_eq_some_iff`: which integer a value is exactly.
* `Value.bit_operators`: when the operators on bits give null, and what they give for integers.
-/

namespace Stencil

/-- The operators on bits. -/
inductive BinaryOp.OnBits : BinaryOp → Prop
  | bitAnd : OnBits .bitAnd
  | bitOr : OnBits .bitOr
  | bitXor : OnBits .bitXor
  | shiftLeft : OnBits .shiftLeft
  | shiftRight : OnBits .shiftRight

/-- The operators that shift bits. -/
inductive BinaryOp.Shifts : BinaryOp → Prop
  | left : Shifts .shiftLeft
  | right : Shifts .shiftRight

/-- The amounts by which the bits of a word are shifted. -/
def IsAmount (n : Int) : Prop :=
  0 ≤ n ∧ n < 64

instance (n : Int) : Decidable (IsAmount n) :=
  inferInstanceAs (Decidable (_ ∧ _))

/-- The results of the operators on bits. Integers are in two's complement and go on without end;
shifted to the left they are reduced to the words, and shifted to the right rounded downwards. -/
inductive BinaryOp.Yields : BinaryOp → Int → Int → Int → Prop
  | bitAnd (m n : Int) : Yields .bitAnd m n (m.land n)
  | bitOr (m n : Int) : Yields .bitOr m n (m.lor n)
  | bitXor (m n : Int) : Yields .bitXor m n (m.xor n)
  | shiftLeft (m : Int) {n : Int} (h : IsAmount n) :
      Yields .shiftLeft m n ((m * 2 ^ n.toNat).bmod (2 ^ 64))
  | shiftRight (m : Int) {n : Int} (h : IsAmount n) : Yields .shiftRight m n ⌊(m : ℚ) / 2 ^ n.toNat⌋

/-! ### The bits of words -/

section Bits

variable {w : Nat} {x y z : BitVec w} {m n : Int}

theorem toInt_of_msb (h : x.msb = true) : x.toInt = Int.negSucc (~~~x).toNat := by
  rw [BitVec.toInt_eq_msb_cond, if_pos h, BitVec.toNat_not, Int.negSucc_eq]
  have hlt := x.isLt
  omega

/-- The bits of the integer that a word is: those of the word, and its sign from there on. -/
theorem testBit_toInt (x : BitVec w) (i : Nat) :
    x.toInt.testBit i = if i < w then x.getLsbD i else x.msb := by
  cases hmsb : x.msb with
  | false =>
    rw [BitVec.toInt_eq_msb_cond, hmsb, if_neg Bool.false_ne_true]
    change x.getLsbD i = _
    split_ifs with h
    · rfl
    · exact BitVec.getLsbD_of_ge x i (not_lt.mp h)
  | true =>
    rw [toInt_of_msb hmsb]
    change (!(~~~x).getLsbD i) = _
    rw [BitVec.getLsbD_not]
    split_ifs with h
    · simp [h]
    · simp [h]

/-- Integers with the same bits are the same. -/
theorem eq_of_testBit (h : ∀ i, m.testBit i = n.testBit i) : m = n := by
  have hbeyond {k i : Nat} (hk : k ≤ i) : k.testBit i = false :=
    Nat.testBit_lt_two_pow (hk.trans_lt Nat.lt_two_pow_self)
  cases m with
  | ofNat j =>
    cases n with
    | ofNat k => exact congrArg Int.ofNat (Nat.eq_of_testBit_eq h)
    | negSucc k =>
      have hfar : j.testBit (j + k) = !k.testBit (j + k) := h (j + k)
      rw [hbeyond (by omega), hbeyond (by omega)] at hfar
      nomatch hfar
  | negSucc j =>
    cases n with
    | ofNat k =>
      have hfar : (!j.testBit (j + k)) = k.testBit (j + k) := h (j + k)
      rw [hbeyond (by omega), hbeyond (by omega)] at hfar
      nomatch hfar
    | negSucc k =>
      exact congrArg Int.negSucc (Nat.eq_of_testBit_eq fun i ↦ Bool.not_inj (h i))

/-- An operation on the bits of words is the same operation on the bits of integers. -/
theorem toInt_eq_of_bits {f : Bool → Bool → Bool} {k : Int}
    (hbits : ∀ i, z.getLsbD i = f (x.getLsbD i) (y.getLsbD i)) (hmsb : z.msb = f x.msb y.msb)
    (hk : ∀ i, k.testBit i = f (x.toInt.testBit i) (y.toInt.testBit i)) : z.toInt = k := by
  refine eq_of_testBit fun i ↦ ?_
  rw [hk, testBit_toInt, testBit_toInt, testBit_toInt]
  split_ifs
  · exact hbits i
  · exact hmsb

end Bits

section Words

variable {b : Int64}

theorem toInt_and (a b : Int64) : (a &&& b).toInt = a.toInt.land b.toInt :=
  toInt_eq_of_bits (fun _ ↦ BitVec.getLsbD_and) BitVec.msb_and (Int.testBit_land _ _)

theorem toInt_or (a b : Int64) : (a ||| b).toInt = a.toInt.lor b.toInt :=
  toInt_eq_of_bits (fun _ ↦ BitVec.getLsbD_or) BitVec.msb_or (Int.testBit_lor _ _)

theorem toInt_xor (a b : Int64) : (a ^^^ b).toInt = a.toInt.xor b.toInt :=
  toInt_eq_of_bits (fun _ ↦ BitVec.getLsbD_xor) BitVec.msb_xor (Int.testBit_lxor _ _)

theorem toInt_not (a : Int64) : (~~~a).toInt = -a.toInt - 1 := by
  have hlow := a.le_toInt
  have hhigh := a.toInt_lt
  rw [Int64.toInt_not]
  exact Int.bmod_eq_of_le (by omega) (by omega)

/-- An amount below the number of bits is not reduced. -/
theorem smod_of_isAmount (h : IsAmount b.toInt) : b.toBitVec.smod 64 = b.toBitVec := by
  refine BitVec.eq_of_toInt_eq ?_
  rw [BitVec.toInt_smod, Int64.toInt_toBitVec]
  exact (Int.fmod_eq_emod_of_nonneg _ (by decide)).trans (Int.emod_eq_of_lt h.1 h.2)

theorem toNat_of_isAmount (h : IsAmount b.toInt) : b.toBitVec.toNat = b.toInt.toNat := by
  have hlow := h.1
  rw [← Int64.toInt_toBitVec, BitVec.toInt_eq_toNat_cond] at hlow ⊢
  split at hlow <;> omega

theorem toInt_shiftLeft (a : Int64) (h : IsAmount b.toInt) :
    (a <<< b).toInt = (a.toInt * 2 ^ b.toInt.toNat).bmod (2 ^ 64) := by
  have hmod : a.toInt = (a.toBitVec.toNat : Int).bmod (2 ^ 64) := BitVec.toInt_eq_toNat_bmod _
  rw [← Int64.toInt_toBitVec (a <<< b), Int64.toBitVec_shiftLeft, smod_of_isAmount h,
    BitVec.shiftLeft_eq', BitVec.toInt_shiftLeft, toNat_of_isAmount h, Nat.shiftLeft_eq, hmod,
    Int.bmod_mul_bmod, Int.natCast_mul, Int.natCast_pow]
  rfl

theorem toInt_shiftRight (a : Int64) (h : IsAmount b.toInt) :
    (a >>> b).toInt = ⌊(a.toInt : ℚ) / 2 ^ b.toInt.toNat⌋ := by
  have hfloor := Rat.floor_intCast_div_natCast a.toInt (2 ^ b.toInt.toNat)
  rw [← Int64.toInt_toBitVec, Int64.toBitVec_shiftRight, smod_of_isAmount h,
    BitVec.toInt_sshiftRight', toNat_of_isAmount h, Int.shiftRight_eq_div_pow,
    Int64.toInt_toBitVec, ← hfloor]
  push_cast
  rfl

end Words

namespace Value

open FloatingPoint (rational?)

/-! ### Exact integers -/

/-- The values that are exactly an integer: those that are read as this integer, and those that are
read as a floating-point number that is this integer and smaller than `2 ^ 63` in size. -/
inductive IsExactly (v : Value) (n : Int64) : Prop
  | word (h : v.Spells n)
  | whole {x : Float} (h : v.number? = some (.float x)) (hx : rational? x = some (n.toInt : ℚ))
      (hsize : |n.toInt| < 2 ^ 63)

variable {a b v : Value} {m n : Int64} {x : Float} {op : BinaryOp}

theorem float_int?_eq_some_iff :
    (Number.float x).int? = some n ↔ rational? x = some (n.toInt : ℚ) ∧ |n.toInt| < 2 ^ 63 := by
  have hint : (Number.float x).int? = ((Decimal.Binary.ofFloat? x).bind Decimal.Binary.toInt?).bind
      fun k ↦ if k.natAbs < 0x8000000000000000 then some (Int64.ofInt k) else none := by
    rw [Number.int?, Option.bind_assoc]
    rfl
  rw [hint, Option.bind_eq_some_iff, FloatingPoint.rational?_eq_some_iff]
  constructor
  · rintro ⟨k, hk, hword⟩
    split_ifs at hword with hsize
    obtain rfl := Option.some.inj hword
    rw [Int64.toInt_ofInt_of_le (by omega) (by omega)]
    exact ⟨hk, by rw [Int.abs_eq_natAbs]; omega⟩
  · rintro ⟨hk, hsize⟩
    rw [Int.abs_eq_natAbs] at hsize
    exact ⟨n.toInt, hk, by rw [if_pos (by omega), Int64.ofInt_toInt]⟩

/-- A value is read as the integer that it is exactly, if there is one. -/
theorem int?_eq_some_iff : v.int? = some n ↔ v.IsExactly n := by
  rw [int?, Option.bind_eq_some_iff]
  constructor
  · rintro ⟨k | x, hnumber, hint⟩
    · obtain rfl := Option.some.inj hint
      exact .word (number?_eq_int_iff.mp hnumber)
    · obtain ⟨hx, hsize⟩ := float_int?_eq_some_iff.mp hint
      exact .whole hnumber hx hsize
  · rintro (h | ⟨h, hx, hsize⟩)
    · exact ⟨_, number?_eq_int_iff.mpr h, rfl⟩
    · exact ⟨_, h, float_int?_eq_some_iff.mpr ⟨hx, hsize⟩⟩

/-! ### Operators -/

/-- What an operator on bits makes of two integers: null if it is a shift and the second integer is
no amount, else its result in the integers. -/
inductive BitOutcome (op : BinaryOp) (m n : Int64) : Value → Prop
  | null (hop : op.Shifts) (hn : ¬ IsAmount n.toInt) : BitOutcome op m n null
  | int {k : Int64} (hn : op.Shifts → IsAmount n.toInt) (hk : op.Yields m.toInt n.toInt k.toInt) :
      BitOutcome op m n (int k)

theorem bitOutcome_shift (f : Int64 → Int64 → Int64) (hop : op.Shifts)
    (hf : IsAmount n.toInt → op.Yields m.toInt n.toInt (f m n).toInt) :
    BitOutcome op m n (((shift? f m n).map int).getD null) := by
  by_cases h : IsAmount n.toInt
  · have hsome : shift? f m n = some (f m n) := if_pos h
    rw [hsome]
    exact .int (fun _ ↦ h) (hf h)
  · have hnone : shift? f m n = none := if_neg h
    rw [hnone]
    exact .null hop h

theorem bitOutcome_bitwise (hop : op.OnBits) (m n : Int64) :
    BitOutcome op m n (bitwise op m n) := by
  cases hop with
  | bitAnd => exact .int nofun (toInt_and m n ▸ .bitAnd _ _)
  | bitOr => exact .int nofun (toInt_or m n ▸ .bitOr _ _)
  | bitXor => exact .int nofun (toInt_xor m n ▸ .bitXor _ _)
  | shiftLeft => exact bitOutcome_shift _ .left fun h ↦ toInt_shiftLeft m h ▸ .shiftLeft _ h
  | shiftRight => exact bitOutcome_shift _ .right fun h ↦ toInt_shiftRight m h ▸ .shiftRight _ h

theorem binary_of_onBits (hop : op.OnBits) (a b : Value) : binary op a b = onInts op a b := by
  cases hop <;> rfl

theorem bitOutcome_binary (hop : op.OnBits) (ha : a.int? = some m) (hb : b.int? = some n) :
    BitOutcome op m n (binary op a b) := by
  rw [binary_of_onBits hop, onInts, ha, hb]
  exact bitOutcome_bitwise hop m n

theorem binary_eq_null_iff (hop : op.OnBits) (a b : Value) :
    binary op a b = null ↔ a.int? = none ∨ b.int? = none ∨
      op.Shifts ∧ ∃ n, b.int? = some n ∧ ¬ IsAmount n.toInt := by
  cases ha : a.int? with
  | none =>
    rw [binary_of_onBits hop, onInts, ha]
    exact iff_of_true rfl (.inl rfl)
  | some m =>
    cases hb : b.int? with
    | none =>
      rw [binary_of_onBits hop, onInts, ha, hb]
      exact iff_of_true rfl (.inr (.inl rfl))
    | some n =>
      have houtcome := bitOutcome_binary hop ha hb
      generalize binary op a b = v at houtcome
      cases houtcome with
      | null hshifts hn => exact iff_of_true rfl (.inr (.inr ⟨hshifts, n, rfl, hn⟩))
      | int hn =>
        refine iff_of_false nofun ?_
        rintro (h | h | ⟨hshifts, n', hn', hnot⟩)
        · nomatch h
        · nomatch h
        · obtain rfl := Option.some.inj hn'
          exact hnot (hn hshifts)

theorem exists_binary_of_int? (hop : op.OnBits) (ha : a.int? = some m) (hb : b.int? = some n)
    (hn : op.Shifts → IsAmount n.toInt) :
    ∃ k, binary op a b = int k ∧ op.Yields m.toInt n.toInt k.toInt := by
  have houtcome := bitOutcome_binary hop ha hb
  generalize binary op a b = v at houtcome
  cases houtcome with
  | null hshifts hnot => exact absurd (hn hshifts) hnot
  | int _ hk => exact ⟨_, rfl, hk⟩

theorem unary_bitNot_eq_null_iff (v : Value) : unary .bitNot v = null ↔ v.int? = none := by
  rw [unary]
  cases v.int? with
  | none => exact iff_of_true rfl rfl
  | some n => exact iff_of_false nofun nofun

theorem unary_bitNot_of_int? (h : v.int? = some n) :
    ∃ k, unary .bitNot v = int k ∧ k.toInt = -n.toInt - 1 := by
  rw [unary, h]
  exact ⟨~~~n, rfl, toInt_not n⟩

/-- The operators on bits combine the integers that their operands are exactly. Their result is null
just if an operand is no such integer, or if bits are shifted by an integer that is no amount. -/
theorem bit_operators :
    (∀ v n, int? v = some n ↔ v.IsExactly n) ∧
    (∀ op a b, op.OnBits →
      (binary op a b = null ↔ a.int? = none ∨ b.int? = none ∨
        op.Shifts ∧ ∃ n, b.int? = some n ∧ ¬ IsAmount n.toInt) ∧
      ∀ m n, a.int? = some m → b.int? = some n → (op.Shifts → IsAmount n.toInt) →
        ∃ k, binary op a b = int k ∧ op.Yields m.toInt n.toInt k.toInt) ∧
    ∀ v, (unary .bitNot v = null ↔ v.int? = none) ∧
      ∀ n, v.int? = some n → ∃ k, unary .bitNot v = int k ∧ k.toInt = -n.toInt - 1 :=
  ⟨fun _ _ ↦ int?_eq_some_iff,
    fun _ a b hop ↦ ⟨binary_eq_null_iff hop a b, fun _ _ ↦ exists_binary_of_int? hop⟩,
    fun v ↦ ⟨unary_bitNot_eq_null_iff v, fun _ ↦ unary_bitNot_of_int?⟩⟩

/-- A shift to the right that rounds downwards, a shift to the left past the end of a word, a shift
by all bits, a floating-point number just past the words, and the bits of a truth value. -/
theorem bit_operators_at_limits :
    binary .shiftRight (text " -7 ") (float 1) = int (-4) ∧
      binary .shiftLeft (int 3) (text "63") = int Int64.minValue ∧
      binary .shiftLeft (int 1) (int 64) = null ∧
      binary .bitOr (float 9223372036854775808) (int 1) = null ∧
      unary .bitNot (bool true) = int (-2) := by
  obtain ⟨-, hbinary, hunary⟩ := bit_operators
  refine ⟨?_, ?_, ?_, ?_, ?_⟩
  · obtain ⟨-, hyields⟩ := hbinary .shiftRight (text " -7 ") (float 1) .shiftRight
    obtain ⟨k, hk, hy⟩ := hyields (-7) 1 (by decide +kernel) (by decide +kernel) fun _ ↦ by decide
    generalize hi : k.toInt = i at hy
    cases hy
    rw [hk, Value.int.injEq, ← Int64.toInt_inj, hi]
    decide +kernel
  · obtain ⟨-, hyields⟩ := hbinary .shiftLeft (int 3) (text "63") .shiftLeft
    obtain ⟨k, hk, hy⟩ := hyields 3 63 rfl (by decide +kernel) fun _ ↦ by decide
    generalize hi : k.toInt = i at hy
    cases hy
    rw [hk, Value.int.injEq, ← Int64.toInt_inj, hi]
    decide +kernel
  · obtain ⟨hnull, -⟩ := hbinary .shiftLeft (int 1) (int 64) .shiftLeft
    exact hnull.mpr (.inr (.inr ⟨.left, 64, rfl, by decide⟩))
  · obtain ⟨hnull, -⟩ := hbinary .bitOr (float 9223372036854775808) (int 1) .bitOr
    exact hnull.mpr (.inl (by decide +kernel))
  · obtain ⟨-, hnot⟩ := hunary (bool true)
    obtain ⟨k, hk, hi⟩ := hnot 1 rfl
    rw [hk, Value.int.injEq, ← Int64.toInt_inj, hi]
    decide

end Value

end Stencil
