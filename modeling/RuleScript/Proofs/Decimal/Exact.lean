import Mathlib
import RuleScript.Decimal.Binary

/-! The number that a double stands for.

A finite double is a fraction. Whether it is whole, what it is when cut to a whole number, and whether zero is at most
it are questions about that fraction.
-/

set_option autoImplicit false

namespace RuleScript.Decimal

open Float.Model (UnpackedFloat)

def negativeBit (x : Float) : Bool :=
  x.toBits.toNat / 2 ^ 63 = 1

def exponentField (x : Float) : Nat :=
  x.toBits.toNat / 2 ^ 52 % 2 ^ 11

def fraction (x : Float) : Nat :=
  x.toBits.toNat % 2 ^ 52

theorem ofFloat?_eq (x : Float) : Binary.ofFloat? x =
    if exponentField x = 2047 then none
    else if exponentField x = 0 then some ⟨negativeBit x, fraction x, -1074⟩
    else some ⟨negativeBit x, fraction x + 2 ^ 52, (exponentField x : Int) - 1075⟩ :=
  rfl

theorem toNat_unpackExponent (x : Float) :
    (@UnpackedFloat.unpackExponent .binary64 x.toBits.toBitVec).toNat = exponentField x := by
  simp [UnpackedFloat.unpackExponent, exponentField, Nat.shiftRight_eq_div_pow]

theorem toNat_unpackMantissa (x : Float) :
    (@UnpackedFloat.unpackMantissa .binary64 x.toBits.toBitVec).toNat = fraction x := by
  simp [UnpackedFloat.unpackMantissa, fraction, Nat.shiftRight_eq_div_pow]

theorem ofBitVec_unpackSign (x : Float) :
    UnpackedFloat.Sign.ofBitVec (@UnpackedFloat.unpackSign .binary64 x.toBits.toBitVec) =
      if negativeBit x then .negative else .positive := by
  have bound := x.toBits.toNat_lt
  have sign : @UnpackedFloat.unpackSign .binary64 x.toBits.toBitVec = 0#1 ↔ x.toBits.toNat / 2 ^ 63 = 0 := by
    rw [← BitVec.toNat_inj]
    simp [UnpackedFloat.unpackSign, Nat.shiftRight_eq_div_pow]
    omega
  simp only [UnpackedFloat.Sign.ofBitVec, negativeBit, decide_eq_true_iff, sign]
  split <;> split <;> first | rfl | omega

theorem fraction_lt (x : Float) : fraction x < 2 ^ 52 :=
  Nat.mod_lt _ (by decide)

theorem exponentField_lt (x : Float) : exponentField x < 2048 :=
  Nat.mod_lt _ (by decide)

namespace Binary

def sign (b : Binary) : UnpackedFloat.Sign :=
  if b.negative then .negative else .positive

def unpacked (b : Binary) : UnpackedFloat :=
  if positive : 0 < b.mantissa then .finite b.sign b.mantissa b.exponent positive else .zero b.sign

/-- The parts that a double can have: a mantissa of 53 bits, or a shorter one with the least exponent. -/
def Canonical (b : Binary) : Prop :=
  (2 ^ 52 ≤ b.mantissa ∧ b.mantissa < 2 ^ 53 ∧ -1074 ≤ b.exponent ∧ b.exponent ≤ 971) ∨
    (b.mantissa < 2 ^ 52 ∧ b.exponent = -1074)

end Binary

theorem canonical_of_ofFloat? {x : Float} {b : Binary} (finite : Binary.ofFloat? x = some b) : b.Canonical := by
  have short := fraction_lt x
  have field := exponentField_lt x
  rw [ofFloat?_eq] at finite
  split at finite
  · cases finite
  · split at finite
    · cases finite
      exact .inr ⟨short, rfl⟩
    · cases finite
      refine .inl ⟨?_, ?_, ?_, ?_⟩ <;> dsimp only <;> omega

theorem toNat_one_append (mantissa : BitVec 52) : (1#1 ++ mantissa).toNat = mantissa.toNat + 2 ^ 52 := by
  rw [BitVec.toNat_append, ← Nat.shiftLeft_add_eq_or_of_lt mantissa.isLt, Nat.add_comm]
  rfl

theorem unpack_of_ofFloat? {x : Float} {b : Binary} (finite : Binary.ofFloat? x = some b) :
    UnpackedFloat.unpack .binary64 x.toBits.toBitVec = b.unpacked := by
  have highest : @UnpackedFloat.unpackExponent .binary64 x.toBits.toBitVec = -1#11 ↔ exponentField x = 2047 := by
    rw [← BitVec.toNat_inj, toNat_unpackExponent]
    rfl
  have lowest : @UnpackedFloat.unpackExponent .binary64 x.toBits.toBitVec = 0#11 ↔ exponentField x = 0 := by
    rw [← BitVec.toNat_inj, toNat_unpackExponent]
    rfl
  have flat : @UnpackedFloat.unpackMantissa .binary64 x.toBits.toBitVec = 0#52 ↔ fraction x = 0 := by
    rw [← BitVec.toNat_inj, toNat_unpackMantissa]
    rfl
  have bias : ((Float.Model.Format.binary64.exponentBias : Nat) : Int) + 52 = 1075 := rfl
  rw [UnpackedFloat.unpack, ofBitVec_unpackSign]
  rw [ofFloat?_eq] at finite
  -- The infinities and what is no number have no parts; of the others the smallest have no leading bit.
  by_cases top : exponentField x = 2047
  · simp [top] at finite
  rw [if_neg (mt highest.mp top)]
  by_cases low : exponentField x = 0
  · obtain rfl : ⟨negativeBit x, fraction x, -1074⟩ = b := by simpa [low] using finite
    rw [if_pos (lowest.mpr low)]
    by_cases zero : fraction x = 0
    · rw [dif_pos (flat.mpr zero)]
      simp [Binary.unpacked, zero, Binary.sign]
    · rw [dif_neg (mt flat.mp zero)]
      simp [Binary.unpacked, Nat.pos_of_ne_zero zero, Binary.sign, toNat_unpackMantissa, toNat_unpackExponent, low,
        bias]
  · obtain rfl : ⟨negativeBit x, fraction x + 2 ^ 52, (exponentField x : Int) - 1075⟩ = b := by
      simpa [low, top] using finite
    rw [if_neg (mt lowest.mp low)]
    simp [Binary.unpacked, Binary.sign, toNat_unpackMantissa, toNat_unpackExponent, toNat_one_append, bias]

theorem zero_le_finite (negative : Bool) (mantissa : Nat) (exponent : Int) (positive : 0 < mantissa) :
    UnpackedFloat.le (.zero .positive)
      (.finite (if negative then .negative else .positive) mantissa exponent positive) = !negative := by
  cases negative <;> rfl

theorem zero_le_iff {x : Float} {b : Binary} (finite : Binary.ofFloat? x = some b) :
    (0.0 : Float) ≤ x ↔ b.negative = false ∨ b.mantissa = 0 := by
  have compared : (0.0 : Float) ≤ x ↔
      UnpackedFloat.le (.zero .positive) (UnpackedFloat.unpack .binary64 x.toBits.toBitVec) = true := by
    change decide (UnpackedFloat.le _ _ = true) = true ↔ _
    rw [decide_eq_true_iff]
    exact Iff.rfl
  rw [compared, unpack_of_ofFloat? finite]
  unfold Binary.unpacked Binary.sign
  by_cases positive : 0 < b.mantissa
  · rw [dif_pos positive, or_iff_left positive.ne', zero_le_finite, Bool.not_eq_true']
  · rw [dif_neg positive]
    exact iff_of_true (by cases b.negative <;> rfl) (.inr (Nat.eq_zero_of_not_pos positive))

namespace Binary

def value (b : Binary) : ℚ :=
  (b.signed b.mantissa : ℚ) * 2 ^ b.exponent

theorem ratio_pos (b : Binary) : 0 < b.ratio.2 := by
  unfold ratio
  split
  · exact Nat.one_pos
  · exact Nat.two_pow_pos _

theorem value_eq_ratio (b : Binary) : b.value = (b.signed b.ratio.1 : ℚ) / b.ratio.2 := by
  obtain ⟨negative, mantissa, exponent⟩ := b
  cases exponent with
  | ofNat e => cases negative <;> simp [value, signed, ratio]
  | negSucc e => cases negative <;> simp [value, signed, ratio, zpow_negSucc, div_eq_mul_inv]

theorem signed_mul (b : Binary) (m n : Nat) : b.signed (m * n) = b.signed m * n := by
  unfold signed
  split <;> simp

theorem natAbs_signed (b : Binary) (m : Nat) : (b.signed m).natAbs = m := by
  unfold signed
  split <;> simp

/-- A number is whole if its numerator is a multiple of its denominator, and then cutting it leaves it. -/
theorem value_of_isWhole {b : Binary} (whole : b.isWhole = true) : b.value = b.truncate := by
  have rest : b.ratio.1 % b.ratio.2 = 0 := of_decide_eq_true whole
  have positive : (b.ratio.2 : ℚ) ≠ 0 := Nat.cast_ne_zero.mpr b.ratio_pos.ne'
  have same : b.signed b.ratio.1 = b.truncate * b.ratio.2 := by
    change _ = b.signed (b.ratio.1 / b.ratio.2) * _
    rw [← signed_mul, Nat.div_mul_cancel (Nat.dvd_of_mod_eq_zero rest)]
  rw [value_eq_ratio, div_eq_iff positive, same, Int.cast_mul, Int.cast_natCast]

theorem isWhole_of_value {b : Binary} {n : ℤ} (whole : b.value = n) : b.isWhole = true := by
  have positive : (b.ratio.2 : ℚ) ≠ 0 := Nat.cast_ne_zero.mpr b.ratio_pos.ne'
  rw [value_eq_ratio, div_eq_iff positive] at whole
  have same : b.signed b.ratio.1 = n * b.ratio.2 := by exact_mod_cast whole
  have multiple : b.ratio.1 = n.natAbs * b.ratio.2 := by
    rw [← natAbs_signed b b.ratio.1, same, Int.natAbs_mul, Int.natAbs_natCast]
  exact decide_eq_true (Nat.mod_eq_zero_of_dvd ⟨n.natAbs, multiple.trans (Nat.mul_comm _ _)⟩)

theorem value_nonneg_iff (b : Binary) : 0 ≤ b.value ↔ b.negative = false ∨ b.mantissa = 0 := by
  have power : (0 : ℚ) < 2 ^ b.exponent := by positivity
  rw [value, mul_nonneg_iff_of_pos_right power, Int.cast_nonneg_iff, signed]
  cases b.negative <;> simp

end Binary

theorem zero_le_iff_value {x : Float} {b : Binary} (finite : Binary.ofFloat? x = some b) :
    (0.0 : Float) ≤ x ↔ 0 ≤ b.value := by
  rw [zero_le_iff finite, b.value_nonneg_iff]

end RuleScript.Decimal
