import RuleScript.Proofs.Decimal.Exact

/-! Doubles made of their parts.

A double is packed into fields and unpacked again. A sign, a mantissa and an exponent that a double can have come back
from this as they are, and so the parts of a negated double and of a whole number are known.
-/

set_option autoImplicit false

namespace RuleScript.Decimal

open Float.Model (UnpackedFloat Format totalExponent)
open Float.Model.UnpackedFloat

theorem ofBitVec_toBitVec (sign : Sign) : Sign.ofBitVec sign.toBitVec = sign := by
  cases sign <;> rfl

theorem unpackSign_packComponents (sign : Sign) (exponent : BitVec 11) (mantissa : BitVec 52) :
    @unpackSign .binary64 (packComponents .binary64 sign exponent mantissa) = sign.toBitVec := by
  simp only [unpackSign, packComponents, BitVec.extractLsb]
  rw [BitVec.extractLsb'_append_eq_of_le (by omega), BitVec.extractLsb'_append_eq_of_le (by omega)]
  cases sign <;> rfl

def Binary.toFloat (b : Binary) : Float :=
  .ofModel (.pack b.unpacked)

theorem toBits_toFloat (b : Binary) : b.toFloat.toBits.toBitVec = UnpackedFloat.pack .binary64 b.unpacked :=
  rfl

theorem fields_of_components {x : Float} {b : Binary} {exponent : BitVec 11} {mantissa : BitVec 52}
    (packed : x.toBits.toBitVec = packComponents .binary64 b.sign exponent mantissa) :
    negativeBit x = b.negative ∧ exponentField x = exponent.toNat ∧ fraction x = mantissa.toNat := by
  have sign := ofBitVec_unpackSign x
  rw [packed, unpackSign_packComponents, ofBitVec_toBitVec, Binary.sign] at sign
  refine ⟨?_, ?_, ?_⟩
  · cases negative : b.negative <;> cases bit : negativeBit x <;> simp_all
  · rw [← toNat_unpackExponent, packed, unpackExponent_packComponents]
  · rw [← toNat_unpackMantissa, packed, unpackMantissa_packComponents]

/-- A mantissa of 53 bits is packed without the first, next to its exponent. -/
theorem pack_normal {b : Binary} (low : 2 ^ 52 ≤ b.mantissa) (high : b.mantissa < 2 ^ 53) (least : -1074 ≤ b.exponent)
    (most : b.exponent ≤ 971) : UnpackedFloat.pack .binary64 b.unpacked =
      packComponents .binary64 b.sign (BitVec.ofNat 11 (b.exponent + 1075).toNat) (BitVec.ofNat 52 b.mantissa) := by
  have positive : 0 < b.mantissa := by omega
  have bits : b.mantissa.log2 = 52 := (Nat.log2_eq_iff positive.ne').mpr ⟨low, high⟩
  have biased : b.exponent + (Format.binary64.exponentBias : Int) +
      (Format.binary64.mantissaBitsWithoutImplicit : Int) = b.exponent + 1075 := by
    have bias : (Format.binary64.exponentBias : Int) = 1023 := rfl
    have width : (Format.binary64.mantissaBitsWithoutImplicit : Int) = 52 := rfl
    omega
  have full : 52 + 1 = Format.binary64.mantissaBits := rfl
  have small : ¬(2 ^ Format.binary64.exponentBits ≤ (b.exponent + 1075).toNat + 1) := by
    change ¬(2048 ≤ _)
    omega
  rw [Binary.unpacked, dif_pos positive, UnpackedFloat.pack]
  simp only [biased, bits]
  rw [if_neg small, if_pos full]

theorem pack_subnormal {b : Binary} (low : b.mantissa < 2 ^ 52) (least : b.exponent = -1074) :
    UnpackedFloat.pack .binary64 b.unpacked =
      packComponents .binary64 b.sign 0#11 (BitVec.ofNat 52 b.mantissa) := by
  by_cases positive : 0 < b.mantissa
  · have bits : ¬(b.mantissa.log2 + 1 = Format.binary64.mantissaBits) := fun full => by
      have first := Nat.log2_self_le positive.ne'
      have bits : b.mantissa.log2 = 52 := Nat.succ.inj full
      rw [bits] at first
      omega
    rw [Binary.unpacked, dif_pos positive, UnpackedFloat.pack, least]
    simp only
    rw [if_neg (by decide), if_neg bits]
  · rw [Binary.unpacked, dif_neg positive, Nat.eq_zero_of_not_pos positive]
    rfl

theorem ofFloat?_toFloat {b : Binary} (canonical : b.Canonical) : Binary.ofFloat? b.toFloat = some b := by
  obtain ⟨negative, mantissa, exponent⟩ := b
  rcases canonical with ⟨low, high, least, most⟩ | ⟨low, rfl⟩
  · have packed := (toBits_toFloat _).trans (pack_normal low high least most)
    obtain ⟨sign, field, rest⟩ := fields_of_components packed
    simp only [BitVec.toNat_ofNat] at sign field rest low high least most
    rw [ofFloat?_eq, if_neg (by omega), if_neg (by omega), sign]
    simp only [Option.some.injEq, Binary.mk.injEq, true_and]
    omega
  · have packed := (toBits_toFloat _).trans (pack_subnormal low rfl)
    obtain ⟨sign, field, rest⟩ := fields_of_components packed
    simp only [BitVec.toNat_ofNat] at sign field rest low
    rw [ofFloat?_eq, if_neg (by omega), if_pos (by omega), sign]
    simp only [Option.some.injEq, Binary.mk.injEq, true_and, and_true]
    omega

theorem unpack_toFloat {b : Binary} (canonical : b.Canonical) : b.toFloat.toModel.unpack = b.unpacked :=
  unpack_of_ofFloat? (ofFloat?_toFloat canonical)

def Binary.neg (b : Binary) : Binary :=
  { b with negative := !b.negative }

theorem sign_neg (b : Binary) : b.neg.sign = -b.sign := by
  unfold Binary.sign Binary.neg
  cases b.negative <;> rfl

theorem unpacked_neg (b : Binary) : b.unpacked.neg = b.neg.unpacked := by
  have same : b.neg.mantissa = b.mantissa := rfl
  by_cases positive : 0 < b.mantissa
  · rw [Binary.unpacked, Binary.unpacked, dif_pos positive, dif_pos (same ▸ positive), sign_neg]
    rfl
  · rw [Binary.unpacked, Binary.unpacked, dif_neg positive, dif_neg (same ▸ positive), sign_neg]
    rfl

theorem ofFloat?_neg {x : Float} {b : Binary} (finite : Binary.ofFloat? x = some b) :
    Binary.ofFloat? (-x) = some b.neg := by
  have negated : -x = b.neg.toFloat := by
    change Float.ofModel (.pack (UnpackedFloat.unpack .binary64 x.toBits.toBitVec).neg) = _
    rw [unpack_of_ofFloat? finite, unpacked_neg]
    rfl
  have canonical : b.Canonical := canonical_of_ofFloat? finite
  rw [negated]
  exact ofFloat?_toFloat canonical

theorem truncate_neg (b : Binary) : b.neg.truncate = -b.truncate := by
  have same : b.neg.ratio = b.ratio := rfl
  unfold Binary.truncate Binary.signed
  rw [same]
  cases negative : b.negative <;> simp [Binary.neg, negative]

/-- Cutting a negated number gives the negated whole number, unless it does not fit. -/
theorem truncate64_neg {x : Float} (above : int64Min < truncate64 x) (below : truncate64 x < int64Max) :
    truncate64 (-x) = -truncate64 x := by
  cases finite : Binary.ofFloat? x with
  | some b =>
    simp only [truncate64, toInt64, finite, ofFloat?_neg finite, truncate_neg, clamp64, int64Min, int64Max]
      at above below ⊢
    omega
  | none =>
    -- What is no number is cut to 0, and an infinity does not fit.
    by_cases number : x.isNaN = true
    · obtain rfl : x = Float.nan := by simpa using number
      decide +kernel
    · by_cases negative : x < 0
      · have least : truncate64 x = int64Min := by
          simp only [truncate64, toInt64, finite, if_neg number, if_pos negative]
        exact absurd above (by simp [least])
      · have most : truncate64 x = int64Max := by
          simp only [truncate64, toInt64, finite, if_neg number, if_neg negative]
        exact absurd below (by simp [most])

/-! ## Whole numbers -/

/-- The exponent that leaves 53 bits to a mantissa, or the least one. -/
theorem targetExponent_eq (mantissa : Nat) (exponent : Int) :
    Format.binary64.targetExponent (totalExponent mantissa exponent) =
      max (mantissa.log2 + 1 + exponent - 53) (-1074) :=
  rfl

theorem shiftRight_exact (mantissa places : Nat) :
    (⟨mantissa * 2 ^ places, false, false⟩ : ExtendedMantissa) >>> places = ⟨mantissa, false, false⟩ := by
  induction places generalizing mantissa with
  | zero => rw [pow_zero, mul_one]; rfl
  | succ places ih =>
    have inner := ih (mantissa * 2)
    rw [mul_assoc, ← pow_succ'] at inner
    -- The last place is shifted behind the others, and it is zero as well.
    change ExtendedMantissa.shiftRightOne
      ((⟨mantissa * 2 ^ (places + 1), false, false⟩ : ExtendedMantissa) >>> places) = _
    rw [inner]
    simp [ExtendedMantissa.shiftRightOne]

theorem log2_mul_two_pow {mantissa : Nat} (low : 2 ^ 52 ≤ mantissa) (high : mantissa < 2 ^ 53) (places : Nat) :
    (mantissa * 2 ^ places).log2 = 52 + places := by
  have positive : 0 < 2 ^ places := Nat.two_pow_pos places
  refine (Nat.log2_eq_iff (Nat.mul_pos (by omega) positive).ne').mpr ⟨?_, ?_⟩
  · rw [pow_add]
    exact Nat.mul_le_mul_right _ low
  · rw [Nat.add_right_comm, pow_add]
    exact Nat.mul_lt_mul_of_pos_right high positive

section Full

variable {mantissa : Nat} {exponent : Int}
variable (low : 2 ^ 52 ≤ mantissa) (high : mantissa < 2 ^ 53) (least : -1074 ≤ exponent)

include low high least

theorem shiftToTargetExponent_exact (places : Nat) :
    shiftToTargetExponent .binary64 (mantissa * 2 ^ places) (exponent - places) .exact =
      (⟨mantissa, false, false⟩, exponent) := by
  have target : Format.binary64.targetExponent (totalExponent (mantissa * 2 ^ places) (exponent - places)) =
      exponent := by
    rw [targetExponent_eq, log2_mul_two_pow low high]
    omega
  have behind : (exponent - (exponent - places)).toNat = places := by omega
  simp only [shiftToTargetExponent, shiftToExponent, target, behind, ExtendedMantissa.ofMantissaAndAccuracy,
    shiftRight_exact, Int.sub_add_cancel]

/-- It is rounded to itself: after the first shift nothing is left to round, and a second one is by no place. -/
theorem round_exact (sign : Sign) (places : Nat) :
    roundWithAccuracy .binary64 sign (mantissa * 2 ^ places) (exponent - places) .exact =
      .finite sign mantissa exponent (by omega) := by
  have first := shiftToTargetExponent_exact low high least places
  have second := shiftToTargetExponent_exact low high least 0
  simp only [pow_zero, mul_one, Nat.cast_zero, sub_zero] at second
  have kept : (⟨mantissa, false, false⟩ : ExtendedMantissa).roundedMantissa = mantissa := rfl
  simp only [roundWithAccuracy, first, kept, second]
  rw [dif_neg (by omega)]

end Full

/-- Multiplying by one only puts 52 zeros behind the mantissa. -/
theorem mul_one_unpacked {b : Binary} (low : 2 ^ 52 ≤ b.mantissa) (high : b.mantissa < 2 ^ 53)
    (least : -1074 ≤ b.exponent) (unsigned : b.negative = false) :
    UnpackedFloat.mul .binary64 b.unpacked (.finite .positive (2 ^ 52) (-52) (by decide)) = b.unpacked := by
  have filled : 0 < b.mantissa := by omega
  have sign : b.sign = .positive := by rw [Binary.sign, unsigned]; rfl
  rw [Binary.unpacked, dif_pos filled, sign]
  exact round_exact low high least .positive 52

def Binary.ofNat (n : Nat) : Binary :=
  ⟨false, n * 2 ^ (52 - n.log2), (n.log2 : Int) - 52⟩

section Small

variable {n : Nat} (positive : 0 < n) (small : n < 2 ^ 53)

include positive small

theorem log2_le : n.log2 ≤ 52 :=
  Nat.lt_succ_iff.mp ((Nat.log2_lt positive.ne').mpr small)

theorem bounds_ofNat : 2 ^ 52 ≤ (Binary.ofNat n).mantissa ∧ (Binary.ofNat n).mantissa < 2 ^ 53 := by
  have bits : n.log2 + (52 - n.log2) = 52 := Nat.add_sub_cancel' (log2_le positive small)
  have more := Nat.two_pow_pos (52 - n.log2)
  constructor
  · calc 2 ^ 52 = 2 ^ n.log2 * 2 ^ (52 - n.log2) := by rw [← pow_add, bits]
      _ ≤ _ := Nat.mul_le_mul_right _ (Nat.log2_self_le positive.ne')
  · calc n * 2 ^ (52 - n.log2) < 2 ^ (n.log2 + 1) * 2 ^ (52 - n.log2) :=
          Nat.mul_lt_mul_of_pos_right Nat.lt_log2_self more
      _ = 2 ^ 53 := by rw [← pow_add, Nat.add_right_comm, bits]

theorem least_ofNat : -1074 ≤ (Binary.ofNat n).exponent := by
  have bits := log2_le positive small
  change -1074 ≤ (n.log2 : Int) - 52
  omega

theorem canonical_ofNat : (Binary.ofNat n).Canonical := by
  obtain ⟨low, high⟩ := bounds_ofNat positive small
  have bits := log2_le positive small
  refine .inl ⟨low, high, least_ofNat positive small, ?_⟩
  change (n.log2 : Int) - 52 ≤ 971
  omega

theorem unpacked_ofNat : UnpackedFloat.ofNat .binary64 n = (Binary.ofNat n).unpacked := by
  obtain ⟨low, high⟩ := bounds_ofNat positive small
  have bits := log2_le positive small
  have order : compare (n : Int) 0 = .gt := Int.compare_eq_gt.mpr (by omega)
  have target : Format.binary64.targetExponent (totalExponent n 0) = (n.log2 : Int) - 52 := by
    rw [targetExponent_eq]
    omega
  have places : (0 - ((n.log2 : Int) - 52)).toNat = 52 - n.log2 := by omega
  have exponent : 0 - ((52 - n.log2 : Nat) : Int) = (n.log2 : Int) - 52 := by omega
  have kept := round_exact low high (least_ofNat positive small) .positive 0
  simp only [pow_zero, mul_one, Nat.cast_zero, sub_zero] at kept
  simp only [UnpackedFloat.ofNat, UnpackedFloat.ofInt, UnpackedFloat.normalize, order, Int.toNat_natCast,
    UnpackedFloat.round, target, decreaseExponent, places, exponent, Nat.shiftLeft_eq]
  rw [Binary.unpacked, dif_pos (by omega)]
  exact kept

theorem value_ofNat : (Binary.ofNat n).value = n := by
  have bits := log2_le positive small
  have exponent : (n.log2 : Int) - 52 = -((52 - n.log2 : Nat) : Int) := by omega
  have power : (2 : ℚ) ^ (52 - n.log2) ≠ 0 := by positivity
  simp only [Binary.value, Binary.ofNat, Binary.signed, exponent, zpow_neg, zpow_natCast]
  simp [power]

theorem toFloat_toUInt64 : n.toUInt64.toFloat = (Binary.ofNat n).toFloat := by
  have word : n.toUInt64.toNat = n := UInt64.toNat_ofNat_of_lt' (by change n < 2 ^ 64; omega)
  change Float.ofModel (.pack (UnpackedFloat.ofNat .binary64 n.toUInt64.toNat)) = _
  rw [word, unpacked_ofNat positive small]
  rfl

/-- A whole number is made like a decimal without places, from a machine word and a power of ten, which is one. -/
theorem ofNat_eq : Float.ofNat n = (Binary.ofNat n).toFloat := by
  obtain ⟨low, high⟩ := bounds_ofNat positive small
  have one : (Float.ofBits 0x3FF0000000000000).toModel.unpack = .finite .positive (2 ^ 52) (-52) (by decide) := rfl
  have times : Float.ofNat n = n.toUInt64.toFloat * Float.ofBits 0x3FF0000000000000 :=
    dif_pos ⟨small, by decide⟩
  rw [times, toFloat_toUInt64 positive small]
  change Float.ofModel (.pack (UnpackedFloat.mul .binary64 (Binary.ofNat n).toFloat.toModel.unpack _)) = _
  rw [one, unpack_toFloat (canonical_ofNat positive small),
    mul_one_unpacked low high (least_ofNat positive small) rfl]
  rfl

end Small

theorem ofFloat?_ofNat {n : Nat} (small : n < 2 ^ 53) :
    ∃ b, Binary.ofFloat? (Float.ofNat n) = some b ∧ b.value = n := by
  by_cases positive : 0 < n
  · refine ⟨Binary.ofNat n, ?_, value_ofNat positive small⟩
    rw [ofNat_eq positive small, ofFloat?_toFloat (canonical_ofNat positive small)]
  · rw [Nat.eq_zero_of_not_pos positive]
    exact ⟨⟨false, 0, -1074⟩, by decide +kernel, by simp [Binary.value, Binary.signed]⟩

theorem value_neg (b : Binary) : b.neg.value = -b.value := by
  unfold Binary.value Binary.signed Binary.neg
  cases b.negative <;> simp

theorem ofFloat?_ofInt {n : Int} (small : n.natAbs < 2 ^ 53) :
    ∃ b, Binary.ofFloat? (Float.ofInt n) = some b ∧ b.value = n := by
  cases n with
  | ofNat n => exact ofFloat?_ofNat small
  | negSucc n =>
    obtain ⟨b, finite, value⟩ := ofFloat?_ofNat small
    refine ⟨b.neg, ofFloat?_neg finite, ?_⟩
    rw [value_neg, value]
    simp

theorem truncate64_ofInt {n : Int} (small : n.natAbs < 2 ^ 53) : truncate64 (Float.ofInt n) = n := by
  obtain ⟨b, finite, value⟩ := ofFloat?_ofInt small
  have whole := Binary.value_of_isWhole (Binary.isWhole_of_value value)
  have same : b.truncate = n := by exact_mod_cast whole.symm.trans value
  simp only [truncate64, toInt64, finite, same, clamp64, int64Min, int64Max]
  omega

end RuleScript.Decimal
