import Apiary.Number.Double
import Mathlib

/-!
Comparisons of doubles, told by their fields. The float that a finite double is compared as has its sign, significand
and exponent.
-/

namespace Apiary.Double

open Float.Model (Format UnpackedFloat)
open Float.Model.UnpackedFloat (Sign unpackSign unpackExponent unpackMantissa)

abbrev layout : Format := Format.binary64

def signBit (x : Double) : BitVec 1 := @unpackSign layout x.bits.toBitVec

def exponentBits (x : Double) : BitVec 11 := @unpackExponent layout x.bits.toBitVec

def mantissaBits (x : Double) : BitVec 52 := @unpackMantissa layout x.bits.toBitVec

def sign (x : Double) : Sign := if x.isNegative then .negative else .positive

variable {x y : Double}

theorem toNat_exponentBits (x : Double) : x.exponentBits.toNat = x.exponentField := by
  have hand := Nat.and_two_pow_sub_one_eq_mod (x.bits.toNat >>> 52) 11
  simp only [exponentField, UInt64.toNat_and, UInt64.toNat_shiftRight]
  exact hand.symm

theorem toNat_mantissaBits (x : Double) : x.mantissaBits.toNat = x.fractionField := by
  have hand := Nat.and_two_pow_sub_one_eq_mod x.bits.toNat 52
  simp only [fractionField, UInt64.toNat_and]
  exact hand.symm

theorem sign_eq (x : Double) : Sign.ofBitVec x.signBit = x.sign := by
  have hlt := x.bits.toNat_lt
  have hbit : x.signBit.toNat = x.bits.toNat >>> 63 := by
    show (x.bits.toNat >>> 63) % 2 = _
    rw [Nat.shiftRight_eq_div_pow]
    omega
  have hnegative : x.isNegative = true ↔ x.bits.toNat >>> 63 = 1 := by
    simp only [isNegative, beq_iff_eq, ← UInt64.toNat_inj, UInt64.toNat_shiftRight]
    rfl
  have hcases : x.bits.toNat >>> 63 = 0 ∨ x.bits.toNat >>> 63 = 1 := by
    rw [Nat.shiftRight_eq_div_pow]
    omega
  rw [Sign.ofBitVec, sign]
  rcases hcases with h | h
  · rw [if_pos (by rw [← BitVec.toNat_inj, hbit, h]; rfl), if_neg (by rw [hnegative, h]; decide)]
  · rw [if_neg (fun hz => by rw [← BitVec.toNat_inj, hbit, h] at hz; cases hz), if_pos (hnegative.mpr h)]

theorem exponentField_eq (x : Double) : x.exponentField = x.bits.toNat / 0x10000000000000 % 2048 := by
  rw [← toNat_exponentBits]
  show (x.bits.toNat >>> 52) % 2048 = _
  rw [Nat.shiftRight_eq_div_pow]

theorem fractionField_eq (x : Double) : x.fractionField = x.bits.toNat % 0x10000000000000 :=
  (toNat_mantissaBits x).symm

theorem toNat_magnitude (x : Double) : x.magnitude.bits.toNat = x.bits.toNat % 0x8000000000000000 := by
  rw [magnitude, UInt64.toNat_and]
  exact Nat.and_two_pow_sub_one_eq_mod x.bits.toNat 63

theorem isFinite_iff : x.isFinite = true ↔ x.exponentField < 2047 := by
  rw [isFinite, decide_eq_true_eq, UInt64.lt_iff_toNat_lt, toNat_magnitude, exponentField_eq]
  show _ < 0x7ff0000000000000 ↔ _
  omega

theorem exponentField_magnitude (x : Double) : x.magnitude.exponentField = x.exponentField := by
  rw [exponentField_eq, exponentField_eq, toNat_magnitude]
  omega

theorem fractionField_magnitude (x : Double) : x.magnitude.fractionField = x.fractionField := by
  rw [fractionField_eq, fractionField_eq, toNat_magnitude]
  omega

theorem isFinite_magnitude (x : Double) : x.magnitude.isFinite = x.isFinite := by
  rw [Bool.eq_iff_iff, isFinite_iff, isFinite_iff, exponentField_magnitude]

theorem significand_magnitude (x : Double) : x.magnitude.significand = x.significand := by
  rw [significand, significand, exponentField_magnitude, fractionField_magnitude]

theorem exponent_magnitude (x : Double) : x.magnitude.exponent = x.exponent := by
  rw [exponent, exponent, exponentField_magnitude]

theorem exponentBits_eq_zero : x.exponentBits = 0#11 ↔ x.exponentField = 0 := by
  rw [← BitVec.toNat_inj, toNat_exponentBits]
  rfl

theorem exponentBits_ne (h : x.exponentField < 2047) : x.exponentBits ≠ -1#11 := by
  intro heq
  have hexponent := toNat_exponentBits x
  rw [heq] at hexponent
  have : (2047 : Nat) = x.exponentField := hexponent
  omega

theorem mantissaBits_eq_zero : x.mantissaBits = 0#52 ↔ x.fractionField = 0 := by
  rw [← BitVec.toNat_inj, toNat_mantissaBits]
  rfl

theorem fractionField_lt (x : Double) : x.fractionField < 0x10000000000000 := by
  rw [fractionField_eq]
  exact Nat.mod_lt _ (by decide)

theorem significand_lt (x : Double) : x.significand < 0x20000000000000 := by
  have := fractionField_lt x
  unfold significand
  split <;> omega

theorem finite_congr {s : Sign} {m m' : Nat} {e e' : Int} {h : 0 < m} (hm : m = m') (he : e = e') :
    UnpackedFloat.finite s m e h = .finite s m' e' (hm ▸ h) := by
  subst hm he
  rfl

theorem unpack_bits (h : x.exponentField < 2047) : UnpackedFloat.unpack layout x.bits.toBitVec =
    if hm : x.significand = 0 then .zero x.sign
    else .finite x.sign x.significand x.exponent (Nat.pos_of_ne_zero hm) := by
  have hexponent := toNat_exponentBits x
  have hfraction := toNat_mantissaBits x
  rw [← sign_eq]
  show (if x.exponentBits = -1#11 then _ else if x.exponentBits = 0#11 then _ else _) = _
  rw [if_neg (exponentBits_ne h)]
  by_cases hzero : x.exponentField = 0
  · have hsignificand : x.significand = x.fractionField := if_pos hzero
    rw [if_pos (exponentBits_eq_zero.mpr hzero)]
    show (if hm : x.mantissaBits = 0#52 then _ else _) = _
    by_cases hnone : x.fractionField = 0
    · rw [dif_pos (mantissaBits_eq_zero.mpr hnone), dif_pos (hsignificand.trans hnone)]
      rfl
    · rw [dif_neg (mt mantissaBits_eq_zero.mp hnone), dif_neg (by rwa [hsignificand])]
      refine finite_congr (hfraction.trans hsignificand.symm) ?_
      show (x.exponentBits.toNat : Int) - (1023 + 52) + 1 = _
      rw [hexponent, hzero, exponent, hzero]
      rfl
  · have hsignificand : x.significand = x.fractionField + 0x10000000000000 := if_neg hzero
    rw [if_neg (mt exponentBits_eq_zero.mp hzero), dif_neg (by omega)]
    refine finite_congr ?_ ?_
    · show (1#1 ++ x.mantissaBits).toNat = _
      rw [BitVec.toNat_append, ← Nat.shiftLeft_add_eq_or_of_lt x.mantissaBits.isLt, hfraction, hsignificand, Nat.add_comm]
      rfl
    · show (x.exponentBits.toNat : Int) - (1023 + 52) = _
      rw [hexponent, exponent]
      omega

theorem pack_bits (h : x.exponentField < 2047) :
    UnpackedFloat.pack layout (UnpackedFloat.unpack layout x.bits.toBitVec) = x.bits.toBitVec := by
  rw [UnpackedFloat.pack_unpack, if_neg]
  simp only [UnpackedFloat.isNaNBits, decide_eq_true_eq, not_and_or]
  exact .inl (exponentBits_ne h)

theorem unpack_toFloat (h : x.isFinite = true) : x.toFloat.toModel.unpack =
    if hm : x.significand = 0 then .zero x.sign
    else .finite x.sign x.significand x.exponent (Nat.pos_of_ne_zero hm) := by
  have hfield := isFinite_iff.mp h
  show UnpackedFloat.unpack layout (UnpackedFloat.pack layout (UnpackedFloat.unpack layout x.bits.toBitVec)) = _
  rw [pack_bits hfield, unpack_bits hfield]

theorem lt_iff : x < y ↔ UnpackedFloat.lt x.toFloat.toModel.unpack y.toFloat.toModel.unpack = true :=
  decide_eq_true_iff (p := x.toFloat.toModel < y.toFloat.toModel)

theorem le_iff : x ≤ y ↔ UnpackedFloat.le x.toFloat.toModel.unpack y.toFloat.toModel.unpack = true :=
  decide_eq_true_iff (p := x.toFloat.toModel ≤ y.toFloat.toModel)

theorem unpack_zero : (0 : Double).toFloat.toModel.unpack = .zero .positive :=
  unpack_toFloat (x := 0) (by decide)

theorem nonneg_iff (h : x.isFinite = true) : 0 ≤ x ↔ x.significand = 0 ∨ x.isNegative = false := by
  rw [le_iff, unpack_zero, unpack_toFloat h]
  split
  · next hzero => simp [hzero, UnpackedFloat.le, UnpackedFloat.compare]
  · next hsome => cases hnegative : x.isNegative <;> simp [hsome, sign, hnegative, UnpackedFloat.le, UnpackedFloat.compare]

theorem beq_zero_iff (h : x.isFinite = true) : (x == 0) = true ↔ x.significand = 0 := by
  show UnpackedFloat.beq x.toFloat.toModel.unpack (0 : Double).toFloat.toModel.unpack = true ↔ _
  rw [unpack_zero, unpack_toFloat h]
  split
  · next hzero => simp [hzero, UnpackedFloat.beq, UnpackedFloat.compare]
  · next hsome => cases hnegative : x.isNegative <;> simp [hsome, sign, hnegative, UnpackedFloat.beq, UnpackedFloat.compare]

theorem lt_positive_iff (hx : x.isFinite = true) (hy : y.isFinite = true) (hpositive : y.isNegative = false)
    (hnonzero : y.significand ≠ 0) : x < y ↔ x.isNegative = true ∨ x.significand = 0 ∨ x.exponent < y.exponent ∨
      x.exponent = y.exponent ∧ x.significand < y.significand := by
  rw [lt_iff, unpack_toFloat hx, unpack_toFloat hy, dif_neg hnonzero]
  split
  · next hzero => simp [hzero, sign, hpositive, UnpackedFloat.lt, UnpackedFloat.compare]
  · next hsome =>
    cases hnegative : x.isNegative
    · simp [hsome, sign, hnegative, hpositive, UnpackedFloat.lt, UnpackedFloat.compare, Ordering.then_eq_lt,
        Int.compare_eq_lt, Nat.compare_eq_lt]
    · simp [sign, hnegative, hpositive, UnpackedFloat.lt, UnpackedFloat.compare]

theorem positive_le_iff (hx : x.isFinite = true) (hy : y.isFinite = true) (hpositive : y.isNegative = false)
    (hnonzero : y.significand ≠ 0) : y ≤ x ↔ x.isNegative = false ∧ x.significand ≠ 0 ∧
      (y.exponent < x.exponent ∨ y.exponent = x.exponent ∧ y.significand ≤ x.significand) := by
  rw [le_iff, unpack_toFloat hx, unpack_toFloat hy, dif_neg hnonzero]
  split
  · next hzero => simp [hzero, sign, hpositive, UnpackedFloat.le, UnpackedFloat.compare]
  · next hsome =>
    cases hnegative : x.isNegative
    · simp [hsome, sign, hnegative, hpositive, UnpackedFloat.le, UnpackedFloat.compare, Ordering.isLE_then_iff_or,
        Int.compare_eq_lt, Nat.isLE_compare]
    · simp [sign, hnegative, hpositive, UnpackedFloat.le, UnpackedFloat.compare]

theorem lt_zero_iff (h : x.isFinite = true) : x < 0 ↔ x.significand ≠ 0 ∧ x.isNegative = true := by
  rw [lt_iff, unpack_zero, unpack_toFloat h]
  split
  · next hzero => simp [hzero, UnpackedFloat.lt, UnpackedFloat.compare]
  · next hsome => cases hnegative : x.isNegative <;> simp [hsome, sign, hnegative, UnpackedFloat.lt, UnpackedFloat.compare]

theorem isNaN_of_isFinite (h : x.isFinite = true) : x.isNaN = false := by
  rw [isFinite, decide_eq_true_eq] at h
  exact decide_eq_false (UInt64.not_lt.mpr (UInt64.le_of_lt h))

theorem isInf_of_isFinite (h : x.isFinite = true) : x.isInf = false := by
  rw [isFinite, decide_eq_true_eq] at h
  exact beq_eq_false_iff_ne.mpr (UInt64.ne_of_lt h)

theorem isNegative_iff : x.isNegative = true ↔ 0x8000000000000000 ≤ x.bits.toNat := by
  have hlt := x.bits.toNat_lt
  rw [isNegative, beq_iff_eq, ← UInt64.toNat_inj, UInt64.toNat_shiftRight]
  show x.bits.toNat >>> 63 = 1 ↔ _
  rw [Nat.shiftRight_eq_div_pow]
  omega

theorem isNegative_magnitude (x : Double) : x.magnitude.isNegative = false := by
  rw [← Bool.not_eq_true, isNegative_iff, toNat_magnitude]
  omega

/-- The bound of positions; its exponent is that of whole numbers. -/
theorem positionBound_eq : (9.0e15 : Double) = ⟨0x433ff973cafa8000⟩ := by decide +kernel

theorem lt_positionBound_iff (h : x.isFinite = true) : x < 9.0e15 ↔
    x.isNegative = true ∨ x.significand = 0 ∨ x.exponent < 0 ∨ x.exponent = 0 ∧ x.significand < 9000000000000000 := by
  have hexponent : (⟨0x433ff973cafa8000⟩ : Double).exponent = 0 := by decide
  have hsignificand : (⟨0x433ff973cafa8000⟩ : Double).significand = 9000000000000000 := by decide
  rw [positionBound_eq, lt_positive_iff h (by decide) (by decide) (by decide), hexponent, hsignificand]

end Apiary.Double
