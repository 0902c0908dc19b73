import Apiary.Proofs.Number.Whole
import Apiary.Number.Text

/-!
Doubles that are integers: their whole parts, their positions in a range, their sign and their text.
-/

namespace Apiary

namespace Double

variable {x : Double}

theorem wholeMagnitude_magnitude (x : Double) : x.magnitude.wholeMagnitude = x.wholeMagnitude := by
  rw [wholeMagnitude, wholeMagnitude, exponent_magnitude, significand_magnitude]

theorem natAbs_toInt (x : Double) : x.toInt.natAbs = x.wholeMagnitude := by
  unfold toInt
  split <;> omega

theorem toInt_magnitude (x : Double) : x.magnitude.toInt = x.wholeMagnitude := by
  rw [toInt, isNegative_magnitude, wholeMagnitude_magnitude]
  rfl

theorem wholeMagnitude_eq_zero_iff (h : x.isWhole = true) : x.wholeMagnitude = 0 ↔ x.significand = 0 := by
  refine ⟨significand_eq_zero h, fun hzero => ?_⟩
  rw [wholeMagnitude, hzero]
  split <;> simp

theorem exponent_of_isWhole (h : x.isWhole = true) (hsome : x.significand ≠ 0) : -53 < x.exponent := by
  refine Int.not_le.mp fun hsmall => ?_
  rw [isWhole, Bool.and_eq_true, Bool.or_eq_true, decide_eq_true_eq, beq_iff_eq] at h
  have hmodulus := h.2.resolve_left (by omega)
  have hbound : x.significand < twoTo (-x.exponent).toNat :=
    Nat.lt_of_lt_of_le (significand_lt x) (Nat.pow_le_pow_right (n := 2) (by decide) (by omega : 53 ≤ _))
  rw [Nat.mod_eq_of_lt hbound] at hmodulus
  exact hsome hmodulus

theorem lt_zero_iff_toInt (h : x.isWhole = true) : x < 0 ↔ x.toInt < 0 := by
  have hzero := wholeMagnitude_eq_zero_iff h
  rw [lt_zero_iff (isFinite_of_isWhole h), Ne, ← hzero, toInt]
  cases x.isNegative <;> simp

/-- A whole number in the range of a machine word. -/
theorem toNatCapped_of_isWhole (h : x.isWhole = true) (bits : Nat) :
    toNatCapped bits x = min x.toInt.toNat (twoTo bits - 1) := by
  have hfinite := isFinite_of_isWhole h
  rw [toNatCapped, isNaN_of_isFinite hfinite, isInf_of_isFinite hfinite, toInt]
  cases x.isNegative <;> simp

theorem bits_eq (x : Double) : x.bits.toNat % 0x8000000000000000 = x.exponentField * 0x10000000000000 + x.fractionField := by
  have hfield := exponentField_eq x
  have hfraction := fractionField_eq x
  omega

theorem twoTo_dvd_bits {low : Nat} (hlow : low ≤ 52) (h : twoTo low ∣ x.significand) : twoTo low ∣ x.bits.toNat := by
  have hbit : twoTo low ∣ 0x10000000000000 := Nat.pow_dvd_pow 2 hlow
  have hfraction : twoTo low ∣ x.fractionField := by
    unfold significand at h
    split at h
    · exact h
    · exact (Nat.dvd_add_left hbit).mp h
  have hfield : x.bits.toNat = x.bits.toNat / 0x10000000000000 * 0x10000000000000 + x.fractionField := by
    rw [fractionField_eq]
    exact (Nat.div_add_mod' ..).symm
  rw [hfield]
  exact Nat.dvd_add (Nat.dvd_mul_left_of_dvd hbit _) hfraction

theorem trunc_of_isWhole (h : x.isWhole = true) : x.trunc = x := by
  have hexponent : x.exponent = (max x.exponentField 1 : Nat) - 1075 := rfl
  simp only [trunc]
  split
  · next hsmall =>
    have hnone : x.significand = 0 := by
      by_contra hsome
      have := exponent_of_isWhole h hsome
      omega
    have hzero : x.exponentField = 0 ∧ x.fractionField = 0 := by
      unfold significand at hnone
      split at hnone <;> omega
    have hbits := bits_eq x
    have hlt := x.bits.toNat_lt
    have hcases : x.bits = 0 ∨ x.bits = 0x8000000000000000 := by
      rw [← UInt64.toNat_inj, ← UInt64.toNat_inj]
      show x.bits.toNat = 0 ∨ x.bits.toNat = 0x8000000000000000
      omega
    obtain ⟨bits⟩ := x
    rcases hcases with rfl | rfl <;> rfl
  · split
    · rfl
    · next hlarge =>
      have hmodulus := h
      rw [isWhole, Bool.and_eq_true, Bool.or_eq_true, decide_eq_true_eq, beq_iff_eq] at hmodulus
      replace hmodulus := hmodulus.2.resolve_left (by omega)
      have hplaces : (-x.exponent).toNat = 1075 - x.exponentField := by omega
      rw [hplaces] at hmodulus
      have hdivides := twoTo_dvd_bits (by omega) (Nat.dvd_of_mod_eq_zero hmodulus)
      have hlow : (UInt64.ofNat (1075 - x.exponentField)).toNat % 64 = 1075 - x.exponentField := by
        rw [UInt64.toNat_ofNat']
        omega
      have hlt := x.bits.toNat_lt
      refine congrArg Double.mk (UInt64.toNat_inj.mp ?_)
      rw [UInt64.toNat_shiftLeft, UInt64.toNat_shiftRight, hlow, Nat.shiftRight_eq_div_pow, Nat.shiftLeft_eq]
      exact (congrArg (· % 2 ^ 64) (Nat.div_mul_cancel hdivides)).trans (Nat.mod_eq_of_lt hlt)

/-- From here on numbers are written with an exponent. -/
theorem largeBound_eq : (1e21 : Double) = ⟨0x444b1ae4d6e2ef50⟩ := by decide +kernel

theorem smallBound_eq : (1e-6 : Double) = ⟨0x3eb0c6f7a0b5ed8d⟩ := by decide +kernel

theorem not_largeBound_le (h : x.wholeMagnitude < tenTo 21) (hfinite : x.isFinite = true) : ¬ 1e21 ≤ x := by
  have hexponent : (⟨0x444b1ae4d6e2ef50⟩ : Double).exponent = 17 := by decide
  have hsignificand : (⟨0x444b1ae4d6e2ef50⟩ : Double).significand = 7629394531250000 := by decide
  rw [largeBound_eq, positive_le_iff hfinite (by decide) (by decide) (by decide), hexponent, hsignificand]
  rintro ⟨-, -, hlarge⟩
  have hten : tenTo 21 = 7629394531250000 * twoTo 17 := by decide
  rw [wholeMagnitude_of_nonneg (by omega), hten] at h
  rcases hlarge with hlarge | ⟨heq, hlarge⟩
  · have hbig := significand_of_exponent_pos (x := x) (by omega)
    have hpower : twoTo 18 ≤ twoTo x.exponent.toNat := Nat.pow_le_pow_right (n := 2) (by decide) (by omega)
    have := Nat.mul_le_mul hbig hpower
    have hbounds : 7629394531250000 * twoTo 17 ≤ 0x10000000000000 * twoTo 18 := by decide
    omega
  · have hpower : twoTo x.exponent.toNat = twoTo 17 := congrArg twoTo (by omega)
    rw [hpower] at h
    have := Nat.mul_le_mul_right (twoTo 17) hlarge
    omega

theorem not_lt_smallBound (h : x.isWhole = true) (hsome : x.significand ≠ 0) (hnonneg : x.isNegative = false) :
    ¬ x < 1e-6 := by
  have hexponent : (⟨0x3eb0c6f7a0b5ed8d⟩ : Double).exponent = -72 := by decide
  rw [smallBound_eq, lt_positive_iff (isFinite_of_isWhole h) (by decide) (by decide) (by decide), hexponent, hnonneg]
  have := exponent_of_isWhole h hsome
  simp only [hsome, Bool.false_eq_true, false_or]
  omega

end Double

theorem toList_toString_int (i : Int) :
    (toString i).toList = if i < 0 then '-' :: decimalDigits i.natAbs else decimalDigits i.natAbs := by
  have hdigits (n : Nat) : (Nat.repr n).toList = decimalDigits n := String.toList_ofList ..
  cases i with
  | ofNat n => exact hdigits n
  | negSucc n =>
    have htext : toString (Int.negSucc n) = "-" ++ Nat.repr (n + 1) := rfl
    rw [htext, String.toList_append, hdigits, if_pos (Int.negSucc_lt_zero n)]
    rfl

/-- A whole number is written as an integer, without a sign for zero. -/
theorem numberText_of_isWhole {x : Double} (h : x.isWhole = true) (hlt : x.wholeMagnitude < tenTo 21) :
    numberText x = toString x.toInt := by
  have hfinite := Double.isFinite_of_isWhole h
  unfold numberText
  rw [if_neg (by simp [hfinite])]
  split
  · next hzero =>
    have hwhole := (Double.wholeMagnitude_eq_zero_iff h).mpr ((Double.beq_zero_iff hfinite).mp hzero)
    have hint : x.toInt = 0 := by rw [← Int.natAbs_eq_zero, Double.natAbs_toInt, hwhole]
    rw [hint]
    rfl
  · next hsome =>
    rw [Double.beq_zero_iff hfinite] at hsome
    have hlarge : ¬ 1e21 ≤ x.magnitude := Double.not_largeBound_le (by rwa [Double.wholeMagnitude_magnitude])
      (by rwa [Double.isFinite_magnitude])
    have hsmall : ¬ x.magnitude < 1e-6 := Double.not_lt_smallBound (by rwa [Double.isWhole_magnitude])
      (by rwa [Double.significand_magnitude]) (Double.isNegative_magnitude x)
    have hsign : x.isNegative = true ↔ x.toInt < 0 := by
      rw [← Double.lt_zero_iff_toInt h, Double.lt_zero_iff hfinite]
      exact (and_iff_right hsome).symm
    rw [if_neg (by simp [hlarge, hsmall])]
    rw [← String.toList_inj, signed, String.toList_ofList, toList_toString_int, Double.natAbs_toInt]
    simp only [hsign]

end Apiary
