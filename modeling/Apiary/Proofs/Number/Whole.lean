import Apiary.Proofs.Number.Comparison
import Apiary.Script.Value

/-!
Doubles that are whole numbers, and which of them are positions.
-/

namespace Apiary

namespace Double

def IsNat (x : Double) (i : Nat) : Prop := x.isWhole = true ∧ x.toInt = i

variable {x : Double} {i : Nat}

theorem isFinite_of_isWhole (h : x.isWhole = true) : x.isFinite = true := by
  rw [isWhole, Bool.and_eq_true] at h
  exact h.1

theorem isWhole_magnitude (x : Double) : x.magnitude.isWhole = x.isWhole := by
  rw [isWhole, isWhole, isFinite_magnitude, exponent_magnitude, significand_magnitude]

theorem significand_of_exponent_pos (h : 0 < x.exponent) : 0x10000000000000 ≤ x.significand := by
  unfold exponent at h
  rw [significand, if_neg (by omega)]
  omega

theorem wholeMagnitude_of_nonneg (h : 0 ≤ x.exponent) : x.wholeMagnitude = x.significand * twoTo x.exponent.toNat := by
  rw [wholeMagnitude, if_pos h, Nat.shiftLeft_eq]
  rfl

theorem wholeMagnitude_of_neg (h : x.exponent < 0) : x.wholeMagnitude = x.significand / twoTo (-x.exponent).toNat := by
  rw [wholeMagnitude, if_neg (by omega), Nat.shiftRight_eq_div_pow]
  rfl

theorem twoTo_pos (n : Nat) : 0 < twoTo n := Nat.two_pow_pos n

theorem two_le_twoTo {n : Nat} (h : 0 < n) : 2 ≤ twoTo n :=
  (Nat.pow_le_pow_right (by decide) h : Nat.pow 2 1 ≤ Nat.pow 2 n)

theorem significand_eq_zero (h : x.isWhole = true) (hzero : x.wholeMagnitude = 0) : x.significand = 0 := by
  rcases Int.lt_or_le x.exponent 0 with hexponent | hexponent
  · rw [isWhole, Bool.and_eq_true, Bool.or_eq_true, decide_eq_true_eq, beq_iff_eq] at h
    have hdivides := h.2.resolve_left (by omega)
    rw [wholeMagnitude_of_neg hexponent] at hzero
    rw [← Nat.div_add_mod x.significand (twoTo (-x.exponent).toNat), hzero, hdivides, Nat.mul_zero]
  · rw [wholeMagnitude_of_nonneg hexponent] at hzero
    exact (Nat.mul_eq_zero.mp hzero).resolve_right (Nat.ne_of_gt (twoTo_pos _))

theorem wholeMagnitude_lt_iff : x.wholeMagnitude < 9000000000000000 ↔
    x.significand = 0 ∨ x.exponent < 0 ∨ x.exponent = 0 ∧ x.significand < 9000000000000000 := by
  have hlt := significand_lt x
  rcases Int.lt_trichotomy x.exponent 0 with hneg | hzero | hpos
  · have hdiv : x.significand / twoTo (-x.exponent).toNat ≤ x.significand / 2 :=
      Nat.div_le_div_left (two_le_twoTo (by omega)) (by decide)
    rw [wholeMagnitude_of_neg hneg]
    omega
  · have hone : twoTo x.exponent.toNat = 1 := by rw [hzero]; rfl
    rw [wholeMagnitude_of_nonneg (by omega), hone]
    omega
  · have hbig := significand_of_exponent_pos hpos
    have hmul : x.significand * 2 ≤ x.significand * twoTo x.exponent.toNat :=
      Nat.mul_le_mul_left _ (two_le_twoTo (by omega))
    rw [wholeMagnitude_of_nonneg (by omega)]
    omega

theorem IsNat.unique {j : Nat} (hi : x.IsNat i) (hj : x.IsNat j) : i = j := by
  have := hi.2.symm.trans hj.2
  omega

theorem IsNat.wholeMagnitude_eq (h : x.IsNat i) : x.wholeMagnitude = i := by
  have := h.2
  unfold toInt at this
  split at this <;> omega

theorem IsNat.nonneg (h : x.IsNat i) : 0 ≤ x := by
  refine (nonneg_iff (isFinite_of_isWhole h.1)).mpr ?_
  cases hnegative : x.isNegative with
  | false => exact .inr rfl
  | true =>
    have hint := h.2
    rw [toInt, if_pos hnegative, h.wholeMagnitude_eq] at hint
    exact .inl (significand_eq_zero h.1 (h.wholeMagnitude_eq.trans (by omega)))

theorem IsNat.lt_positionBound (h : x.IsNat i) : x < 9.0e15 ↔ i < 9000000000000000 := by
  rw [lt_positionBound_iff (isFinite_of_isWhole h.1), ← h.wholeMagnitude_eq, wholeMagnitude_lt_iff]
  have hnonneg := (nonneg_iff (isFinite_of_isWhole h.1)).mp h.nonneg
  rcases hnonneg with hzero | hnegative
  · simp [hzero]
  · simp [hnegative]

theorem isNat_wholeMagnitude (h : x.isWhole = true) (hnonneg : 0 ≤ x) : x.IsNat x.wholeMagnitude := by
  refine ⟨h, ?_⟩
  rw [toInt]
  split
  · next hnegative =>
    have hzero := ((nonneg_iff (isFinite_of_isWhole h)).mp hnonneg).resolve_right (by simp [hnegative])
    have : x.wholeMagnitude = 0 := by
      rw [wholeMagnitude, hzero]
      split <;> simp
    omega
  · rfl

theorem isNat_zero (h : x.isFinite = true) (hzero : x.significand = 0) : x.IsNat 0 := by
  have hmagnitude : x.wholeMagnitude = 0 := by
    rw [wholeMagnitude, hzero]
    split <;> simp
  have hwhole : x.isWhole = true := by simp [isWhole, h, hzero]
  exact hmagnitude ▸ isNat_wholeMagnitude hwhole ((nonneg_iff h).mpr (.inl hzero))

theorem fields_of_bits {e f : Nat} (he : e < 2047) (hf : f < 0x10000000000000)
    (hx : x.bits.toNat = e * 0x10000000000000 + f) :
    x.exponentField = e ∧ x.fractionField = f ∧ x.isNegative = false := by
  refine ⟨?_, ?_, ?_⟩
  · rw [exponentField_eq, hx]
    omega
  · rw [fractionField_eq, hx]
    omega
  · rw [isNegative, beq_eq_false_iff_ne, Ne, ← UInt64.toNat_inj, UInt64.toNat_shiftRight]
    show ¬ x.bits.toNat >>> 63 = 1
    rw [Nat.shiftRight_eq_div_pow, hx]
    omega

/-- The bits of a whole number that fits into a significand: the number is shifted until its first bit is in place. -/
theorem toNat_ofNat (hpos : 0 < i) (h : i.log2 ≤ 52) : (ofNat i).bits.toNat =
    (i.log2 + 1023) * 0x10000000000000 + (i * twoTo (52 - i.log2) - 0x10000000000000) ∧
      0x10000000000000 ≤ i * twoTo (52 - i.log2) ∧ i * twoTo (52 - i.log2) < 0x20000000000000 := by
  have hpower : twoTo i.log2 * twoTo (52 - i.log2) = 0x10000000000000 := by
    have hsum := Nat.pow_add 2 i.log2 (52 - i.log2)
    rw [Nat.add_sub_cancel' h] at hsum
    exact hsum.symm
  have hlow : twoTo i.log2 * twoTo (52 - i.log2) ≤ i * twoTo (52 - i.log2) :=
    Nat.mul_le_mul_right _ (Nat.log2_self_le (Nat.ne_of_gt hpos))
  have hhigh : i * twoTo (52 - i.log2) < 2 * (twoTo i.log2 * twoTo (52 - i.log2)) := by
    rw [← Nat.mul_assoc]
    refine Nat.mul_lt_mul_of_pos_right ?_ (twoTo_pos _)
    have := Nat.lt_log2_self (n := i)
    rwa [Nat.pow_succ, Nat.mul_comm] at this
  rw [hpower] at hlow hhigh
  refine ⟨?_, hlow, by omega⟩
  have hunit : max ((0 : Int) + (i.log2 + 1 : Nat) - BinaryFormat.double.precision) BinaryFormat.double.least =
      (i.log2 : Int) - 52 := by
    show max ((0 : Int) + (i.log2 + 1 : Nat) - (53 : Nat)) (-1074) = _
    omega
  have hround : BinaryFormat.double.round i 0 =
      min ((((i.log2 : Int) - 52 - -1074).toNat <<< 52) + i <<< (0 - ((i.log2 : Int) - 52)).toNat) (2047 <<< 52) := by
    simp only [BinaryFormat.round, if_neg (Nat.ne_of_gt hpos), hunit]
    rw [if_pos (by omega)]
    rfl
  have hshift : (0 - ((i.log2 : Int) - 52)).toNat = 52 - i.log2 := by omega
  have hfield : ((i.log2 : Int) - 52 - -1074).toNat = i.log2 + 1022 := by omega
  rw [hshift, hfield, Nat.shiftLeft_eq, Nat.shiftLeft_eq] at hround
  show (UInt64.ofNat (BinaryFormat.double.round i 0)).toNat = _
  rw [hround, UInt64.toNat_ofNat']
  have hinfinity : (2047 <<< 52 : Nat) = 0x7ff0000000000000 := by decide
  have hbits : (i.log2 + 1022) * 2 ^ 52 + i * 2 ^ (52 - i.log2) =
      (i.log2 + 1023) * 0x10000000000000 + (i * twoTo (52 - i.log2) - 0x10000000000000) := by
    have hpow : i * 2 ^ (52 - i.log2) = i * twoTo (52 - i.log2) := rfl
    rw [hpow]
    generalize i * twoTo (52 - i.log2) = digits at hlow ⊢
    omega
  have hbound : (i.log2 + 1023) * 0x10000000000000 + (i * twoTo (52 - i.log2) - 0x10000000000000) < 0x7ff0000000000000 := by
    generalize i * twoTo (52 - i.log2) = digits at hlow hhigh ⊢
    omega
  rw [hbits, hinfinity, Nat.min_eq_left (Nat.le_of_lt hbound)]
  exact Nat.mod_eq_of_lt (Nat.lt_trans hbound (by decide))

theorem isNat_ofNat (h : i < 0x20000000000000) : (ofNat i).IsNat i := by
  rcases Nat.eq_zero_or_pos i with rfl | hpos
  · exact ⟨by decide +kernel, by decide +kernel⟩
  · have hlog : i.log2 ≤ 52 := Nat.le_of_lt_succ ((Nat.log2_lt (Nat.ne_of_gt hpos)).mpr h)
    obtain ⟨hbits, hlow, hhigh⟩ := toNat_ofNat hpos hlog
    obtain ⟨hfield, hfraction, hnegative⟩ := fields_of_bits (by omega) (by omega) hbits
    have hsignificand : (ofNat i).significand = i * twoTo (52 - i.log2) := by
      rw [significand, if_neg (by omega), hfraction]
      omega
    have hexponent : (ofNat i).exponent = (i.log2 : Int) - 52 := by
      rw [exponent, hfield]
      omega
    have hplaces : (-(ofNat i).exponent).toNat = 52 - i.log2 := by omega
    have hwhole : (ofNat i).isWhole = true := by
      rw [isWhole, isFinite_iff.mpr (by omega), hplaces, hsignificand]
      simp
    refine ⟨hwhole, ?_⟩
    rw [toInt, hnegative]
    rcases Int.lt_or_le (ofNat i).exponent 0 with hneg | hnonneg
    · rw [if_neg (by decide), wholeMagnitude_of_neg hneg, hplaces, hsignificand,
        Nat.mul_div_cancel _ (twoTo_pos _)]
    · have hlast : i.log2 = 52 := by omega
      rw [if_neg (by decide), wholeMagnitude_of_nonneg hnonneg, hsignificand, hexponent, hlast]
      simp

end Double

theorem Value.index?_number {x : Double} {i : Nat} :
    (Value.number x).index? = some i ↔ x.IsNat i ∧ i < 9000000000000000 := by
  rw [index?, Option.ite_none_right_eq_some]
  constructor
  · rintro ⟨⟨hnonneg, hwhole, hlt⟩, heq⟩
    have hnat := Double.isNat_wholeMagnitude hwhole hnonneg
    rw [Option.some.inj heq] at hnat
    exact ⟨hnat, hnat.lt_positionBound.mp hlt⟩
  · rintro ⟨hnat, hlt⟩
    exact ⟨⟨hnat.nonneg, hnat.1, hnat.lt_positionBound.mpr hlt⟩, congrArg some hnat.wholeMagnitude_eq⟩

end Apiary
