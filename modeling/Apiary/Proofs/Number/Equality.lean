import Apiary.Proofs.Number.Whole

/-!
Equality of doubles: it is symmetric, and finite doubles with the same fields are equal. A whole number is equal to the
double made from it.
-/

namespace Apiary.Double

open Float.Model (UnpackedFloat)

theorem unpacked_beq_comm (a b : UnpackedFloat) : a.beq b = b.beq a := by
  cases a with
  | notANumber => cases b <;> rfl
  | infinity s =>
    cases b with
    | infinity t => cases s <;> cases t <;> rfl
    | _ => cases s <;> rfl
  | zero s =>
    cases b with
    | infinity t | finite t => cases t <;> rfl
    | _ => rfl
  | finite s m d hm =>
    cases b with
    | notANumber => rfl
    | infinity t => cases t <;> rfl
    | zero t => cases s <;> rfl
    | finite t n e hn =>
      have hfields : (compare d e).then (compare m n) = .eq ↔ (compare e d).then (compare n m) = .eq := by
        simp only [Ordering.then_eq_eq, Int.compare_eq_eq, Nat.compare_eq_eq, eq_comm (a := d), eq_comm (a := m)]
      cases s <;> cases t <;> simp [UnpackedFloat.beq, UnpackedFloat.compare, Bool.beq_eq_decide_eq, hfields]

protected theorem beq_comm (x y : Double) : (x == y) = (y == x) := unpacked_beq_comm ..

variable {x y : Double}

theorem beq_iff : (x == y) = true ↔ UnpackedFloat.beq x.toFloat.toModel.unpack y.toFloat.toModel.unpack = true := .rfl

/-- The sign of a zero does not count. -/
theorem beq_of_fields (hx : x.isFinite = true) (hy : y.isFinite = true) (hsignificand : x.significand = y.significand)
    (hexponent : x.exponent = y.exponent) (hnegative : x.significand ≠ 0 → x.isNegative = y.isNegative) :
    (x == y) = true := by
  rw [beq_iff, unpack_toFloat hx, unpack_toFloat hy]
  by_cases hzero : x.significand = 0
  · rw [dif_pos hzero, dif_pos (hsignificand.symm.trans hzero)]
    rfl
  · rw [dif_neg hzero, dif_neg (hsignificand ▸ hzero)]
    have hsign : x.sign = y.sign := by rw [sign, sign, hnegative hzero]
    rw [finite_congr hsignificand hexponent, hsign]
    cases y.sign <;> simp [UnpackedFloat.beq, UnpackedFloat.compare]

theorem beq_self (hx : x.isFinite = true) : (x == x) = true := beq_of_fields hx hx rfl rfl fun _ => rfl

theorem log2_of_shifted {i k : Nat} (hlow : 0x10000000000000 ≤ i * twoTo k) (hhigh : i * twoTo k < 0x20000000000000) :
    k ≤ 52 ∧ i.log2 = 52 - k := by
  have hpos : 0 < i := Nat.pos_of_ne_zero fun h => by simp [h] at hlow
  have hk : k ≤ 52 := by
    by_contra hk
    have hbig : twoTo 53 ≤ i * twoTo k :=
      Nat.le_trans (Nat.pow_le_pow_right (by decide) (by omega) : 2 ^ 53 ≤ 2 ^ k) (Nat.le_mul_of_pos_left _ hpos)
    exact absurd hhigh (Nat.not_lt.mpr hbig)
  have hpower : 2 ^ (52 - k) * twoTo k = 0x10000000000000 := by
    have hsum := Nat.pow_add 2 (52 - k) k
    rw [Nat.sub_add_cancel hk] at hsum
    exact hsum.symm
  refine ⟨hk, (Nat.log2_eq_iff (Nat.ne_of_gt hpos)).mpr ⟨?_, ?_⟩⟩
  · rw [← hpower] at hlow
    exact Nat.le_of_mul_le_mul_right hlow (twoTo_pos k)
  · refine Nat.lt_of_mul_lt_mul_right (a := twoTo k) ?_
    rw [Nat.pow_succ, Nat.mul_right_comm, hpower]
    exact hhigh

/-- The fields of a whole number: it is shifted until its first bit is in place. -/
theorem fields_of_whole (h : x.isWhole = true) (hpos : 0 < x.wholeMagnitude) (hlt : x.wholeMagnitude < 0x20000000000000) :
    x.exponentField = x.wholeMagnitude.log2 + 1023 ∧
      x.fractionField + 0x10000000000000 = x.wholeMagnitude * twoTo (52 - x.wholeMagnitude.log2) := by
  have hsmall := significand_lt x
  have hnormal : x.exponentField ≠ 0 := by
    intro hzero
    have hexponent : x.exponent = -1074 := by rw [exponent, hzero]; rfl
    have hbound : x.significand < twoTo (-x.exponent).toNat :=
      Nat.lt_of_lt_of_le hsmall (Nat.pow_le_pow_right (n := 2) (by decide) (by omega : 53 ≤ _))
    have hmagnitude := wholeMagnitude_of_neg (x := x) (by omega)
    rw [Nat.div_eq_of_lt hbound] at hmagnitude
    omega
  have hsignificand : x.significand = x.fractionField + 0x10000000000000 := if_neg hnormal
  have hexponent : x.exponent = (x.exponentField : Int) - 1075 := by
    rw [exponent, Nat.max_eq_left (Nat.pos_of_ne_zero hnormal)]
  have hshifted : ∃ k, x.significand = x.wholeMagnitude * twoTo k ∧ x.exponent = -(k : Int) := by
    rcases Int.lt_or_le x.exponent 0 with hneg | hnonneg
    · refine ⟨(-x.exponent).toNat, ?_, by omega⟩
      rw [isWhole, Bool.and_eq_true, Bool.or_eq_true, decide_eq_true_eq, beq_iff_eq] at h
      rw [wholeMagnitude_of_neg hneg, Nat.div_mul_cancel (Nat.dvd_of_mod_eq_zero (h.2.resolve_left (by omega)))]
    · rw [wholeMagnitude_of_nonneg hnonneg] at hlt ⊢
      rcases Nat.eq_zero_or_pos x.exponent.toNat with hzero | hgreater
      · exact ⟨0, by simp [hzero, twoTo], by omega⟩
      · have := Nat.mul_le_mul_left x.significand (two_le_twoTo hgreater)
        omega
  obtain ⟨k, hshift, hk⟩ := hshifted
  obtain ⟨hle, hlog⟩ := log2_of_shifted (i := x.wholeMagnitude) (k := k) (by omega) (by omega)
  have hplaces : 52 - x.wholeMagnitude.log2 = k := by omega
  rw [hplaces]
  exact ⟨by omega, by omega⟩

theorem ofInt_natCast (i : Nat) : ofInt i = ofNat i := by
  have hsign : decide ((i : Int) < 0) = false := decide_eq_false (by omega)
  rw [ofInt, hsign]
  rfl

theorem toNat_ofInt_neg {i : Nat} (hpos : 0 < i) (hlt : (ofNat i).bits.toNat < 0x8000000000000000) :
    (ofInt (-i)).bits.toNat = 0x8000000000000000 + (ofNat i).bits.toNat := by
  have hbits : (ofInt (-i)).bits = (ofNat i).bits ||| 0x8000000000000000 := by
    simp [ofInt, ofParts, ofNat, hpos]
  rw [hbits, UInt64.toNat_or, Nat.or_comm]
  exact (Nat.two_pow_add_eq_or_of_lt (i := 63) hlt 1).symm

/-- A small whole number is equal to the double made from it; only the sign of a zero is lost. -/
theorem ofInt_toInt (h : x.isWhole = true) (hlt : x.wholeMagnitude < 0x20000000000000) : (ofInt x.toInt == x) = true := by
  have hfinite := isFinite_of_isWhole h
  rcases Nat.eq_zero_or_pos x.wholeMagnitude with hzero | hpos
  · have hint : x.toInt = 0 := by simp [toInt, hzero]
    rw [hint, Double.beq_comm]
    exact (beq_zero_iff hfinite).mpr (significand_eq_zero h hzero)
  · have hlog : x.wholeMagnitude.log2 ≤ 52 := Nat.le_of_lt_succ ((Nat.log2_lt (Nat.ne_of_gt hpos)).mpr hlt)
    obtain ⟨hfield, hfraction⟩ := fields_of_whole h hpos hlt
    obtain ⟨hbits, -, -⟩ := toNat_ofNat hpos hlog
    rw [← hfraction, Nat.add_sub_cancel] at hbits
    have hsmall := fractionField_lt x
    have hfields : (ofInt x.toInt).exponentField = x.exponentField ∧ (ofInt x.toInt).fractionField = x.fractionField ∧
        (ofInt x.toInt).isNegative = x.isNegative := by
      cases hnegative : x.isNegative with
      | false =>
        have hint : x.toInt = x.wholeMagnitude := by rw [toInt, if_neg (by simp [hnegative])]
        rw [hint, ofInt_natCast]
        exact fields_of_bits (by omega) hsmall (by rw [hbits, hfield])
      | true =>
        have hint : x.toInt = -x.wholeMagnitude := by rw [toInt, if_pos hnegative]
        rw [hint, exponentField_eq, fractionField_eq, isNegative_iff, toNat_ofInt_neg hpos (by omega), hbits]
        omega
    have hsignificand : (ofInt x.toInt).significand = x.significand := by
      rw [significand, significand, hfields.1, hfields.2.1]
    refine beq_of_fields (isFinite_iff.mpr ?_) hfinite hsignificand ?_ fun _ => hfields.2.2
    · rw [hfields.1]
      exact isFinite_iff.mp hfinite
    · rw [exponent, exponent, hfields.1]

end Apiary.Double
