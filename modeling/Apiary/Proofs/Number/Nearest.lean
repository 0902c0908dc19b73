import Apiary.Number.Reading
import Apiary.Proofs.Number.Written

/-!
Rounding to the nearest double, told over the rationals: a number of the interval of a double is read as that double.
-/

namespace Apiary

/-- `n` is the whole number nearest to `v`; from the middle between two it is the even one. -/
structure Nearest (v : ℚ) (n : ℕ) : Prop where
  low : (n : ℚ) - 1 / 2 ≤ v
  high : v ≤ n + 1 / 2
  even : v = n - 1 / 2 ∨ v = n + 1 / 2 → n % 2 = 0

theorem Nearest.eq_of_whole {m n : ℕ} (h : Nearest m n) : m = n := by
  have hlow : (2 * n : ℚ) ≤ 2 * m + 1 := by linarith [h.low]
  have hhigh : (2 * m : ℚ) ≤ 2 * n + 1 := by linarith [h.high]
  norm_cast at hlow hhigh
  omega

theorem halveEven_eq {m n k : ℕ} (h : Nearest (m / 2 ^ k) n) : halveEven m k = n := by
  have hpos : (0 : ℚ) < 2 ^ k := by positivity
  have hlow : 2 * (n * 2 ^ k) ≤ 2 * m + 2 ^ k := by
    have := (le_div_iff₀ hpos).mp h.low
    have : (2 * (n * 2 ^ k) : ℚ) ≤ 2 * m + 2 ^ k := by linarith
    exact_mod_cast this
  have hhigh : 2 * m ≤ 2 * (n * 2 ^ k) + 2 ^ k := by
    have := (div_le_iff₀ hpos).mp h.high
    have : (2 * m : ℚ) ≤ 2 * (n * 2 ^ k) + 2 ^ k := by linarith
    exact_mod_cast this
  have heven : 2 * (n * 2 ^ k) = 2 * m + 2 ^ k ∨ 2 * m = 2 * (n * 2 ^ k) + 2 ^ k → n % 2 = 0 := by
    refine fun hmiddle => h.even (hmiddle.imp (fun heq => ?_) fun heq => ?_)
    all_goals
      rw [div_eq_iff hpos.ne']
      have heq' := congrArg (Nat.cast (R := ℚ)) heq
      push_cast at heq'
      linarith
  have hm := Nat.div_add_mod m (2 ^ k)
  have hrest := Nat.mod_lt m (Nat.two_pow_pos k)
  -- only the whole part and the next number are that near
  have hcases : n = m / 2 ^ k ∨ n = m / 2 ^ k + 1 := by
    have hle : m / 2 ^ k < n + 1 := Nat.div_lt_of_lt_mul (by rw [Nat.mul_comm, Nat.add_mul]; omega)
    have hge : n < m / 2 ^ k + 2 := by
      refine Nat.lt_of_mul_lt_mul_right (a := 2 ^ k) ?_
      rw [Nat.add_mul, Nat.mul_comm (m / 2 ^ k)]
      omega
    omega
  simp only [halveEven, Nat.shiftRight_eq_div_pow, Nat.shiftLeft_eq, Nat.one_mul]
  generalize m / 2 ^ k = whole at hm hcases ⊢
  generalize m % 2 ^ k = rest at hm hrest
  rw [Nat.mul_comm] at hm
  have hsub : m - whole * 2 ^ k = rest := by omega
  rw [hsub]
  rcases hcases with rfl | rfl
  · split
    · rfl
    · split <;> omega
  · rw [Nat.add_mul] at hlow hhigh heven
    split
    · omega
    · split <;> omega

/-- Rounding by the unit of the last place. -/
theorem BinaryFormat.round_eq {f : BinaryFormat} {m n : ℕ} {q unit : ℤ} (hm : m ≠ 0)
    (hunit : max (q + (Nat.log2 m + 1 : ℕ) - f.precision) f.least = unit)
    (h : Nearest (m * 2 ^ q / 2 ^ unit) n) :
    f.round m q = min (((unit - f.least).toNat <<< (f.precision - 1)) + n) f.infinity := by
  simp only [round, if_neg hm, hunit]
  rw [mul_div_assoc, ← zpow_sub₀ two_ne_zero] at h
  congr 2
  split
  · next hle =>
    have hcast : ((m <<< (q - unit).toNat : ℕ) : ℚ) = m * 2 ^ (q - unit) := by
      rw [Nat.shiftLeft_eq, Nat.cast_mul, Nat.cast_pow, ← zpow_natCast, Int.toNat_of_nonneg (by omega)]
      rfl
    exact (hcast ▸ h).eq_of_whole
  · next hlt =>
    refine halveEven_eq ?_
    have hcast : (m : ℚ) / 2 ^ (unit - q).toNat = m * 2 ^ (q - unit) := by
      rw [← zpow_natCast, Int.toNat_of_nonneg (by omega), div_eq_mul_inv, ← zpow_neg, neg_sub]
    rwa [hcast]

namespace Rounding

variable {r : Rounding} {x : Double} {v : ℚ}

def bottom (r : Rounding) : ℚ := r.low / r.scale

def top (r : Rounding) : ℚ := r.high / r.scale

/-- The number is of the interval. -/
def Covers (r : Rounding) (v : ℚ) : Prop :=
  if r.closed then r.bottom ≤ v ∧ v ≤ r.top else r.bottom < v ∧ v < r.top

theorem Covers.bounds (h : r.Covers v) : r.bottom ≤ v ∧ v ≤ r.top := by
  unfold Covers at h
  split at h
  · exact h
  · exact ⟨h.1.le, h.2.le⟩

theorem Covers.closed (h : r.Covers v) (hend : v = r.bottom ∨ v = r.top) : r.closed = true := by
  by_contra hopen
  rw [Covers, if_neg hopen] at h
  rcases hend with heq | heq
  · exact h.1.ne' heq
  · exact h.2.ne heq

/-- A number on the same side of both ends is covered as well. -/
theorem Covers.congr {w : ℚ} (h : r.Covers v) (hbottom : r.bottom ≤ w ∧ (r.bottom < v → r.bottom < w))
    (htop : w ≤ r.top ∧ (v < r.top → w < r.top)) : r.Covers w := by
  unfold Covers at h ⊢
  split
  · exact ⟨hbottom.1, htop.1⟩
  · next hopen =>
    rw [if_neg hopen] at h
    exact ⟨hbottom.2 h.1, htop.2 h.2⟩

theorem natCast_pow_toNat {b : ℕ} (hb : 0 < b) (q : ℤ) :
    ((b ^ q.toNat : ℕ) : ℚ) / ((b ^ (-q).toNat : ℕ) : ℚ) = (b : ℚ) ^ q := by
  have hne : (b : ℚ) ≠ 0 := by exact_mod_cast hb.ne'
  rw [Nat.cast_pow, Nat.cast_pow, ← zpow_natCast, ← zpow_natCast, ← zpow_sub₀ hne, Int.toNat_sub_toNat_neg]

theorem two_zpow (q : ℤ) : (2 : ℚ) ^ q = ((1 <<< q.toNat : ℕ) : ℚ) / (1 <<< (-q).toNat : ℕ) := by
  rw [Nat.one_shiftLeft, Nat.one_shiftLeft]
  exact (natCast_pow_toNat two_pos q).symm

theorem two_zpow_half (q : ℤ) : (2 : ℚ) ^ q = 2 * 2 ^ (q - 1) := by
  rw [← zpow_one_add₀ two_ne_zero, add_sub_cancel]

theorem natCast_tenTo (n : ℕ) : ((tenTo n : ℕ) : ℚ) = 10 ^ n := Nat.cast_pow 10 n

theorem ten_zpow (q : ℤ) : (10 : ℚ) ^ q = (tenTo q.toNat : ℚ) / tenTo (-q).toNat :=
  (natCast_pow_toNat (b := 10) (by decide) q).symm

theorem bottom_ofDouble (x : Double) : (ofDouble x).bottom =
    ((4 * x.significand - if x.fractionField = 0 ∧ 1 < x.exponentField then 1 else 2 : ℕ) : ℚ) * 2 ^ (x.exponent - 2) := by
  rw [two_zpow, ← mul_div_assoc, ← Nat.cast_mul]
  rfl

theorem top_ofDouble (x : Double) : (ofDouble x).top = ((4 * x.significand + 2 : ℕ) : ℚ) * 2 ^ (x.exponent - 2) := by
  rw [two_zpow, ← mul_div_assoc, ← Nat.cast_mul]
  rfl

theorem contains_iff {s : Rounding} {n : ℕ} {c : ℚ} (hc : 0 < c) (hlow : s.low = r.bottom * c)
    (hhigh : s.high = r.top * c) (hclosed : s.closed = r.closed) (hn : n = v * c) :
    s.contains n = true ↔ r.Covers v := by
  unfold contains Covers
  rw [hclosed]
  split
  · rw [Bool.and_eq_true, decide_eq_true_eq, decide_eq_true_eq, ← @Nat.cast_le ℚ, ← @Nat.cast_le ℚ, hlow, hhigh, hn,
      mul_le_mul_iff_of_pos_right hc, mul_le_mul_iff_of_pos_right hc]
  · rw [Bool.and_eq_true, decide_eq_true_eq, decide_eq_true_eq, ← @Nat.cast_lt ℚ, ← @Nat.cast_lt ℚ, hlow, hhigh, hn,
      mul_lt_mul_iff_of_pos_right hc, mul_lt_mul_iff_of_pos_right hc]

theorem admits_iff (hscale : 0 < r.scale) {d : Decimal} : r.Admits d ↔ r.Covers (d.digits * 10 ^ d.exponent) := by
  have hs : (0 : ℚ) < r.scale := by exact_mod_cast hscale
  have hup : (0 : ℚ) < tenTo (-d.exponent).toNat := by exact_mod_cast Nat.pow_pos (show 0 < 10 by decide)
  have hend (a : ℕ) : ((a * tenTo (-d.exponent).toNat : ℕ) : ℚ) =
      a / r.scale * (r.scale * tenTo (-d.exponent).toNat) := by
    rw [Nat.cast_mul, ← mul_assoc, div_mul_cancel₀ _ hs.ne']
  refine contains_iff (mul_pos hs hup) (hend _) (hend _) rfl ?_
  show ((d.digits * (r.scale * tenTo d.exponent.toNat) : ℕ) : ℚ) = _
  rw [ten_zpow, Nat.cast_mul, Nat.cast_mul]
  field_simp

end Rounding

namespace Double

variable {x : Double} {m : ℕ} {q : ℤ}

theorem toNat_magnitude_eq (x : Double) :
    x.magnitude.bits.toNat = (x.exponent + 1074).toNat * 0x10000000000000 + x.significand := by
  have hfield := exponentField_eq x
  have hfraction := fractionField_eq x
  rw [toNat_magnitude, exponent, significand]
  split <;> omega

theorem le_exponent (x : Double) : -1074 ≤ x.exponent := by
  unfold exponent
  omega

/-- The unit of the last place of a number with 53 bits, or of one below all such numbers. -/
theorem unit_eq {e : ℤ} (hm : m ≠ 0) (he : -1074 ≤ e) (hlow : 2 ^ 52 ≤ m * 2 ^ q / (2 : ℚ) ^ e ∨ e = -1074)
    (hhigh : m * 2 ^ q / (2 : ℚ) ^ e < 2 ^ 53) : max (q + (Nat.log2 m + 1 : ℕ) - 53) (-1074) = e := by
  have hpow : (m * 2 ^ q / 2 ^ e : ℚ) = m * 2 ^ (q - e) := by rw [mul_div_assoc, zpow_sub₀ two_ne_zero]
  have hfirst : ((2 : ℚ) ^ ((m.log2 : ℤ) + (q - e))) ≤ m * 2 ^ (q - e) := by
    rw [zpow_add₀ two_ne_zero, zpow_natCast]
    gcongr
    exact_mod_cast Nat.log2_self_le hm
  have hnext : m * 2 ^ (q - e) < ((2 : ℚ) ^ ((m.log2 : ℤ) + 1 + (q - e))) := by
    rw [zpow_add₀ two_ne_zero]
    gcongr
    exact_mod_cast Nat.lt_log2_self
  rw [hpow] at hlow hhigh
  have hbelow : (m.log2 : ℤ) + (q - e) < 53 := by
    rw [← zpow_lt_zpow_iff_right₀ (one_lt_two (α := ℚ))]
    exact lt_of_le_of_lt hfirst (by exact_mod_cast hhigh)
  rcases hlow with hlow | rfl
  · have habove : 52 < (m.log2 : ℤ) + 1 + (q - e) := by
      rw [← zpow_lt_zpow_iff_right₀ (one_lt_two (α := ℚ))]
      exact lt_of_le_of_lt (by exact_mod_cast hlow) hnext
    omega
  · omega

end Double

namespace Rounding

variable {r : Rounding} {x : Double} {m : ℕ} {q : ℤ}

theorem quarter_zpow (q : ℤ) : (2 : ℚ) ^ (q - 2) = 2 ^ q / 4 := by
  rw [zpow_sub₀ two_ne_zero]
  norm_num

theorem bottom_eq (hsome : x.significand ≠ 0) : (ofDouble x).bottom =
    (x.significand - (if x.fractionField = 0 ∧ 1 < x.exponentField then 1 / 4 else 1 / 2)) * 2 ^ x.exponent := by
  rw [bottom_ofDouble, quarter_zpow, Nat.cast_sub (by split <;> omega)]
  split <;> push_cast <;> ring

theorem top_eq (x : Double) : (ofDouble x).top = (x.significand + 1 / 2) * 2 ^ x.exponent := by
  rw [top_ofDouble, quarter_zpow]
  push_cast
  ring

/-- The interval in units of the last place. -/
theorem Covers.near {v : ℚ} (hsome : x.significand ≠ 0) (h : (ofDouble x).Covers v) :
    x.significand - (if x.fractionField = 0 ∧ 1 < x.exponentField then 1 / 4 else 1 / 2) ≤ v / 2 ^ x.exponent ∧
      v / 2 ^ x.exponent ≤ x.significand + 1 / 2 ∧
      (v / 2 ^ x.exponent = x.significand - 1 / 2 ∨ v / 2 ^ x.exponent = x.significand + 1 / 2 →
        x.significand % 2 = 0) := by
  have hunit : (0 : ℚ) < 2 ^ x.exponent := by positivity
  have hbottom := bottom_eq hsome
  have htop := top_eq x
  have hbounds := h.bounds
  refine ⟨?_, ?_, fun hend => ?_⟩
  · rw [le_div_iff₀ hunit, ← hbottom]
    exact hbounds.1
  · rw [div_le_iff₀ hunit, ← htop]
    exact hbounds.2
  · rw [div_eq_iff hunit.ne', div_eq_iff hunit.ne'] at hend
    have hclosed : (ofDouble x).closed = true := by
      refine h.closed (hend.imp (fun heq => ?_) fun heq => heq.trans htop.symm)
      refine le_antisymm ?_ hbounds.1
      rw [heq, hbottom]
      gcongr
      split <;> norm_num
    exact of_decide_eq_true hclosed

theorem round_eq_of_unit {e : ℤ} {n : ℕ} (hfinite : x.isFinite = true) (hm : m ≠ 0) (he : -1074 ≤ e)
    (hlow : 2 ^ 52 ≤ m * 2 ^ q / (2 : ℚ) ^ e ∨ e = -1074) (hhigh : m * 2 ^ q / (2 : ℚ) ^ e < 2 ^ 53)
    (h : Nearest (m * 2 ^ q / 2 ^ e) n)
    (hbits : (e + 1074).toNat * 0x10000000000000 + n = x.magnitude.bits.toNat) :
    BinaryFormat.double.round m q = x.magnitude.bits.toNat := by
  have hinfinite : x.magnitude.bits.toNat < 2047 <<< 52 := by
    rw [Double.isFinite, decide_eq_true_eq, UInt64.lt_iff_toNat_lt] at hfinite
    exact hfinite
  rw [BinaryFormat.round_eq hm (Double.unit_eq hm he hlow hhigh) h, Nat.shiftLeft_eq]
  show min ((e + 1074).toNat * 0x10000000000000 + n) (2047 <<< 52) = _
  rw [hbits, Nat.min_eq_left hinfinite.le]

/-- The least significand of a normal number is that of a power of two. -/
theorem power_of_lt (hexponent : x.exponent ≠ -1074) (h : (x.significand : ℚ) < 2 ^ 52 + 1) :
    x.fractionField = 0 ∧ 1 < x.exponentField ∧ x.significand = 2 ^ 52 := by
  have hleast := Double.le_exponent x
  have hfield : 1 < x.exponentField := by
    unfold Double.exponent at hexponent hleast
    omega
  have hsignificand : x.significand = x.fractionField + 0x10000000000000 := by
    rw [Double.significand, if_neg (by omega)]
  have hlt : x.significand < 2 ^ 52 + 1 := by exact_mod_cast h
  omega

theorem round_covered (hfinite : x.isFinite = true) (hsome : x.significand ≠ 0)
    (h : (ofDouble x).Covers (m * 2 ^ q)) : BinaryFormat.double.round m q = x.magnitude.bits.toNat := by
  obtain ⟨hlow, hhigh, heven⟩ := h.near hsome
  have hone : (1 : ℚ) ≤ x.significand := by exact_mod_cast Nat.pos_of_ne_zero hsome
  have hlt : (x.significand : ℚ) + 1 ≤ 2 ^ 53 := by exact_mod_cast Double.significand_lt x
  have hunit : (0 : ℚ) < 2 ^ x.exponent := by positivity
  have hhalf : (x.significand : ℚ) - 1 / 2 ≤ m * 2 ^ q / 2 ^ x.exponent := by
    refine le_trans ?_ hlow
    split <;> linarith
  have hm : m ≠ 0 := by
    rintro rfl
    rw [Nat.cast_zero, zero_mul, zero_div] at hhalf
    linarith
  by_cases hfull : 2 ^ 52 ≤ m * 2 ^ q / (2 : ℚ) ^ x.exponent ∨ x.exponent = -1074
  · exact round_eq_of_unit hfinite hm (Double.le_exponent x) hfull (by linarith) ⟨hhalf, hhigh, heven⟩
      (Double.toNat_magnitude_eq x).symm
  · -- Below a power of two the unit is half as wide, and the number rounds up to that power.
    obtain ⟨hbelow, hexponent⟩ := not_or.mp hfull
    rw [not_le] at hbelow
    have hleast := Double.le_exponent x
    obtain ⟨hfraction, hfield, hsignificand⟩ := power_of_lt hexponent (by linarith)
    rw [if_pos ⟨hfraction, hfield⟩, hsignificand] at hlow
    have hdouble : (m * 2 ^ q / 2 ^ (x.exponent - 1) : ℚ) = 2 * (m * 2 ^ q / 2 ^ x.exponent) := by
      rw [zpow_sub_one₀ two_ne_zero]
      field_simp
    refine round_eq_of_unit (e := x.exponent - 1) (n := 2 ^ 53) hfinite hm (by omega) (.inl ?_) ?_ ⟨?_, ?_, fun _ => by decide⟩ ?_
    · rw [hdouble]
      push_cast at hlow
      linarith
    · rw [hdouble]
      linarith
    · rw [hdouble]
      push_cast at hlow ⊢
      linarith
    · rw [hdouble]
      push_cast
      linarith
    · rw [Double.toNat_magnitude_eq, hsignificand]
      omega

/-- The ends of the interval are multiples of the unit in which a fraction is cut off. -/
theorem ends_ofDouble (x : Double) : ∃ low high : ℕ,
    (ofDouble x).bottom = low * 2 ^ (-1075 : ℤ) ∧ (ofDouble x).top = high * 2 ^ (-1075 : ℤ) := by
  rw [bottom_ofDouble, top_ofDouble]
  have hleast := Double.le_exponent x
  by_cases hexponent : x.exponent = -1074
  · have hfield : ¬ (x.fractionField = 0 ∧ 1 < x.exponentField) := by
      unfold Double.exponent at hexponent
      omega
    have hhalf : (2 : ℚ) * 2 ^ (-1074 - 2 : ℤ) = 2 ^ (-1075 : ℤ) := by
      rw [two_zpow_half (-1075), show (-1074 - 2 : ℤ) = -1075 - 1 from rfl]
    refine ⟨2 * x.significand - 1, 2 * x.significand + 1, ?_, ?_⟩
    · rw [if_neg hfield, hexponent, show 4 * x.significand - 2 = (2 * x.significand - 1) * 2 by omega, Nat.cast_mul,
        mul_assoc]
      exact congrArg _ hhalf
    · rw [hexponent, show 4 * x.significand + 2 = (2 * x.significand + 1) * 2 by omega, Nat.cast_mul, mul_assoc]
      exact congrArg _ hhalf
  · have hpower : (2 : ℚ) ^ (x.exponent - 2) = (2 ^ (x.exponent + 1073).toNat : ℕ) * 2 ^ (-1075 : ℤ) := by
      rw [Nat.cast_pow, ← zpow_natCast, Int.toNat_of_nonneg (by omega), Nat.cast_ofNat, ← zpow_add₀ two_ne_zero]
      congr 1
      omega
    rw [hpower]
    exact ⟨_, _, by rw [← mul_assoc, ← Nat.cast_mul], by rw [← mul_assoc, ← Nat.cast_mul]⟩

/-- Twice the whole part of a quotient, and one more when there is a rest, compares with an even number as the quotient does
with half of it. -/
theorem cut_compare {scaled power n : ℕ} (hpower : 0 < power) :
    (n * power ≤ scaled ↔ 2 * n ≤ 2 * (scaled / power) + min (scaled % power) 1) ∧
      (scaled ≤ n * power ↔ 2 * (scaled / power) + min (scaled % power) 1 ≤ 2 * n) := by
  have hsplit := Nat.div_add_mod scaled power
  have hrest := Nat.mod_lt scaled hpower
  rw [← Nat.le_div_iff_mul_le hpower]
  refine ⟨by omega, ?_⟩
  generalize scaled / power = whole at hsplit ⊢
  generalize scaled % power = rest at hsplit hrest ⊢
  subst hsplit
  rcases Nat.lt_trichotomy whole n with hlt | rfl | hgt
  · have := Nat.mul_le_mul_left power (Nat.succ_le_of_lt hlt)
    rw [Nat.mul_succ, Nat.mul_comm power n] at this
    omega
  · rw [Nat.mul_comm whole]
    omega
  · have := Nat.mul_le_mul_left power (Nat.succ_le_of_lt hgt)
    rw [Nat.mul_succ, Nat.mul_comm power n] at this
    omega

theorem Covers.cut {scaled power : ℕ} (hpower : 0 < power)
    (h : (ofDouble x).Covers ((scaled : ℚ) / power * 2 ^ (-1075 : ℤ))) :
    (ofDouble x).Covers ((2 * (scaled / power) + min (scaled % power) 1 : ℕ) * 2 ^ (-1076 : ℤ)) := by
  obtain ⟨low, high, hbottom, htop⟩ := ends_ofDouble x
  have hp : (0 : ℚ) < power := by exact_mod_cast hpower
  have hunit : (0 : ℚ) < 2 ^ (-1076 : ℤ) := by positivity
  have hdouble (v : ℚ) : v * 2 ^ (-1075 : ℤ) = 2 * v * 2 ^ (-1076 : ℤ) := by
    rw [two_zpow_half, mul_comm 2 v, mul_assoc]
    rfl
  have hle (n : ℕ) : (n : ℚ) ≤ scaled / power ↔
      (2 * n : ℚ) ≤ (2 * (scaled / power) + min (scaled % power) 1 : ℕ) := by
    rw [le_div_iff₀ hp]
    exact_mod_cast (cut_compare hpower).1
  have hge (n : ℕ) : (scaled : ℚ) / power ≤ n ↔
      ((2 * (scaled / power) + min (scaled % power) 1 : ℕ) : ℚ) ≤ 2 * n := by
    rw [div_le_iff₀ hp]
    exact_mod_cast (cut_compare hpower).2
  have hbounds := h.bounds
  rw [hbottom, htop, hdouble, hdouble, hdouble, mul_le_mul_iff_of_pos_right hunit, mul_le_mul_iff_of_pos_right hunit,
    mul_le_mul_iff_of_pos_left two_pos, mul_le_mul_iff_of_pos_left two_pos] at hbounds
  refine h.congr ?_ ?_
  · rw [hbottom, hdouble, hdouble, mul_le_mul_iff_of_pos_right hunit, mul_lt_mul_iff_of_pos_right hunit,
      mul_lt_mul_iff_of_pos_right hunit, mul_lt_mul_iff_of_pos_left two_pos, ← not_le, ← not_le, hge]
    exact ⟨(hle low).mp hbounds.1, id⟩
  · rw [htop, hdouble, hdouble, mul_le_mul_iff_of_pos_right hunit, mul_lt_mul_iff_of_pos_right hunit,
      mul_lt_mul_iff_of_pos_right hunit, mul_lt_mul_iff_of_pos_left two_pos, ← not_le, ← not_le, hle]
    exact ⟨(hge high).mp hbounds.2, id⟩

theorem shiftLeft_mul_zpow (n k power : ℕ) : ((n <<< k : ℕ) : ℚ) / power * 2 ^ (-k : ℤ) = n / power := by
  rw [Nat.shiftLeft_eq, div_mul_eq_mul_div, Nat.cast_mul, mul_assoc, Nat.cast_pow, Nat.cast_ofNat, zpow_neg,
    zpow_natCast, mul_inv_cancel₀ (by positivity), mul_one]

theorem ofParts_covered (hfinite : x.isFinite = true) (hsome : x.significand ≠ 0)
    (h : (ofDouble x).Covers (m * 2 ^ q)) : Double.ofParts false m q = x.magnitude := by
  simp only [Double.ofParts, round_covered hfinite hsome h, UInt64.ofNat_toNat]
  rfl

theorem ofDecimal_covered {digits : ℕ} {exponent : ℤ} (hfinite : x.isFinite = true) (hsome : x.significand ≠ 0)
    (h : (ofDouble x).Covers (digits * 10 ^ exponent)) : Double.ofDecimal digits exponent = x.magnitude := by
  unfold Double.ofDecimal
  dsimp only
  split
  · next hnonneg =>
    refine ofParts_covered hfinite hsome ?_
    obtain ⟨n, rfl⟩ := Int.eq_ofNat_of_zero_le hnonneg
    rw [zpow_natCast] at h
    rw [zpow_zero, mul_one]
    exact_mod_cast h
  · next hneg =>
    have hpower : 0 < tenTo exponent.natAbs := Nat.pow_pos (by decide)
    refine ofParts_covered hfinite hsome (Covers.cut hpower ?_)
    obtain ⟨n, rfl⟩ := Int.exists_eq_neg_ofNat (Int.le_of_lt (Int.not_le.mp hneg))
    rw [zpow_neg, zpow_natCast, ← div_eq_mul_inv] at h
    have hcast := shiftLeft_mul_zpow digits 1075 (tenTo n)
    rw [Int.natAbs_neg, Int.natAbs_natCast]
    rw [← natCast_tenTo, ← hcast] at h
    exact h

/-- Powers compare when the logarithms of the bases have a common bound between them. -/
theorem pow_le_of_rate {b c p q m n : ℕ} (h : b ^ p ≤ c ^ q) (hmn : n * q ≤ m * p) (hp : p ≠ 0) (hc : 0 < c) :
    b ^ n ≤ c ^ m := by
  rw [← Nat.pow_le_pow_iff_left hp]
  calc (b ^ n) ^ p = (b ^ p) ^ n := by rw [← pow_mul, ← pow_mul, mul_comm]
    _ ≤ (c ^ q) ^ n := Nat.pow_le_pow_left h n
    _ = c ^ (n * q) := by rw [← pow_mul, mul_comm]
    _ ≤ c ^ (m * p) := Nat.pow_le_pow_right hc hmn
    _ = (c ^ m) ^ p := pow_mul ..

theorem decimalLength_bounds {n : ℕ} (h : n < 100000) :
    2 ^ n ≤ 10 ^ (n * 30103 / 100000 + 1) ∧ 10 ^ (n * 30103 / 100000) ≤ 2 ^ (n + 1) := by
  constructor
  · exact pow_le_of_rate (p := 100000) (q := 30103) (by decide +kernel) (by omega) (by decide) (by decide)
  · exact pow_le_of_rate (p := 30103) (q := 100001) (by decide +kernel) (by omega) (by decide) (by decide)

theorem ofDouble_bounds (hfinite : x.isFinite = true) (hsome : x.significand ≠ 0) :
    (2 : ℚ) ^ (-1075 : ℤ) ≤ (ofDouble x).bottom ∧ (ofDouble x).top ≤ 2 ^ (1024 : ℤ) := by
  rw [bottom_ofDouble, top_ofDouble]
  have hleast := Double.le_exponent x
  have hgreatest : x.exponent ≤ 971 := by
    have := Double.isFinite_iff.mp hfinite
    unfold Double.exponent
    omega
  have hone : 1 ≤ x.significand := Nat.pos_of_ne_zero hsome
  have hlt := Double.significand_lt x
  constructor
  · have hpower : (2 : ℚ) ^ (-1076 : ℤ) ≤ 2 ^ (x.exponent - 2) := zpow_le_zpow_right₀ one_le_two (by omega)
    have htwo : (2 : ℚ) ≤ (4 * x.significand - if x.fractionField = 0 ∧ 1 < x.exponentField then 1 else 2 : ℕ) := by
      exact_mod_cast (by split <;> omega :
        2 ≤ 4 * x.significand - if x.fractionField = 0 ∧ 1 < x.exponentField then 1 else 2)
    rw [two_zpow_half]
    exact mul_le_mul htwo hpower (by positivity) (by positivity)
  · have hpower : (2 : ℚ) ^ (x.exponent - 2) ≤ 2 ^ (969 : ℤ) := zpow_le_zpow_right₀ one_le_two (by omega)
    have hlarge : ((4 * x.significand + 2 : ℕ) : ℚ) ≤ 2 ^ (55 : ℤ) := by
      exact_mod_cast (by omega : 4 * x.significand + 2 ≤ 2 ^ 55)
    rw [show (1024 : ℤ) = 55 + 969 from rfl, zpow_add₀ two_ne_zero]
    exact mul_le_mul hlarge hpower (by positivity) (by positivity)

/-- The length that is estimated for the digits of a number is off by less than one digit. -/
theorem decimalLength_spec {n : ℕ} (hn : n ≠ 0) (hlog : n.log2 < 100000) :
    (n : ℚ) < 2 * 10 ^ (decimalLength n : ℤ) ∧ (10 : ℚ) ^ (decimalLength n - 1 : ℤ) ≤ 2 * n := by
  obtain ⟨hlength, hlength'⟩ := decimalLength_bounds hlog
  have hfirst : ((twoTo n.log2 : ℕ) : ℚ) ≤ n := by exact_mod_cast Nat.log2_self_le hn
  have hnext : (n : ℚ) < 2 * (twoTo n.log2 : ℕ) := by
    have : n < twoTo n.log2 * 2 := Nat.lt_log2_self
    exact_mod_cast (by omega : n < 2 * twoTo n.log2)
  unfold decimalLength
  generalize n.log2 * 30103 / 100000 = places at hlength hlength' ⊢
  rw [Nat.cast_succ, add_sub_cancel_right]
  constructor
  · have hlong : ((twoTo n.log2 : ℕ) : ℚ) ≤ 10 ^ (places + 1 : ℤ) := by
      rw [← Nat.cast_succ, zpow_natCast, ← natCast_tenTo]
      exact_mod_cast hlength
    linarith
  · have hshort : (10 : ℚ) ^ (places : ℤ) ≤ 2 * (twoTo n.log2 : ℕ) := by
      have : tenTo places ≤ twoTo n.log2 * 2 := hlength'
      rw [zpow_natCast, ← natCast_tenTo]
      exact_mod_cast (by omega : tenTo places ≤ 2 * twoTo n.log2)
    linarith

/-- The length of the digits of a covered number, and its exponent, are well inside what is looked at for the range. -/
theorem decimalLength_covered {digits : ℕ} {exponent : ℤ} (hfinite : x.isFinite = true) (hsome : x.significand ≠ 0)
    (h : (ofDouble x).Covers (digits * 10 ^ exponent)) (hexponent : -340 ≤ exponent) :
    digits ≠ 0 ∧ -400 ≤ exponent + decimalLength digits ∧ exponent + decimalLength digits ≤ 400 := by
  obtain ⟨hbottom, htop⟩ := ofDouble_bounds hfinite hsome
  have hlow := hbottom.trans h.bounds.1
  have hhigh := h.bounds.2.trans htop
  have hten (q : ℤ) : (0 : ℚ) < 10 ^ q := by positivity
  have hpos : digits ≠ 0 := by
    rintro rfl
    rw [Nat.cast_zero, zero_mul] at hlow
    exact absurd hlow (not_le.mpr (by positivity))
  have hlog : digits.log2 < 100000 := by
    refine Nat.lt_of_lt_of_le ((Nat.log2_lt (k := 2200) hpos).mpr ?_) (by decide)
    have hmost : (digits : ℚ) ≤ 2 ^ (1024 : ℤ) * 10 ^ (340 : ℤ) := by
      calc (digits : ℚ) = digits * 10 ^ exponent * 10 ^ (-exponent) := by
            rw [mul_assoc, ← zpow_add₀ (by norm_num), add_neg_cancel, zpow_zero, mul_one]
        _ ≤ 2 ^ (1024 : ℤ) * 10 ^ (340 : ℤ) :=
            mul_le_mul hhigh (zpow_le_zpow_right₀ (by norm_num) (by omega)) (hten _).le (by positivity)
    have hfew : digits ≤ 2 ^ 1024 * 10 ^ 340 := by exact_mod_cast hmost
    exact lt_of_le_of_lt hfew (by decide +kernel)
  obtain ⟨hlong, hshort⟩ := decimalLength_spec hpos hlog
  generalize (decimalLength digits : ℤ) = length at hlong hshort ⊢
  refine ⟨hpos, Int.not_lt.mp fun hsmall => ?_, Int.not_lt.mp fun hlarge => ?_⟩
  · have hmost : (2 : ℚ) ^ (-1075 : ℤ) < 2 * 10 ^ (-401 : ℤ) := by
      calc (2 : ℚ) ^ (-1075 : ℤ) ≤ digits * 10 ^ exponent := hlow
        _ < 2 * 10 ^ length * 10 ^ exponent := mul_lt_mul_of_pos_right hlong (hten exponent)
        _ = 2 * 10 ^ (length + exponent) := by rw [mul_assoc, ← zpow_add₀ (by norm_num)]
        _ ≤ 2 * 10 ^ (-401 : ℤ) :=
            mul_le_mul_of_nonneg_left (zpow_le_zpow_right₀ (by norm_num) (by omega)) two_pos.le
    rw [zpow_neg, zpow_neg, ← div_eq_mul_inv, inv_eq_one_div, div_lt_div_iff₀ (by positivity) (by positivity)] at hmost
    have hpowers : 1 * 10 ^ 401 < 2 * 2 ^ 1075 := by exact_mod_cast hmost
    exact absurd hpowers (by decide +kernel)
  · have hleast : (10 : ℚ) ^ (400 : ℤ) ≤ 2 * 2 ^ (1024 : ℤ) := by
      calc (10 : ℚ) ^ (400 : ℤ) ≤ 10 ^ (length - 1 + exponent) := zpow_le_zpow_right₀ (by norm_num) (by omega)
        _ = 10 ^ (length - 1) * 10 ^ exponent := zpow_add₀ (by norm_num) ..
        _ ≤ 2 * digits * 10 ^ exponent := mul_le_mul_of_nonneg_right hshort (hten exponent).le
        _ ≤ 2 * 2 ^ (1024 : ℤ) := by
            rw [mul_assoc]
            exact mul_le_mul_of_nonneg_left hhigh two_pos.le
    have hpowers : 10 ^ 400 ≤ 2 * 2 ^ 1024 := by exact_mod_cast hleast
    exact absurd hpowers (by decide +kernel)

theorem toDouble_covered {l : Literal} (hfinite : x.isFinite = true) (hsome : x.significand ≠ 0)
    (h : (ofDouble x).Covers (l.digits * 10 ^ l.exponent)) (hexponent : -340 ≤ l.exponent) :
    l.toDouble = if l.negative then -x.magnitude else x.magnitude := by
  obtain ⟨hpos, hlow, hhigh⟩ := decimalLength_covered hfinite hsome h hexponent
  simp only [Literal.toDouble]
  rw [if_neg (not_or.mpr ⟨hpos, by omega⟩), if_neg (show ¬ 400 < l.exponent + decimalLength l.digits by omega),
    ofDecimal_covered hfinite hsome h]

end Rounding

end Apiary
