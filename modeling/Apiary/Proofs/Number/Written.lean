import Apiary.Proofs.Number.Digits
import Apiary.Proofs.Number.Whole

/-!
Which numbers are written as counts: the natural numbers below `10 ^ 21`. The digits of a number with a fraction go below
its point, since no whole number rounds to it.
-/

namespace Apiary

namespace Rounding

variable {r : Rounding}

/-- The decimal stands for a number of the interval. -/
def Admits (r : Rounding) (d : Decimal) : Prop :=
  (r.shift d.exponent).contains (d.digits * (r.shift d.exponent).scale) = true

theorem contains_mul {u n value value' low high scale scale' : Nat} {closed : Bool} (hu : 0 < u) :
    Rounding.contains ⟨value, low * u, high * u, scale, closed⟩ (n * u) =
      Rounding.contains ⟨value', low, high, scale', closed⟩ n := by
  simp only [contains, Nat.mul_le_mul_right_iff hu, Nat.mul_lt_mul_right hu]

theorem contains_of_whole {tie : Tie} {n : Nat} (h : r.whole? tie = some n) : r.contains (n * r.scale) = true := by
  unfold whole? at h
  cases hdown : r.contains (r.value / r.scale * r.scale) <;>
    cases hup : r.contains ((r.value / r.scale + 1) * r.scale) <;> simp only [hdown, hup] at h
  case false.false => cases h
  case false.true => rwa [← Option.some.inj h]
  case true.false => rwa [← Option.some.inj h]
  case true.true =>
    have hnext : n = r.value / r.scale ∨ n = r.value / r.scale + 1 := by
      split at h
      · exact .inl (Option.some.inj h).symm
      · split at h
        · exact .inr (Option.some.inj h).symm
        · cases tie with
          | upper => exact .inr (Option.some.inj h).symm
          | even =>
            have := Option.some.inj h
            omega
    rcases hnext with rfl | rfl
    · exact hdown
    · exact hup

theorem Admits.strip {d : Decimal} (h : r.Admits d) (hlast : d.digits % 10 = 0) :
    r.Admits ⟨d.digits / 10, d.exponent + 1⟩ := by
  obtain ⟨digits, g⟩ := d
  have hdigits : digits = digits / 10 * 10 := by
    dsimp only at hlast
    omega
  rw [hdigits] at h
  revert h
  show r.Admits ⟨digits / 10 * 10, g⟩ → r.Admits ⟨digits / 10, g + 1⟩
  generalize digits / 10 = n
  simp only [Admits]
  intro h
  rcases Int.lt_or_le g 0 with hneg | hnonneg
  · have hplaces : tenTo (-g).toNat = tenTo (-(g + 1)).toNat * 10 := by
      rw [show (-g).toNat = (-(g + 1)).toNat + 1 by omega]
      rfl
    have hscale : tenTo g.toNat = tenTo (g + 1).toNat := congrArg tenTo (by omega)
    simp only [shift, hplaces, hscale, ← Nat.mul_assoc] at h ⊢
    rw [Nat.mul_right_comm n 10, Nat.mul_right_comm _ 10] at h
    exact (contains_mul (by decide)).symm.trans h
  · have hplaces : (-g).toNat = (-(g + 1)).toNat := by omega
    have hscale : tenTo (g + 1).toNat = 10 * tenTo g.toNat := by
      rw [show (g + 1).toNat = g.toNat + 1 by omega, Nat.mul_comm]
      rfl
    simp only [shift, hplaces, hscale] at h ⊢
    rw [Nat.mul_left_comm r.scale, ← Nat.mul_assoc n]
    exact h

theorem Admits.stripZeros {n : Nat} {d : Decimal} (h : r.Admits d) : r.Admits (Decimal.stripZeros n d) := by
  induction n generalizing d with
  | zero => exact h
  | succ n ih =>
    unfold Decimal.stripZeros
    split
    · next hlast => exact ih (h.strip hlast)
    · exact h

/-- No whole number is in the interval. -/
def Fractional (r : Rounding) : Prop := ∀ n, r.contains (n * r.scale) = false

theorem Fractional.exponent_neg {d : Decimal} (hr : r.Fractional) (h : r.Admits d) : d.exponent < 0 := by
  refine Int.not_le.mp fun hnonneg => ?_
  have hplaces : (-d.exponent).toNat = 0 := by omega
  have hone : tenTo 0 = 1 := rfl
  have hwhole := hr (d.digits * tenTo d.exponent.toNat)
  rw [Nat.mul_assoc, Nat.mul_comm (tenTo _)] at hwhole
  simp only [Admits, shift, hplaces, hone, Nat.mul_one] at h
  exact absurd (hwhole.symm.trans h) (by decide)

theorem Fractional.search {tie : Tie} {k : Int} {n count : Nat} (hr : r.Fractional) (hk : k + 1 < count + n) :
    (r.search tie k n count).exponent < 0 := by
  -- A grid of whole numbers has nothing in the interval; the grids that are left after it have fractions.
  induction n generalizing count with
  | zero =>
    show k - count + 1 < 0
    omega
  | succ n ih =>
    cases h : (r.shift (k - count + 1)).whole? tie with
    | some d =>
      simp only [Rounding.search, h]
      exact hr.exponent_neg (Admits.stripZeros (contains_of_whole h))
    | none =>
      simp only [Rounding.search, h]
      exact ih (by omega)

theorem magnitude_le (hvalue : r.value < 0x80000000000000) (hscale : 8 ≤ r.scale) : r.magnitude ≤ 16 := by
  have hlog : r.value.log2 < 55 := by
    rcases Nat.eq_zero_or_pos r.value with hzero | hpos
    · simp [hzero]
    · exact (Nat.log2_lt (Nat.ne_of_gt hpos)).mpr hvalue
  have hlog' : 3 ≤ r.scale.log2 := (Nat.le_log2 (by omega)).mpr hscale
  unfold magnitude
  dsimp only
  split
  · next h =>
    rw [decide_eq_true_eq] at h
    refine Int.not_lt.mp fun hbig => ?_
    have hten : tenTo 17 ≤ tenTo (((r.value.log2 : Int) - r.scale.log2 - 1) * 78913 / 262144 + 2).toNat :=
      Nat.pow_le_pow_right (by decide) (by omega)
    have hnone : (-(((r.value.log2 : Int) - r.scale.log2 - 1) * 78913 / 262144 + 2)).toNat = 0 := by omega
    have hone : tenTo 0 = 1 := rfl
    have hmuch : 8 * 100000000000000000 ≤ r.scale * tenTo _ := Nat.mul_le_mul hscale hten
    rw [hnone, hone] at h
    omega
  · split <;> omega

theorem le_of_contains {n : Nat} (h : r.contains n = true) : r.low ≤ n ∧ n ≤ r.high := by
  unfold contains at h
  split at h <;> simp only [Bool.and_eq_true, decide_eq_true_eq] at h <;> omega

/-- A number with a fraction is half a unit of its last bit away from every whole number at least. -/
theorem ofDouble_fractional {x : Double} (h : ¬ x.isWhole = true) (hfinite : x.isFinite = true) :
    (ofDouble x).Fractional ∧ (ofDouble x).value < 0x80000000000000 ∧ 8 ≤ (ofDouble x).scale := by
  rw [Double.isWhole, hfinite, Bool.true_and, Bool.or_eq_true, decide_eq_true_eq, beq_iff_eq, not_or] at h
  obtain ⟨hexponent, hrest⟩ := h
  have hone : 1 <<< (x.exponent - 2).toNat = 1 := by
    rw [show (x.exponent - 2).toNat = 0 by omega]
    rfl
  have hscale : (ofDouble x).scale = 4 * twoTo (-x.exponent).toNat := by
    show 1 <<< (-(x.exponent - 2)).toNat = _
    rw [show (-(x.exponent - 2)).toNat = (-x.exponent).toNat + 2 by omega, Nat.one_shiftLeft, Nat.pow_add, Nat.mul_comm]
    rfl
  have hvalue : (ofDouble x).value = 4 * x.significand := by
    show 4 * x.significand * 1 <<< (x.exponent - 2).toNat = _
    rw [hone, Nat.mul_one]
  have hlow : 4 * x.significand - 2 ≤ (ofDouble x).low := by
    show _ ≤ (4 * x.significand - if _ then 1 else 2) * 1 <<< (x.exponent - 2).toNat
    rw [hone]
    split <;> omega
  have hhigh : (ofDouble x).high = 4 * x.significand + 2 := by
    show (4 * x.significand + 2) * 1 <<< (x.exponent - 2).toNat = _
    rw [hone, Nat.mul_one]
  have hlt := Double.significand_lt x
  have htwo : 2 ≤ twoTo (-x.exponent).toNat := Double.two_le_twoTo (by omega)
  refine ⟨fun n => ?_, by omega, by omega⟩
  refine eq_false_of_ne_true fun hwhole => hrest ?_
  have hbetween := le_of_contains hwhole
  rw [hscale, Nat.mul_left_comm] at hbetween
  -- Both are multiples of four, and the interval reaches two to each side.
  have heq : n * twoTo (-x.exponent).toNat = x.significand := by omega
  rw [← heq]
  exact Nat.mul_mod_left ..

end Rounding

theorem shortest_exponent_neg {tie : Tie} {x : Double} (h : ¬ x.isWhole = true) (hfinite : x.isFinite = true) :
    (shortest tie x).exponent < 0 := by
  obtain ⟨hfractional, hvalue, hscale⟩ := Rounding.ofDouble_fractional h hfinite
  have := Rounding.magnitude_le hvalue hscale
  exact hfractional.search (by omega)

theorem point_mem_positional {d : Decimal} (h : d.exponent < 0) : '.' ∈ d.positional := by
  rw [Decimal.positional, if_neg (by omega), pointAt, if_neg (by omega)]
  exact List.mem_append_right _ (List.mem_cons_self ..)

theorem mem_signed {x : Double} {text : List Char} {c : Char} (hc : c ∈ text) : c ∈ (signed x text).toList := by
  rw [signed, String.toList_ofList]
  split
  · exact List.mem_cons_of_mem _ hc
  · exact hc

theorem minus_mem_signed {x : Double} {text : List Char} (h : x.isNegative = true) : '-' ∈ (signed x text).toList := by
  rw [signed, String.toList_ofList, if_pos h]
  exact List.mem_cons_self ..

def Nameless (text : String) : Prop := (∀ i, ¬ Counts text i) ∧ text ≠ "length"

theorem nameless_of_mem {text : String} (c c' : Char) (hc : c ∈ text.toList) (hc' : c' ∈ text.toList)
    (hforeign : ¬ (c = '+' ∨ (digitOf? 10 c).isSome)) (hother : c' ∉ "length".toList) : Nameless text :=
  ⟨fun _ h => hforeign (h.chars hc), fun heq => hother (heq ▸ hc')⟩

theorem nameless_scientific (x : Double) (d : Decimal) : Nameless (signed x d.scientific) := by
  have hmark : 'e' ∈ (signed x d.scientific).toList := mem_signed (List.mem_append_right _ (List.mem_cons_self ..))
  have hsign : (if d.leading < 0 then '-' else '+') ∈ (signed x d.scientific).toList :=
    mem_signed (List.mem_append_right _ (List.mem_cons_of_mem _ (List.mem_cons_self ..)))
  refine nameless_of_mem _ _ hmark hsign (by decide) ?_
  split <;> decide

theorem numberText_cases (x : Double) :
    (∃ i, x.IsNat i ∧ numberText x = String.ofList (decimalDigits i)) ∨ Nameless (numberText x) := by
  unfold numberText
  split
  · unfold nonFiniteText
    split
    · exact .inr (nameless_of_mem 'N' 'N' (by decide) (by decide) (by decide) (by decide))
    · split <;>
        exact .inr (nameless_of_mem 'I' 'I' (by decide) (by decide) (by decide) (by decide))
  · next hfinite =>
    replace hfinite := Decidable.not_not.mp hfinite
    split
    · next hzero => exact .inl ⟨0, Double.isNat_zero hfinite ((Double.beq_zero_iff hfinite).mp hzero), rfl⟩
    · dsimp only
      split
      · exact .inr (nameless_scientific x _)
      · split
        · next hwhole =>
          cases hnegative : x.isNegative with
          | true =>
            have hminus : '-' ∈ (signed x (decimalDigits x.wholeMagnitude)).toList := minus_mem_signed hnegative
            exact .inr (nameless_of_mem _ _ hminus hminus (by decide) (by decide))
          | false =>
            have hnonneg := (Double.nonneg_iff hfinite).mpr (.inr hnegative)
            exact .inl ⟨_, Double.isNat_wholeMagnitude hwhole hnonneg, by simp [signed, hnegative]⟩
        · next hfraction =>
          have hpoint : '.' ∈ (signed x (shortest .upper x.magnitude).positional).toList :=
            mem_signed (point_mem_positional (shortest_exponent_neg
              (by rwa [Double.isWhole_magnitude]) (by rwa [Double.isFinite_magnitude])))
          exact .inr (nameless_of_mem _ _ hpoint hpoint (by decide) (by decide))

end Apiary
