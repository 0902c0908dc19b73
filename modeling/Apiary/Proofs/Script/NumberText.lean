import Apiary.Proofs.Number.Equality
import Apiary.Proofs.Number.Nearest
import Apiary.Proofs.Script.DataText
import Apiary.Proofs.Script.Leading

/-!
Numbers as scripts print them. The digits found for a double lie in its interval, whatever notation they are written in,
so every reader of numbers gives the double back.
-/

namespace Apiary

namespace Rounding

variable {r : Rounding} {x : Double}

/-- The estimate of the decimal magnitude from the binary one is never too large. -/
theorem ten_zpow_estimate {t : ℤ} (h : -1100 < t) : (10 : ℚ) ^ (t * 78913 / 262144) ≤ 2 ^ t := by
  rcases Int.lt_or_le t 0 with hneg | hnonneg
  · obtain ⟨n, rfl⟩ := Int.exists_eq_neg_ofNat hneg.le
    obtain ⟨m, hm⟩ := Int.exists_eq_neg_ofNat (show -(n : ℤ) * 78913 / 262144 ≤ 0 by omega)
    -- 146 / 485 is just above the logarithm, and no fraction with a small denominator lies between it and the estimate
    have hrate : n * 146 ≤ m * 485 := by
      have : 351 * n < 1166 * m := by omega
      omega
    rw [hm, zpow_neg, zpow_neg, zpow_natCast, zpow_natCast]
    refine inv_anti₀ (by positivity) ?_
    exact_mod_cast pow_le_of_rate (p := 485) (q := 146) (by decide +kernel) hrate (by decide) (by decide)
  · obtain ⟨n, rfl⟩ := Int.eq_ofNat_of_zero_le hnonneg
    obtain ⟨m, hm⟩ := Int.eq_ofNat_of_zero_le (show 0 ≤ (n : ℤ) * 78913 / 262144 by omega)
    rw [hm, zpow_natCast, zpow_natCast]
    exact_mod_cast pow_le_of_rate (p := 78913) (q := 262144) (by decide +kernel) (show m * 262144 ≤ n * 78913 by omega)
      (by decide) (by decide)

def center (r : Rounding) : ℚ := r.value / r.scale

theorem center_ofDouble (x : Double) : (ofDouble x).center = x.significand * 2 ^ x.exponent := by
  have hquarter : (ofDouble x).center = ((4 * x.significand : ℕ) : ℚ) * 2 ^ (x.exponent - 2) := by
    rw [two_zpow, ← mul_div_assoc, ← Nat.cast_mul]
    rfl
  rw [hquarter, quarter_zpow]
  push_cast
  ring

theorem scale_pos (x : Double) : 0 < (ofDouble x).scale := by
  show 0 < 1 <<< _
  rw [Nat.one_shiftLeft]
  exact Nat.two_pow_pos _

theorem magnitude_spec (hscale : 0 < r.scale) (hvalue : 0 < r.value) (hlow : 2 ^ (-1075 : ℤ) ≤ r.center) :
    (10 : ℚ) ^ r.magnitude ≤ r.center ∧ -324 ≤ r.magnitude := by
  have hs : (0 : ℚ) < r.scale := by exact_mod_cast hscale
  have hlog : (2 : ℚ) ^ ((r.value.log2 : ℤ) - r.scale.log2 - 1) ≤ r.center := by
    rw [sub_sub, zpow_sub₀ two_ne_zero, center]
    refine div_le_div₀ (by positivity) ?_ hs ?_
    · rw [zpow_natCast]
      exact_mod_cast Nat.log2_self_le hvalue.ne'
    · exact_mod_cast Nat.lt_log2_self.le
  have hrange : -1077 < (r.value.log2 : ℤ) - r.scale.log2 - 1 := by
    have hnext : r.center < 2 ^ ((r.value.log2 : ℤ) + 1 - r.scale.log2) := by
      rw [zpow_sub₀ two_ne_zero, center]
      refine div_lt_div₀ ?_ ?_ (by positivity) (by positivity)
      · exact_mod_cast Nat.lt_log2_self
      · rw [zpow_natCast]
        exact_mod_cast Nat.log2_self_le hscale.ne'
    have := (zpow_lt_zpow_iff_right₀ (one_lt_two (α := ℚ))).mp (hlow.trans_lt hnext)
    omega
  have hestimate := (ten_zpow_estimate (by omega)).trans hlog
  have hatLeast (k : ℤ) (h : decide (r.scale * tenTo k.toNat ≤ r.value * tenTo (-k).toNat) = true) : (10 : ℚ) ^ k ≤ r.center := by
    have hup : (0 : ℚ) < tenTo (-k).toNat := by exact_mod_cast Nat.pow_pos (show 0 < 10 by decide)
    rw [ten_zpow, center, div_le_div_iff₀ hup hs, mul_comm]
    exact_mod_cast of_decide_eq_true h
  unfold magnitude
  dsimp only
  split
  · next h => exact ⟨hatLeast _ h, by omega⟩
  · split
    · next h => exact ⟨hatLeast _ h, by omega⟩
    · exact ⟨hestimate, by omega⟩

theorem covers_of_lt {v : ℚ} (hbottom : r.bottom < v) (htop : v < r.top) : r.Covers v := by
  unfold Covers
  split
  · exact ⟨hbottom.le, htop.le⟩
  · exact ⟨hbottom, htop⟩

theorem whole_isSome_of {tie : Tie} (h : r.contains (r.value / r.scale * r.scale) = true ∨
    r.contains ((r.value / r.scale + 1) * r.scale) = true) : (r.whole? tie).isSome := by
  unfold whole?
  dsimp only
  split
  · next hdown hup => simp [hdown, hup] at h
  · rfl
  · rfl
  · split
    · rfl
    · split
      · rfl
      · cases tie <;> rfl

/-- A grid finer than the interval is wide has a number in it. -/
theorem whole_isSome (tie : Tie) {g : ℤ} (hscale : 0 < r.scale) (hbottom : r.bottom < r.center) (htop : r.center < r.top)
    (hwide : (10 : ℚ) ^ g < r.top - r.bottom) : ((r.shift g).whole? tie).isSome := by
  have hten : (0 : ℚ) < 10 ^ g := by positivity
  have hs : 0 < (r.shift g).scale := Nat.mul_pos hscale (Nat.pow_pos (by decide))
  have hcenter : r.center = ((r.shift g).value : ℚ) / (r.shift g).scale * 10 ^ g := by
    have hne : (tenTo (-g).toNat : ℚ) ≠ 0 := by
      rw [natCast_tenTo]
      positivity
    have hne' : (tenTo g.toNat : ℚ) ≠ 0 := by
      rw [natCast_tenTo]
      positivity
    rw [ten_zpow, center]
    simp only [shift, Nat.cast_mul]
    field_simp
  generalize hdown : (r.shift g).value / (r.shift g).scale = down
  have hlow : (down : ℚ) * 10 ^ g ≤ r.center := by
    rw [hcenter, ← hdown]
    gcongr
    exact Nat.cast_div_le
  have hhigh : r.center < ((down + 1 : ℕ) : ℚ) * 10 ^ g := by
    rw [hcenter, ← hdown]
    gcongr
    rw [div_lt_iff₀ (by exact_mod_cast hs)]
    exact_mod_cast Nat.lt_mul_of_div_lt (Nat.lt_succ_self _) hs
  have hcontains (n : ℕ) : r.bottom < n * 10 ^ g → (n : ℚ) * 10 ^ g < r.top →
      (r.shift g).contains (n * (r.shift g).scale) = true :=
    fun hl hh => (admits_iff (d := ⟨n, g⟩) hscale).mpr (covers_of_lt hl hh)
  refine whole_isSome_of ?_
  rw [hdown]
  rcases lt_or_ge r.bottom (down * 10 ^ g) with hin | hout
  · exact .inl (hcontains _ hin (hlow.trans_lt htop))
  · refine .inr (hcontains _ (hbottom.trans hhigh) ?_)
    rw [Nat.cast_succ, add_mul, one_mul]
    linarith

theorem exponent_stripZeros (n : ℕ) (d : Decimal) : d.exponent ≤ (Decimal.stripZeros n d).exponent := by
  induction n generalizing d with
  | zero => exact le_rfl
  | succ n ih =>
    unfold Decimal.stripZeros
    split
    · exact le_trans (by simp) (ih _)
    · exact le_rfl

/-- A search that reaches a fine enough grid ends with a number of the interval. -/
theorem search_spec (tie : Tie) {k : ℤ} (hscale : 0 < r.scale) (hbottom : r.bottom < r.center) (htop : r.center < r.top)
    (hwide : (10 : ℚ) ^ (k - 16) < r.top - r.bottom) {n count : ℕ} (hcount : count ≤ 17) (hreach : 17 < count + n) :
    r.Admits (r.search tie k n count) ∧ k - 16 ≤ (r.search tie k n count).exponent := by
  induction n generalizing count with
  | zero => omega
  | succ n ih =>
    cases h : (r.shift (k - count + 1)).whole? tie with
    | some d =>
      simp only [search, h]
      refine ⟨Admits.stripZeros (contains_of_whole h), le_trans ?_ (exponent_stripZeros ..)⟩
      show k - 16 ≤ k - count + 1
      omega
    | none =>
      simp only [search, h]
      refine ih (Nat.succ_le_of_lt (Nat.lt_of_le_of_ne hcount ?_)) (by omega)
      rintro rfl
      have hsome := whole_isSome tie hscale hbottom htop hwide
      rw [show k - 16 = k - (17 : ℕ) + 1 by omega, h] at hsome
      cases hsome

/-- Seventeen digits suffice: on a grid of so many the numbers are closer than the ends of the interval. -/
theorem grid_lt_width {k : ℤ} (hsome : x.significand ≠ 0) (hk : (10 : ℚ) ^ k ≤ (ofDouble x).center) :
    (10 : ℚ) ^ (k - 16) < (ofDouble x).top - (ofDouble x).bottom := by
  have hunit : (0 : ℚ) < 2 ^ x.exponent := by positivity
  have hlt : (x.significand : ℚ) < 2 ^ 53 := by exact_mod_cast Double.significand_lt x
  rw [center_ofDouble] at hk
  rw [top_eq, bottom_eq hsome, zpow_sub₀ (by norm_num), ← sub_mul]
  calc (10 : ℚ) ^ k / 10 ^ (16 : ℤ) ≤ x.significand * 2 ^ x.exponent / 10 ^ (16 : ℤ) := by gcongr
    _ = x.significand / 10 ^ (16 : ℤ) * 2 ^ x.exponent := by ring
    _ < _ := by
      gcongr
      split
      · next hpower =>
        have hsignificand : x.significand = 2 ^ 52 := by
          rw [Double.significand, if_neg (by omega), hpower.1]
          rfl
        rw [hsignificand]
        norm_num
      · rw [div_lt_iff₀ (by norm_num)]
        norm_num at hlt ⊢
        linarith

theorem center_between (hsome : x.significand ≠ 0) :
    (ofDouble x).bottom < (ofDouble x).center ∧ (ofDouble x).center < (ofDouble x).top := by
  have hunit : (0 : ℚ) < 2 ^ x.exponent := by positivity
  rw [bottom_eq hsome, top_eq, center_ofDouble]
  constructor <;> gcongr
  · split <;> linarith
  · linarith

theorem shortest_covered (tie : Tie) (hfinite : x.isFinite = true) (hsome : x.significand ≠ 0) :
    (ofDouble x).Covers ((shortest tie x).digits * 10 ^ (shortest tie x).exponent) ∧ -340 ≤ (shortest tie x).exponent := by
  obtain ⟨hbottom, htop⟩ := center_between hsome
  have hvalue : 0 < (ofDouble x).value :=
    Nat.mul_pos (by omega) (by rw [Nat.one_shiftLeft]; exact Nat.two_pow_pos _)
  obtain ⟨hk, hleast⟩ := magnitude_spec (scale_pos x) hvalue
    ((ofDouble_bounds hfinite hsome).1.trans hbottom.le)
  obtain ⟨hadmits, hexponent⟩ := search_spec tie (scale_pos x) hbottom htop (grid_lt_width hsome hk)
    (show 1 ≤ 17 by decide) (show 17 < 1 + 17 by decide)
  exact ⟨(admits_iff (scale_pos x)).mp hadmits, le_trans (by omega) hexponent⟩

theorem whole_covered (hsome : x.significand ≠ 0) (hwhole : x.isWhole = true) :
    (ofDouble x).Covers x.wholeMagnitude := by
  have hcenter : (ofDouble x).center = x.wholeMagnitude := by
    rw [center_ofDouble]
    rcases Int.lt_or_le x.exponent 0 with hneg | hnonneg
    · rw [Double.isWhole, Bool.and_eq_true, Bool.or_eq_true, decide_eq_true_eq, beq_iff_eq] at hwhole
      have hdvd := Nat.dvd_of_mod_eq_zero (hwhole.2.resolve_left (by omega))
      rw [Double.wholeMagnitude_of_neg hneg, Nat.cast_div hdvd (by simp), two_zpow, Int.toNat_of_nonpos hneg.le,
        Nat.one_shiftLeft, Nat.one_shiftLeft, pow_zero, Nat.cast_one, mul_one_div]
      rfl
    · rw [Double.wholeMagnitude_of_nonneg hnonneg, Nat.cast_mul, two_zpow, Int.toNat_of_nonpos (Int.neg_nonpos_of_nonneg hnonneg),
        Nat.one_shiftLeft, Nat.one_shiftLeft, pow_zero, Nat.cast_one, div_one]
      rfl
  have hbetween := center_between hsome
  rw [hcenter] at hbetween
  exact covers_of_lt hbetween.1 hbetween.2

end Rounding

theorem digitChar_digit : ∀ d < 10, (Nat.digitChar d).isDigit = true ∧ digitValue (Nat.digitChar d) = d := by decide

theorem decimalDigits_spec (n : Nat) :
    Digits (decimalDigits n) ∧ decimalDigits n ≠ [] ∧ natOfDigits (decimalDigits n) = n := by
  rw [natOfDigits_eq]
  induction n using Nat.strongRecOn with
  | ind n ih =>
    rw [decimalDigits, Nat.toDigits_eq_if (by decide)]
    split
    · next hlt =>
      obtain ⟨hdigit, hvalue⟩ := digitChar_digit n hlt
      exact ⟨by simpa [Digits] using hdigit, by simp, by simp [afterDigits, hvalue]⟩
    · obtain ⟨hdigit, hvalue⟩ := digitChar_digit (n % 10) (Nat.mod_lt n (by decide))
      obtain ⟨hd, hne, hrest⟩ := ih (n / 10) (by omega)
      rw [decimalDigits] at hd hne hrest
      refine ⟨?_, by simp, ?_⟩
      · intro c hc
        rcases List.mem_append.mp hc with hc | hc
        · exact hd c hc
        · rw [List.mem_singleton.mp hc]
          exact hdigit
      · rw [afterDigits_append, hrest]
        simp only [afterDigits, List.foldl_cons, List.foldl_nil, hvalue]
        omega

theorem afterDigits_zeros (n : Nat) (digits : List Char) : afterDigits 0 (zeros n ++ digits) = afterDigits 0 digits := by
  induction n with
  | zero => rfl
  | succ n ih => exact ih

/-- The text is a literal without sign that stands for the decimal. -/
def Writes (t : List Char) (d : Decimal) : Prop :=
  Numeral t ∧ Literal.ofChars? t = some ⟨false, d.digits, d.exponent⟩

namespace Writes

theorem whole (n : Nat) : Writes (decimalDigits n) ⟨n, 0⟩ := by
  obtain ⟨hd, hne, hvalue⟩ := decimalDigits_spec n
  have hnumeral := Numeral.whole hne hd .none
  have hliteral := Literal.ofChars_whole hne hd (show exponentPart? [] = some 0 from rfl)
  rw [List.append_nil] at hnumeral hliteral
  exact ⟨hnumeral, by rw [hliteral, hvalue]⟩

theorem exponentPart_leading (d : Decimal) :
    exponentPart? ('e' :: (if d.leading < 0 then '-' else '+') :: decimalDigits d.leading.natAbs) = some d.leading := by
  obtain ⟨hd, hne, hvalue⟩ := decimalDigits_spec d.leading.natAbs
  have hmark : 'e' = 'e' ∨ 'e' = 'E' := .inl rfl
  split
  · have hpart := exponentPart_marked hmark (.inr (.inr rfl)) hne hd
    rw [hvalue, if_pos rfl] at hpart
    exact hpart.trans (congrArg some (by omega))
  · have hpart := exponentPart_marked hmark (.inr (.inl rfl)) hne hd
    rw [hvalue, if_neg (by decide)] at hpart
    exact hpart.trans (congrArg some (by omega))

theorem scientific (d : Decimal) : Writes d.scientific d := by
  obtain ⟨hd, hne, hvalue⟩ := decimalDigits_spec d.digits
  have he := exponentPart_leading d
  rw [Decimal.scientific]
  generalize 'e' :: (if d.leading < 0 then '-' else '+') :: decimalDigits d.leading.natAbs = exponent at he ⊢
  rw [Decimal.leading] at he
  rw [Decimal.mantissa]
  generalize decimalDigits d.digits = digits at hd hne hvalue he ⊢
  -- one digit stands alone, more have a point after the first
  split
  · exact absurd rfl hne
  · next c =>
    refine ⟨.whole hne hd (exponent_of_part he), ?_⟩
    rw [Literal.ofChars_whole hne hd he, hvalue]
    simp
  · next c rest _ =>
    obtain ⟨hc, hrest⟩ := List.forall_mem_cons.mp hd
    have hfirst : Digits [c] := by simpa [Digits] using hc
    refine ⟨.point hfirst hrest (by simp) (exponent_of_part he), ?_⟩
    have hliteral := Literal.ofChars_point hfirst hrest (by simp) he
    have hvalue' : natOfDigits ([c] ++ rest) = d.digits := hvalue
    rw [hvalue'] at hliteral
    refine hliteral.trans ?_
    simp

theorem positional {d : Decimal} (h : d.exponent < 0) : Writes d.positional d := by
  obtain ⟨hd, -, hvalue⟩ := decimalDigits_spec d.digits
  rw [Decimal.positional, if_neg (by omega), pointAt, if_neg (by omega)]
  dsimp only
  have hplaces : d.exponent = 0 - ((-d.exponent).toNat : Int) := by omega
  generalize (-d.exponent).toNat = places at hplaces ⊢
  generalize decimalDigits d.digits = digits at hd hvalue ⊢
  have hpadded : natOfDigits (zeros (places + 1 - digits.length) ++ digits) = d.digits := by
    rw [natOfDigits_eq, afterDigits_zeros, ← natOfDigits_eq, hvalue]
  have hlength : places + 1 ≤ (zeros (places + 1 - digits.length) ++ digits).length := by
    rw [List.length_append, zeros, List.length_replicate]
    omega
  have hall : Digits (zeros (places + 1 - digits.length) ++ digits) := by
    intro c hc
    rcases List.mem_append.mp hc with hc | hc
    · rw [List.eq_of_mem_replicate hc]
      rfl
    · exact hd c hc
  generalize zeros (places + 1 - digits.length) ++ digits = padded at hpadded hlength hall ⊢
  have hwhole : Digits (padded.take (padded.length - places)) := fun c hc => hall c (List.mem_of_mem_take hc)
  have hfraction : Digits (padded.drop (padded.length - places)) := fun c hc => hall c (List.mem_of_mem_drop hc)
  have hsplit := List.take_append_drop (padded.length - places) padded
  have hne : padded.take (padded.length - places) ++ padded.drop (padded.length - places) ≠ [] := by
    rw [hsplit]
    rintro rfl
    simp at hlength
  have hcount : (padded.drop (padded.length - places)).length = places := by
    rw [List.length_drop]
    omega
  have hnumeral := Numeral.point hwhole hfraction hne .none
  have hliteral := Literal.ofChars_point hwhole hfraction hne (show exponentPart? [] = some 0 from rfl)
  rw [List.append_nil] at hnumeral hliteral
  rw [hsplit, hpadded, hcount, ← hplaces] at hliteral
  exact ⟨hnumeral, hliteral⟩

end Writes

namespace Double

variable {x : Double}

theorem ext_toNat {y : Double} (h : x.bits.toNat = y.bits.toNat) : x = y :=
  congrArg Double.mk (UInt64.toNat_inj.mp h)

theorem magnitude_of_nonneg (h : x.isNegative = false) : x.magnitude = x := by
  rw [← Bool.not_eq_true, isNegative_iff, Nat.not_le] at h
  exact ext_toNat ((toNat_magnitude x).trans (Nat.mod_eq_of_lt h))

theorem neg_magnitude (h : x.isNegative = true) : -x.magnitude = x := by
  have hlt := x.bits.toNat_lt
  rw [isNegative_iff] at h
  refine ext_toNat ?_
  rw [toNat_neg, toNat_magnitude]
  omega

theorem eq_zero_or_neg_zero (h : x.significand = 0) : x = 0 ∨ x = -0 := by
  have hzero : x.magnitude = 0 := by
    refine ext_toNat ?_
    have hexponent : x.exponent = -1074 := by
      have := le_exponent x
      have := significand_of_exponent_pos (x := x)
      by_contra hne
      unfold significand at h
      unfold exponent at hne
      split at h <;> omega
    rw [toNat_magnitude_eq, h, hexponent]
    rfl
  exact zero_or_negative hzero

end Double

theorem ofDouble_magnitude (x : Double) : Rounding.ofDouble x.magnitude = Rounding.ofDouble x := by
  simp only [Rounding.ofDouble, Double.significand_magnitude, Double.exponent_magnitude, Double.fractionField_magnitude,
    Double.exponentField_magnitude]

open Rounding in
/-- A number that is not zero is written, its sign apart, as a decimal of its interval. -/
theorem exists_writes {x : Double} (hfinite : x.isFinite = true) (hsome : x.significand ≠ 0) :
    ∃ d t, numberText x = signed x t ∧ Writes t d ∧ (ofDouble x).Covers (d.digits * 10 ^ d.exponent) ∧
      -340 ≤ d.exponent := by
  have hfinite' : x.magnitude.isFinite = true := by rwa [Double.isFinite_magnitude]
  have hsome' : x.magnitude.significand ≠ 0 := by rwa [Double.significand_magnitude]
  obtain ⟨hcovers, hexponent⟩ := shortest_covered .upper hfinite' hsome'
  rw [ofDouble_magnitude] at hcovers
  unfold numberText
  rw [if_neg (by simp [hfinite]), if_neg (by rwa [Double.beq_zero_iff hfinite])]
  dsimp only
  split
  · exact ⟨_, _, rfl, .scientific _, hcovers, hexponent⟩
  · split
    · next hwhole =>
      refine ⟨_, _, rfl, .whole _, ?_, show (-340 : Int) ≤ 0 by decide⟩
      rw [zpow_zero, mul_one]
      exact whole_covered hsome hwhole
    · next hfraction =>
      exact ⟨_, _, rfl, .positional (shortest_exponent_neg (by rwa [Double.isWhole_magnitude]) hfinite'), hcovers,
        hexponent⟩

theorem readDecimal_numberText {x : Double} (hfinite : x.isFinite = true) (hx : x ≠ -0) :
    readDecimal? (numberText x).toList = some x ∧ (x.isNegative = false → Numeral (numberText x).toList) := by
  by_cases hzero : x.significand = 0
  · obtain rfl := (Double.eq_zero_or_neg_zero hzero).resolve_right hx
    exact ⟨by decide +kernel, fun _ => (Writes.whole 0).1⟩
  · obtain ⟨d, t, htext, ⟨hnumeral, hliteral⟩, hcovers, hexponent⟩ := exists_writes hfinite hzero
    rw [htext, signed, String.toList_ofList, readDecimal?]
    cases hnegative : x.isNegative with
    | false =>
      have hread := Rounding.toDouble_covered (l := ⟨false, d.digits, d.exponent⟩) hfinite hzero hcovers hexponent
      rw [if_neg (by decide), hliteral, Option.map_some, hread, if_neg Bool.false_ne_true,
        Double.magnitude_of_nonneg hnegative]
      exact ⟨rfl, fun _ => hnumeral⟩
    | true =>
      have hread := Rounding.toDouble_covered (l := ⟨true, d.digits, d.exponent⟩) hfinite hzero hcovers hexponent
      rw [if_pos rfl, Literal.ofChars_signed hnumeral (.inl rfl), hliteral, Option.map_some, Option.map_some]
      refine ⟨congrArg some (hread.trans ?_), by simp⟩
      rw [if_pos rfl, Double.neg_magnitude hnegative]

theorem SignedNumeral.chars {t : List Char} (h : SignedNumeral t) :
    ∀ c ∈ t, c.isDigit = true ∨ c ∈ ['.', 'e', 'E', '+', '-'] := by
  cases h with
  | plain h => exact h.chars
  | sign hc h =>
    refine List.forall_mem_cons.mpr ⟨.inr ?_, h.chars⟩
    rcases hc with rfl | rfl <;> simp

theorem trim_eq {t : List Char} (h : ∀ c ∈ t, isBlank c = false) : trimStart t = t ∧ trim t = t := by
  have hstart {t : List Char} (h : ∀ c ∈ t, isBlank c = false) : t.dropWhile isBlank = t := by
    cases t with
    | nil => rfl
    | cons c t => simp [h c List.mem_cons_self]
  refine ⟨hstart h, ?_⟩
  rw [trim, trimStart, hstart h, trimEnd, hstart fun c hc => h c (List.mem_reverse.mp hc), List.reverse_reverse]

section Readers

variable {s : String} {x : Double}

theorem not_mem_of_readDecimal (h : readDecimal? s.toList = some x) {c : Char} (hdigit : c.isDigit = false)
    (hc : c ∉ ['.', 'e', 'E', '+', '-']) : c ∉ s.toList := by
  intro hmem
  rcases (signedNumeral_iff.mpr (by rw [h]; rfl)).chars c hmem with hd | hd
  · rw [hdigit] at hd
    cases hd
  · exact hc hd

theorem not_blank_of_readDecimal (h : readDecimal? s.toList = some x) : ∀ c ∈ s.toList, isBlank c = false := by
  intro c hc
  rcases (signedNumeral_iff.mpr (by rw [h]; rfl)).chars c hc with hd | hmem
  · exact isBlank_of_isDigit hd
  · simp only [List.mem_cons, List.not_mem_nil, or_false] at hmem
    rcases hmem with rfl | rfl | rfl | rfl | rfl <;> decide

theorem textNumber_of_readDecimal (h : readDecimal? s.toList = some x) : textNumber s = x := by
  have hname : 'I' ∉ s.toList := not_mem_of_readDecimal h (by decide) (by decide)
  unfold textNumber
  rw [(trim_eq (not_blank_of_readDecimal h)).2]
  dsimp only
  rw [if_neg, if_neg, if_neg]
  · split
    · next heq => exact absurd (by rw [heq]; simp) (not_mem_of_readDecimal (c := 'x') h (by decide) (by decide))
    · next heq => exact absurd (by rw [heq]; simp) (not_mem_of_readDecimal (c := 'X') h (by decide) (by decide))
    · rw [h]
      rfl
  · intro heq
    exact hname (by rw [heq]; decide)
  · rintro (heq | heq) <;> exact hname (by rw [heq]; decide)
  · rw [List.isEmpty_iff]
    intro hnil
    rw [hnil] at h
    cases h

theorem leadingNumber_of_readDecimal (h : readDecimal? s.toList = some x) : leadingNumber s.toList = x := by
  have htrim := (trim_eq (not_blank_of_readDecimal h)).1
  have hname : ¬ NamesInfinity (trimStart s.toList) := by
    rintro ⟨sign, -, hstarts⟩
    rw [htrim] at hstarts
    exact not_mem_of_readDecimal h (c := 'I') (by decide) (by decide)
      (hstarts.subset (List.mem_append_right _ List.mem_cons_self))
  have hnumeral : SignedNumeral s.toList := signedNumeral_iff.mpr (by rw [h]; rfl)
  rcases leadingNumber_cases hname with ⟨t, ht, hx⟩ | ⟨-, hnever⟩
  · rw [htrim] at ht
    rw [ht.starts.eq_of_length_le (ht.longest _ List.prefix_rfl hnumeral), h] at hx
    exact (Option.some.inj hx).symm
  · exact absurd hnumeral (hnever _ (by rw [htrim]))

theorem tokenize_of_readDecimal (hs : Numeral s.toList) (h : readDecimal? s.toList = some x) :
    ∃ ts, tokenize s = .ok ts ∧ ts.ahead.map (·.lexeme) = [.number x] := by
  obtain ⟨ts, ht, hlexemes, -⟩ := tokenize_scans (Scans.number hs h (show EndsNumber [] by simp [EndsNumber]))
  exact ⟨ts, ht, hlexemes⟩

end Readers

theorem numberText_reads_back {x : Double} (hfinite : x.isFinite = true) (hx : x ≠ -0) :
    textNumber (numberText x) = x ∧ leadingNumber (numberText x).toList = x ∧
      (0 ≤ x → ∃ ts, tokenize (numberText x) = .ok ts ∧ ts.ahead.map (·.lexeme) = [.number x]) := by
  obtain ⟨hread, hnumeral⟩ := readDecimal_numberText hfinite hx
  refine ⟨textNumber_of_readDecimal hread, leadingNumber_of_readDecimal hread, fun hnonneg => ?_⟩
  have hsign : x.isNegative = false := by
    rcases (Double.nonneg_iff hfinite).mp hnonneg with hzero | hsign
    · obtain rfl := (Double.eq_zero_or_neg_zero hzero).resolve_right hx
      decide
    · exact hsign
  exact tokenize_of_readDecimal (hnumeral hsign) hread

theorem numberText_tiny_reads_back : (1e-7 : Double).isFinite = true ∧ (1e-7 : Double) ≠ -0 ∧
    textNumber (numberText 1e-7) = 1e-7 ∧ leadingNumber (numberText 1e-7).toList = 1e-7 ∧
      (0 ≤ (1e-7 : Double) → ∃ ts, tokenize (numberText 1e-7) = .ok ts ∧ ts.ahead.map (·.lexeme) = [.number 1e-7]) := by
  have hfinite : (1e-7 : Double).isFinite = true := by decide +kernel
  have hx : (1e-7 : Double) ≠ -0 := by decide +kernel
  exact ⟨hfinite, hx, numberText_reads_back hfinite hx⟩

end Apiary
