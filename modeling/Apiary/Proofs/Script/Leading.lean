import Apiary.Script.Builtin
import Apiary.Proofs.Number.Comparison
import Apiary.Proofs.Source.Numeral

/-!
Reading the number that a text starts with. The run of characters that is tried takes in every literal the text starts
with, so that backing off finds the longest one.
-/

namespace Apiary

namespace Double

theorem toNat_neg (x : Double) : (-x).bits.toNat = (x.bits.toNat + 0x8000000000000000) % 0x10000000000000000 := by
  have hlt := x.bits.toNat_lt
  show (x.bits ^^^ 0x8000000000000000).toNat = _
  rw [UInt64.toNat_xor]
  show x.bits.toNat ^^^ 2 ^ 63 = _
  generalize x.bits.toNat = n at hlt ⊢
  have hdiv := Nat.xor_div_two_pow (a := n) (b := 2 ^ 63) (n := 63)
  have hmod := Nat.xor_mod_two_pow (a := n) (b := 2 ^ 63) (n := 63)
  rw [Nat.div_self (by decide)] at hdiv
  rw [Nat.mod_self, Nat.xor_zero] at hmod
  have hbit : n / 2 ^ 63 = 0 ∨ n / 2 ^ 63 = 1 := by omega
  rcases hbit with h | h
  · rw [h, Nat.zero_xor] at hdiv
    omega
  · rw [h, Nat.xor_self] at hdiv
    omega

theorem isNaN_iff (x : Double) : x.isNaN = true ↔ 0x7ff0000000000000 < x.bits.toNat % 0x8000000000000000 := by
  rw [isNaN, decide_eq_true_eq, UInt64.lt_iff_toNat_lt, toNat_magnitude]
  rfl

theorem isNaN_neg (x : Double) : (-x).isNaN = x.isNaN := by
  rw [Bool.eq_iff_iff, isNaN_iff, isNaN_iff, toNat_neg]
  omega

theorem isNaN_ofParts (m : Nat) (q : Int) : (ofParts false m q).isNaN = false := by
  have hle : BinaryFormat.double.round m q ≤ 2047 <<< 52 := by
    unfold BinaryFormat.round
    split
    · exact Nat.zero_le _
    · exact Nat.min_le_right ..
  rw [← Bool.not_eq_true, isNaN_iff]
  show ¬ _ < (UInt64.ofNat (BinaryFormat.double.round m q)).toNat % _
  rw [UInt64.toNat_ofNat']
  have hinfinity : 2047 <<< 52 = 0x7ff0000000000000 := by decide
  omega

end Double

theorem Literal.isNaN_toDouble (l : Literal) : l.toDouble.isNaN = false := by
  simp only [toDouble]
  rw [apply_ite Double.isNaN, Double.isNaN_neg, ite_self]
  split
  · decide
  · split
    · decide
    · unfold Double.ofDecimal
      dsimp only
      split <;> exact Double.isNaN_ofParts ..

theorem isNaN_readDecimal {t : List Char} {x : Double} (h : readDecimal? t = some x) : x.isNaN = false := by
  obtain ⟨l, -, rfl⟩ := Option.map_eq_some_iff.mp h
  exact l.isNaN_toDouble

/-- A text that the run goes through, whatever comes after it. -/
def RunsThrough (point mark : Bool) (previous : Option Char) (t : List Char) (point' mark' : Bool)
    (previous' : Option Char) : Prop :=
  ∀ rest, numericRun point mark previous (t ++ rest) = t ++ numericRun point' mark' previous' rest

namespace RunsThrough

variable {point mark point' mark' point'' mark'' : Bool} {previous previous' previous'' : Option Char} {s t : List Char}

theorem trans (hs : RunsThrough point mark previous s point' mark' previous')
    (ht : RunsThrough point' mark' previous' t point'' mark'' previous'') :
    RunsThrough point mark previous (s ++ t) point'' mark'' previous'' := by
  intro rest
  rw [List.append_assoc, hs, ht, List.append_assoc]

theorem digits (point mark : Bool) (ht : Digits t) (previous : Option Char) :
    ∃ previous', (t ≠ [] ∨ previous.isSome → previous'.isSome) ∧ RunsThrough point mark previous t point mark previous' := by
  induction t generalizing previous with
  | nil => exact ⟨previous, by simp, fun rest => rfl⟩
  | cons c t ih =>
    obtain ⟨hc, ht⟩ := List.forall_mem_cons.mp ht
    obtain ⟨previous', hsome, hrun⟩ := ih ht (some c)
    refine ⟨previous', fun _ => hsome (.inr rfl), fun rest => ?_⟩
    simp [numericRun, hc, hrun rest]

theorem sign {c : Char} (hc : c = '-' ∨ c = '+') (hprevious : (previous.map isExponentMark).getD true = true) :
    RunsThrough point mark previous [c] point mark (some c) := by
  intro rest
  rcases hc with rfl | rfl <;> simp [numericRun, hprevious]

theorem dot (previous : Option Char) : RunsThrough false false previous ['.'] true false (some '.') := by
  intro rest
  simp [numericRun]

theorem letter {c : Char} (hc : c = 'e' ∨ c = 'E') (hprevious : previous.isSome) :
    RunsThrough point false previous [c] point true (some c) := by
  intro rest
  rcases hc with rfl | rfl <;> simp [numericRun, hprevious, isExponentMark]

theorem exponent (point : Bool) (ht : Exponent t) (hprevious : previous.isSome) :
    ∃ mark' previous', RunsThrough point false previous t point mark' previous' := by
  cases ht with
  | none => exact ⟨false, previous, fun rest => rfl⟩
  | @some c sign digits hletter hsign _ hd =>
    have hfirst : RunsThrough point false previous [c] point true (some c) := letter hletter hprevious
    have hc : ((some c).map isExponentMark).getD true = true := by rcases hletter with rfl | rfl <;> rfl
    rcases hsign with rfl | hsign
    · obtain ⟨previous', -, hrest⟩ := RunsThrough.digits point true hd (some c)
      exact ⟨true, previous', hfirst.trans hrest⟩
    · obtain ⟨d, hd', rfl⟩ : ∃ d, (d = '-' ∨ d = '+') ∧ sign = [d] := by rcases hsign with rfl | rfl <;> simp
      obtain ⟨previous', -, hrest⟩ := RunsThrough.digits point true hd (some d)
      exact ⟨true, previous', hfirst.trans ((RunsThrough.sign hd' hc).trans hrest)⟩

theorem numeral {u : List Char} (h : Numeral u) (previous : Option Char) :
    ∃ point' mark' previous', RunsThrough false false previous u point' mark' previous' := by
  cases h with
  | whole hne hd he =>
    obtain ⟨previous₁, hsome, hwhole⟩ := digits false false hd previous
    obtain ⟨mark', previous₂, hrest⟩ := exponent false he (hsome (.inl hne))
    exact ⟨_, _, _, hwhole.trans hrest⟩
  | point hd hf _ he =>
    obtain ⟨previous₁, -, hwhole⟩ := digits false false hd previous
    obtain ⟨previous₂, hsome, hfraction⟩ := digits true false hf (some '.')
    obtain ⟨mark', previous₃, hrest⟩ := exponent true he (hsome (.inr rfl))
    exact ⟨_, _, _, (hwhole.trans ((dot previous₁).trans hfraction)).trans hrest⟩

theorem signed {t : List Char} (h : SignedNumeral t) :
    ∃ point' mark' previous', RunsThrough false false none t point' mark' previous' := by
  cases h with
  | plain h => exact numeral h none
  | @sign c u hc h =>
    obtain ⟨_, _, _, hrest⟩ := numeral h (some c)
    exact ⟨_, _, _, (RunsThrough.sign hc rfl).trans hrest⟩

end RunsThrough

theorem numericRun_isPrefix (point mark : Bool) (previous : Option Char) (s : List Char) :
    numericRun point mark previous s <+: s := by
  induction s generalizing point mark previous with
  | nil => exact List.prefix_rfl
  | cons c s ih =>
    unfold numericRun
    have hcons (point mark : Bool) : c :: numericRun point mark (some c) s <+: c :: s :=
      (List.prefix_cons_inj c).mpr (ih ..)
    split
    · exact hcons ..
    · split
      · split
        · exact hcons ..
        · exact List.nil_prefix
      · split
        · exact hcons ..
        · split
          · exact hcons ..
          · exact List.nil_prefix

theorem SignedNumeral.isPrefix_run {s t : List Char} (h : SignedNumeral t) (ht : t <+: s) :
    t <+: numericRun false false none s := by
  obtain ⟨rest, rfl⟩ := ht
  obtain ⟨_, _, _, hrun⟩ := RunsThrough.signed h
  rw [hrun rest]
  exact List.prefix_append ..

theorem longestLiteral_some {s : List Char} {n : Nat} {x : Double} (h : longestLiteral? s n = some x) :
    ∃ k ≤ n, readDecimal? (s.take k) = some x ∧ ∀ j, k < j → j ≤ n → readDecimal? (s.take j) = none := by
  induction n with
  | zero => cases h
  | succ n ih =>
    unfold longestLiteral? at h
    split at h
    · next y hy => exact ⟨n + 1, le_rfl, hy.trans h, fun j hj hj' => absurd hj' (by omega)⟩
    · next hnone =>
      obtain ⟨k, hk, hx, hlater⟩ := ih h
      refine ⟨k, by omega, hx, fun j hj hj' => ?_⟩
      rcases Nat.lt_or_eq_of_le hj' with hlt | rfl
      · exact hlater j hj (by omega)
      · exact hnone

theorem longestLiteral_none {s : List Char} {n : Nat} (h : longestLiteral? s n = none) :
    ∀ j, 0 < j → j ≤ n → readDecimal? (s.take j) = none := by
  induction n with
  | zero => omega
  | succ n ih =>
    unfold longestLiteral? at h
    split at h
    · cases h
    · next hnone =>
      intro j hj hj'
      rcases Nat.lt_or_eq_of_le hj' with hlt | rfl
      · exact ih h j hj (by omega)
      · exact hnone

/-- The longest literal that a text starts with. -/
structure LongestNumeral (t s : List Char) : Prop where
  starts : t <+: s
  numeral : SignedNumeral t
  longest : ∀ t', t' <+: s → SignedNumeral t' → t'.length ≤ t.length

/-- The text starts with the name of infinity, perhaps after a sign. -/
def NamesInfinity (s : List Char) : Prop := ∃ sign ∈ [[], ['+'], ['-']], sign ++ "Infinity".toList <+: s

theorem leadingNumber_eq {s : List Char} (h : ¬ NamesInfinity (trimStart s)) : leadingNumber s =
    (longestLiteral? (numericRun false false none (trimStart s)) (numericRun false false none (trimStart s)).length).getD
      Double.nan := by
  have hnone (sign : List Char) (hsign : sign ∈ [[], ['+'], ['-']]) :
      ¬ (sign ++ "Infinity".toList).isPrefixOf (trimStart s) = true :=
    fun hs => h ⟨sign, hsign, List.isPrefixOf_iff_prefix.mp hs⟩
  have hplain := hnone [] (by simp)
  have hplus := hnone ['+'] (by simp)
  have hminus := hnone ['-'] (by simp)
  unfold leadingNumber
  dsimp only
  rw [if_neg, if_neg]
  · exact hminus
  · rw [Bool.or_eq_true]
    exact not_or.mpr ⟨hplain, hplus⟩

theorem leadingNumber_cases {s : List Char} (h : ¬ NamesInfinity (trimStart s)) :
    (∃ t, LongestNumeral t (trimStart s) ∧ readDecimal? t = some (leadingNumber s)) ∨
      leadingNumber s = Double.nan ∧ ∀ t, t <+: trimStart s → ¬ SignedNumeral t := by
  rw [leadingNumber_eq h]
  have hrun {t : List Char} (ht : t <+: trimStart s) (hnumeral : SignedNumeral t) :
      t <+: numericRun false false none (trimStart s) := hnumeral.isPrefix_run ht
  have hsub := numericRun_isPrefix false false none (trimStart s)
  generalize numericRun false false none (trimStart s) = run at hrun hsub ⊢
  have htaken {t : List Char} (ht : t <+: trimStart s) (hnumeral : SignedNumeral t) :
      t.length ≤ run.length ∧ (readDecimal? (run.take t.length)).isSome := by
    have hpre := hrun ht hnumeral
    rw [← List.prefix_iff_eq_take.mp hpre]
    exact ⟨hpre.length_le, signedNumeral_iff.mp hnumeral⟩
  cases hlongest : longestLiteral? run run.length with
  | some x =>
    obtain ⟨k, hk, hx, hlater⟩ := longestLiteral_some hlongest
    have hnumeral : SignedNumeral (run.take k) := signedNumeral_iff.mpr (by rw [hx]; rfl)
    refine .inl ⟨run.take k, ⟨(List.take_prefix k run).trans hsub, hnumeral, fun t' ht' hnumeral' => ?_⟩, hx⟩
    obtain ⟨hlength, hread⟩ := htaken ht' hnumeral'
    rw [List.length_take_of_le hk]
    refine Nat.not_lt.mp fun hlt => ?_
    rw [hlater _ hlt hlength] at hread
    cases hread
  | none =>
    refine .inr ⟨rfl, fun t ht hnumeral => ?_⟩
    obtain ⟨hlength, hread⟩ := htaken ht hnumeral
    rcases Nat.eq_zero_or_pos t.length with hzero | hpos
    · rw [hzero] at hread
      cases hread
    · rw [longestLiteral_none hlongest _ hpos hlength] at hread
      cases hread

/-- The number that a text starts with is that of the longest literal it starts with, and there is none just when it
starts with no literal. -/
theorem leadingNumber_longest {s : List Char} (h : ¬ NamesInfinity (trimStart s)) :
    ((∃ t, t <+: trimStart s ∧ SignedNumeral t) →
      ∃ t, LongestNumeral t (trimStart s) ∧ readDecimal? t = some (leadingNumber s)) ∧
    ((leadingNumber s).isNaN = true ↔ ∀ t, t <+: trimStart s → ¬ SignedNumeral t) := by
  rcases leadingNumber_cases h with ⟨t, ht, hx⟩ | ⟨hnan, hnever⟩
  · have hnumber := isNaN_readDecimal hx
    exact ⟨fun _ => ⟨t, ht, hx⟩, iff_of_false (by simp [hnumber]) fun hnever => hnever t ht.starts ht.numeral⟩
  · rw [hnan]
    exact ⟨fun ⟨t, ht, hnumeral⟩ => absurd hnumeral (hnever t ht), iff_of_true rfl hnever⟩

theorem leadingNumber_backs_off : ¬ NamesInfinity (trimStart " -1.5e+x".toList) ∧
    ∃ t, LongestNumeral t (trimStart " -1.5e+x".toList) ∧ readDecimal? t = some (leadingNumber " -1.5e+x".toList) := by
  have h : ¬ NamesInfinity (trimStart " -1.5e+x".toList) := by
    unfold NamesInfinity
    decide
  exact ⟨h, (leadingNumber_longest h).1 ⟨"-1.5".toList, by decide, signedNumeral_iff.mpr (by decide +kernel)⟩⟩

end Apiary
