import Apiary.Proofs.Number.Integer
import Apiary.Proofs.Script.Buffer

/-!
Numbers printed to a base. An integer is printed as its numeral, in lower case and without leading zeros, as long as its
size fits into 64 bits; a larger one is printed as the largest such size, unless the base is ten.
-/

namespace Apiary

def lowerDigits : List Char := "0123456789abcdefghijklmnopqrstuvwxyz".toList

/-- The text is the numeral of a natural number. -/
structure Spells (base : Nat) (text : List Char) (n : Nat) : Prop where
  value : valueOf? base text = some n
  digits : ∀ c ∈ text, c ∈ lowerDigits.take base
  leading : text.head? = some '0' → text = ['0']

/-- The text is the numeral of an integer. -/
def SpellsInt (base : Nat) (text : List Char) (i : Int) : Prop :=
  if i < 0 then ∃ digits, text = '-' :: digits ∧ Spells base digits i.natAbs else Spells base text i.natAbs

section Numeral

variable {base n d : Nat}

theorem digitOf_digit (hd : d < base) (hbase : base ≤ 36) : digitOf? base (digitChar d) = some d := by
  have hraw : ∀ d < 36, digitOf? 36 (digitChar d) = some d := by decide
  have h36 := hraw d (by omega)
  unfold digitOf? at h36 ⊢
  simp only [Option.ite_none_right_eq_some, Option.some.injEq] at h36 ⊢
  exact ⟨by omega, h36.2⟩

theorem digitChar_mem (hd : d < base) (hbase : base ≤ 36) : digitChar d ∈ lowerDigits.take base := by
  have hat : ∀ d < 36, lowerDigits[d]? = some (digitChar d) := by decide
  exact List.mem_of_getElem? ((List.getElem?_take_of_lt hd).trans (hat d (by omega)))

theorem numeral_of_lt (hlow : 1 < base) (hn : n < base) : numeral base n = [digitChar n] := by
  unfold numeral
  rw [dif_pos hlow]
  split
  · next hzero => rw [hzero]; rfl
  · next hsome =>
    rw [digitsLow, if_neg hsome, Nat.div_eq_of_lt hn, digitsLow, if_pos rfl, Nat.mod_eq_of_lt hn]
    rfl

theorem numeral_of_le (hlow : 1 < base) (hn : base ≤ n) :
    numeral base n = numeral base (n / base) ++ [digitChar (n % base)] := by
  have hsome : n ≠ 0 := by omega
  have hquotient : n / base ≠ 0 := Nat.ne_of_gt (Nat.div_pos hn (by omega))
  simp only [numeral, dif_pos hlow, if_neg hsome, if_neg hquotient]
  rw [digitsLow, if_neg hsome, List.map_cons, List.reverse_cons]

theorem valueOf_zero (hlow : 1 < base) : valueOf? base ['0'] = some 0 := by
  have hrange : 0 < base := by omega
  simp [valueOf?, digitOf?, hrange]

theorem Spells.digit (hd : d < base) (hbase : base ≤ 36) : Spells base [digitChar d] d where
  value := by simp [valueOf?, digitOf_digit hd hbase]
  digits := List.forall_mem_singleton.mpr (digitChar_mem hd hbase)
  leading h := congrArg (fun c => [c]) (Option.some.inj h)

theorem Spells.snoc {text : List Char} (h : Spells base text n) (hpos : 0 < n) (hd : d < base) (hlow : 1 < base)
    (hbase : base ≤ 36) :
    Spells base (text ++ [digitChar d]) (n * base + d) where
  value := valueOf_snoc h.value (digitOf_digit hd hbase)
  digits := List.forall_mem_append.mpr ⟨h.digits, List.forall_mem_singleton.mpr (digitChar_mem hd hbase)⟩
  leading hzero := by
    cases text with
    | nil => cases h.value
    | cons c rest =>
      -- a text that starts with a zero is that zero, which is no positive number
      have hvalue := h.value
      rw [h.leading hzero, valueOf_zero hlow] at hvalue
      exact absurd (Option.some.inj hvalue) (Nat.ne_of_lt hpos)

theorem spells_numeral (hlow : 1 < base) (hbase : base ≤ 36) (n : Nat) : Spells base (numeral base n) n := by
  induction n using Nat.strongRecOn with
  | ind n ih =>
    rcases Nat.lt_or_ge n base with hlt | hge
    · rw [numeral_of_lt hlow hlt]
      exact .digit hlt hbase
    · have hquotient : 0 < n / base := Nat.div_pos hge (by omega)
      have hsnoc := (ih (n / base) (Nat.div_lt_self (by omega) hlow)).snoc hquotient (Nat.mod_lt n (by omega)) hlow hbase
      rwa [Nat.div_add_mod', ← numeral_of_le hlow hge] at hsnoc

theorem numeral_ten (n : Nat) : numeral 10 n = decimalDigits n := by
  have hdigit : ∀ d < 10, digitChar d = Nat.digitChar d := by decide
  induction n using Nat.strongRecOn with
  | ind n ih =>
    rw [decimalDigits, Nat.toDigits_eq_if (by decide)]
    split
    · next hlt => rw [numeral_of_lt (by decide) hlt, hdigit n hlt]
    · next hge =>
      rw [numeral_of_le (by decide) (Nat.not_lt.mp hge), ih (n / 10) (by omega), hdigit _ (Nat.mod_lt n (by decide))]
      rfl

end Numeral

theorem Spells.no_minus {text : List Char} (h : Spells base text n) : '-' ∉ text := fun hmem =>
  absurd (List.mem_of_mem_take (h.digits _ hmem)) (by decide)

theorem SpellsInt.unique {text : List Char} {i j : Int} (hi : SpellsInt base text i) (hj : SpellsInt base text j) :
    i = j := by
  have hvalue {digits : List Char} {m n : Nat} (hm : Spells base digits m) (hn : Spells base digits n) : m = n :=
    Option.some.inj (hm.value.symm.trans hn.value)
  unfold SpellsInt at hi hj
  split at hi <;> split at hj
  · obtain ⟨digits, rfl, hi⟩ := hi
    obtain ⟨digits', heq, hj⟩ := hj
    rw [← (List.cons.inj heq).2] at hj
    have := hvalue hi hj
    omega
  · obtain ⟨digits, rfl, -⟩ := hi
    exact absurd List.mem_cons_self hj.no_minus
  · obtain ⟨digits, rfl, -⟩ := hj
    exact absurd List.mem_cons_self hi.no_minus
  · have := hvalue hi hj
    omega

/-- The nearest integer whose size fits into 64 bits. -/
def nearestInWord (i : Int) : Int := max (-(twoTo 64 - 1)) (min i (twoTo 64 - 1))

theorem natAbs_nearestInWord (i : Int) : (nearestInWord i).natAbs = min i.natAbs (twoTo 64 - 1) := by
  have hword : ((twoTo 64 : Nat) : Int) = 18446744073709551616 := by decide
  unfold nearestInWord
  omega

theorem nearestInWord_neg (i : Int) : nearestInWord i < 0 ↔ i < 0 := by
  have hword : ((twoTo 64 : Nat) : Int) = 18446744073709551616 := by decide
  unfold nearestInWord
  omega

theorem nearestInWord_eq_self (i : Int) : nearestInWord i = i ↔ i.natAbs < twoTo 64 := by
  have hword : ((twoTo 64 : Nat) : Int) = 18446744073709551616 := by decide
  unfold nearestInWord
  omega

theorem spellsInt_signed {i : Int} {digits : List Char} (h : Spells base digits i.natAbs) :
    SpellsInt base (if i < 0 then '-' :: digits else digits) i := by
  unfold SpellsInt
  split
  · exact ⟨digits, rfl, h⟩
  · exact h

theorem radixText_spells {x : Double} (hwhole : x.isWhole = true) (hlow : 1 < base) (hbase : base ≤ 36) :
    SpellsInt base (radixText base x).toList (nearestInWord x.toInt) := by
  have hcapped : Double.toNatCapped 64 x.magnitude = (nearestInWord x.toInt).natAbs := by
    rw [Double.toNatCapped_of_isWhole (by rwa [Double.isWhole_magnitude]), Double.toInt_magnitude, natAbs_nearestInWord,
      Double.natAbs_toInt]
    rfl
  have hsign : x < 0 ↔ nearestInWord x.toInt < 0 := by rw [Double.lt_zero_iff_toInt hwhole, nearestInWord_neg]
  rw [radixText, String.toList_ofList, hcapped]
  simp only [hsign]
  exact spellsInt_signed (spells_numeral hlow hbase _)

theorem toRadix_spells {x : Double} (hwhole : x.isWhole = true) (hsize : x.toInt.natAbs < tenTo 21) (hlow : 1 < base)
    (hbase : base ≤ 36) :
    SpellsInt base (toRadix base x).toList (if base = 10 then x.toInt else nearestInWord x.toInt) := by
  unfold toRadix
  split
  · next hother =>
    rw [if_neg hother.1]
    exact radixText_spells hwhole hlow hbase
  · next hother =>
    have hten : base = 10 := by
      by_contra hne
      exact hother ⟨hne, hlow, hbase, hwhole⟩
    subst hten
    rw [Double.natAbs_toInt] at hsize
    rw [numberText_of_isWhole hwhole hsize, toList_toString_int, ← numeral_ten]
    exact spellsInt_signed (spells_numeral hlow hbase _)

namespace Act

variable {σ : Type}

theorem numberMethod_toString (x : Double) {radix : Nat} (hradix : radix < twoTo 32) (w : World σ) :
    numberMethod x "toString" [.ofNat radix] w = .ok (some (.string (toRadix radix x))) w := by
  have hnat : (Double.ofNat radix).IsNat radix := Double.isNat_ofNat (Nat.lt_trans hradix (by decide))
  have hcapped : Double.toNatCapped 32 (Double.ofNat radix) = radix := by
    rw [Double.toNatCapped_of_isWhole hnat.1, hnat.2]
    show min radix (twoTo 32 - 1) = radix
    omega
  have hrun : numberMethod x "toString" [.ofNat radix] w =
      .ok (some (.string (toRadix (Double.toNatCapped 32 (Double.ofNat radix)) x))) w := rfl
  rw [hrun, hcapped]

end Act

/-- An integer below `10 ^ 21` as text to a base. -/
theorem integer_printed {σ : Type} (host : Host σ) (call : Calling σ) (w : World σ) (what : String) {x : Double}
    {radix : Nat} (hwhole : x.isWhole = true) (hsize : x.toInt.natAbs < tenTo 21) (hlow : 2 ≤ radix) (hhigh : radix ≤ 36) :
    ∃ text, Act.callMethod host call (.number x) "toString" [.ofNat radix] what w = .ok (.string text) w ∧
      SpellsInt radix text.toList (if radix = 10 then x.toInt else nearestInWord x.toInt) ∧
      (SpellsInt radix text.toList x.toInt ↔ radix = 10 ∨ x.toInt.natAbs < twoTo 64) := by
  have hspells := toRadix_spells hwhole hsize hlow hhigh
  have hword : radix < twoTo 32 := Nat.lt_of_le_of_lt hhigh (by decide)
  refine ⟨toRadix radix x, Act.callMethod_of_method what rfl (Act.numberMethod_toString x hword w), hspells, ?_⟩
  rw [← nearestInWord_eq_self]
  constructor
  · intro hown
    have hsame := hown.unique hspells
    split at hsame
    · next hten => exact .inl hten
    · exact .inr hsame.symm
  · intro hfits
    split at hspells
    · exact hspells
    · next hother => rwa [hfits.resolve_left hother] at hspells

theorem negativeByte_printed : (Double.ofInt (-255)).isWhole = true ∧ (Double.ofInt (-255)).toInt.natAbs < tenTo 21 ∧
    ∃ text, Act.callMethod .countdown (Act.calling .countdown 1 257) (.number (Double.ofInt (-255))) "toString" [.ofNat 16]
        "n.toString" ⟨⟨{}, 0⟩, #[], #[], 0⟩ = .ok (.string text) ⟨⟨{}, 0⟩, #[], #[], 0⟩ ∧
      SpellsInt 16 text.toList (-255) := by
  have hwhole : (Double.ofInt (-255)).isWhole = true := by decide +kernel
  have hint : (Double.ofInt (-255)).toInt = -255 := by decide +kernel
  have hsize : (Double.ofInt (-255)).toInt.natAbs < tenTo 21 := by rw [hint]; decide
  obtain ⟨text, hcall, -, hspells⟩ := integer_printed .countdown (Act.calling .countdown 1 257)
    ⟨⟨{}, 0⟩, #[], #[], 0⟩ "n.toString" hwhole hsize (by decide : 2 ≤ 16) (by decide)
  rw [hint] at hspells
  exact ⟨hwhole, hsize, text, hcall, hspells.mpr (.inr (by decide))⟩

/-- The first number whose size does not fit is printed as the one before it. -/
theorem wordBound_misprinted : (Double.ofNat (twoTo 64)).toInt = (twoTo 64 : Nat) ∧
    Act.callMethod .countdown (Act.calling .countdown 1 257) (.number (Double.ofNat (twoTo 64))) "toString" [.ofNat 16]
        "n.toString" ⟨⟨{}, 0⟩, #[], #[], 0⟩ = .ok (.string "ffffffffffffffff") ⟨⟨{}, 0⟩, #[], #[], 0⟩ ∧
      ¬ SpellsInt 16 "ffffffffffffffff".toList (twoTo 64 : Nat) := by
  have hint : (Double.ofNat (twoTo 64)).toInt = (twoTo 64 : Nat) := by decide +kernel
  refine ⟨hint, ?_, fun h => ?_⟩
  · have hlargest : Double.toNatCapped 64 (Double.magnitude (Double.ofNat (twoTo 64))) = 18446744073709551615 := by
      decide +kernel
    have hnonneg : ¬ Double.ofNat (twoTo 64) < 0 := by decide +kernel
    have hnumeral : numeral 16 18446744073709551615 = List.replicate 16 'f' := by simp [numeral, digitsLow, digitChar]
    have htext : toRadix 16 (Double.ofNat (twoTo 64)) = "ffffffffffffffff" := by
      rw [toRadix, if_pos (by decide +kernel), radixText, hlargest, hnumeral, if_neg hnonneg]
      rfl
    rw [← htext]
    exact Act.callMethod_of_method _ rfl (Act.numberMethod_toString _ (by decide) _)
  · have hvalue : valueOf? 16 "ffffffffffffffff".toList = some 18446744073709551615 := by decide
    have hspells : Spells 16 "ffffffffffffffff".toList 18446744073709551616 := h
    exact absurd (hspells.value.symm.trans hvalue) (by decide)

end Apiary
