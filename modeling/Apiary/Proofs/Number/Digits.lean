import Apiary.Number.Numeral
import Apiary.Number.Text

/-!
Decimal digits and their values. A text of digits, perhaps after a plus sign, counts.
-/

namespace Apiary

theorem digits_of_value {base : Nat} {digits : List Char} {i : Nat} (h : valueOf? base digits = some i) :
    ∀ c ∈ digits, (digitOf? base c).isSome = true := by
  have hfold : ∀ (digits : List Char) (n : Nat),
      digits.foldlM (fun n c => (digitOf? base c).map (n * base + ·)) n = some i →
        ∀ c ∈ digits, (digitOf? base c).isSome = true := by
    intro digits
    induction digits with
    | nil => simp
    | cons d rest ih =>
      intro n hrest
      obtain ⟨n', hd, hrest⟩ := Option.bind_eq_some_iff.mp hrest
      obtain ⟨v, hv, -⟩ := Option.map_eq_some_iff.mp hd
      exact List.forall_mem_cons.mpr ⟨by simp [hv], ih n' hrest⟩
  cases digits with
  | nil => cases h
  | cons d rest => exact hfold _ 0 h

theorem not_valueOf_plus (digits : List Char) : valueOf? 10 ('+' :: digits) = none := by
  cases h : valueOf? 10 ('+' :: digits) with
  | none => rfl
  | some i => exact absurd (digits_of_value h '+' (List.mem_cons_self ..)) (by decide)

theorem digitOf_digitChar : ∀ d < 10, digitOf? 10 (Nat.digitChar d) = some d := by decide

theorem valueOf_snoc {base : Nat} {digits : List Char} {n d : Nat} {c : Char} (h : valueOf? base digits = some n)
    (hc : digitOf? base c = some d) : valueOf? base (digits ++ [c]) = some (n * base + d) := by
  cases digits with
  | nil => cases h
  | cons c' rest =>
    have hfold : (c' :: rest).foldlM (fun n c => (digitOf? base c).map (n * base + ·)) 0 = some n := h
    show ((c' :: rest) ++ [c]).foldlM (fun n c => (digitOf? base c).map (n * base + ·)) 0 = _
    rw [List.foldlM_append, hfold]
    simp [hc]

theorem valueOf_decimalDigits (n : Nat) : valueOf? 10 (decimalDigits n) = some n := by
  induction n using Nat.strongRecOn with
  | ind n ih =>
    rw [decimalDigits, Nat.toDigits_eq_if (by decide)]
    split
    · next hlt => simp [valueOf?, digitOf_digitChar n hlt]
    · refine (valueOf_snoc (ih (n / 10) (by omega)) (digitOf_digitChar _ (Nat.mod_lt n (by decide)))).trans ?_
      exact congrArg some (by omega)

/-- The text is a decimal numeral of this value. -/
def Counts (text : String) (i : Nat) : Prop :=
  ∃ digits, valueOf? 10 digits = some i ∧ (text.toList = digits ∨ text.toList = '+' :: digits)

theorem counts_decimalDigits (n : Nat) : Counts (String.ofList (decimalDigits n)) n :=
  ⟨decimalDigits n, valueOf_decimalDigits n, .inl (String.toList_ofList ..)⟩

namespace Counts

variable {text : String} {i j : Nat}

theorem unsigned_iff {limit : Nat} : unsigned? 10 limit text.toList = some i ↔ Counts text i ∧ i < limit := by
  rw [unsigned?.eq_def]
  split
  · next rest h =>
    rw [Option.filter_eq_some_iff, decide_eq_true_eq]
    refine and_congr_left fun _ => ⟨fun hvalue => ⟨rest, hvalue, .inr h⟩, ?_⟩
    rintro ⟨digits, hvalue, htext | htext⟩
    · rw [← htext, h, not_valueOf_plus] at hvalue
      cases hvalue
    · rwa [(List.cons.inj (h.symm.trans htext)).2]
  · next hplain =>
    rw [Option.filter_eq_some_iff, decide_eq_true_eq]
    refine and_congr_left fun _ => ⟨fun hvalue => ⟨_, hvalue, .inl rfl⟩, ?_⟩
    rintro ⟨digits, hvalue, htext | htext⟩
    · rwa [htext]
    · exact absurd htext (hplain digits)

theorem unique (hi : Counts text i) (hj : Counts text j) : i = j := by
  have hvalue := unsigned_iff.mpr ⟨hi, (by omega : i < i + j + 1)⟩
  rw [unsigned_iff.mpr ⟨hj, (by omega : j < i + j + 1)⟩] at hvalue
  exact (Option.some.inj hvalue).symm

theorem chars (h : Counts text i) {c : Char} (hc : c ∈ text.toList) : c = '+' ∨ (digitOf? 10 c).isSome := by
  obtain ⟨digits, hvalue, htext | htext⟩ := h
  · rw [htext] at hc
    exact .inr (digits_of_value hvalue c hc)
  · rw [htext] at hc
    exact (List.mem_cons.mp hc).imp_right (digits_of_value hvalue c)

theorem ne_length (h : Counts text i) : text ≠ "length" := by
  rintro rfl
  exact absurd (h.chars (c := 'l') (by decide)) (by decide)

end Counts

end Apiary
