import Apiary.Text.Pieces

/-!
A text cut at the occurrences of another, from left to right and without overlap. Splitting gives the pieces, and
replacing puts the replacement between them.
-/

namespace Apiary

variable {part s : List Char}

theorem occurs_iff : occurs part s = true ↔ part <:+: s := by
  induction s with
  | nil => rw [occurs, List.isEmpty_iff, List.infix_nil]
  | cons c rest ih =>
    rw [occurs, Bool.or_eq_true, List.isPrefixOf_iff_prefix, ih, List.infix_cons_iff]

/-- No occurrence of `part` in `s` begins before the end of `piece`. -/
def Earliest (part piece s : List Char) : Prop :=
  ∀ front back, s = front ++ part ++ back → piece.length ≤ front.length

/-- The pieces of a text between the occurrences of `part`: each ends where the earliest occurrence in what
is left begins, and the last one has none. -/
inductive Cut (part : List Char) : List Char → List (List Char) → Prop
  | last {s : List Char} : ¬ part <:+: s → Cut part s [s]
  | next {piece rest : List Char} {pieces : List (List Char)} :
    Earliest part piece (piece ++ part ++ rest) → Cut part rest pieces →
    Cut part (piece ++ part ++ rest) (piece :: pieces)

theorem Earliest.tail {c : Char} {piece : List Char} (h : Earliest part (c :: piece) (c :: s)) :
    Earliest part piece s := by
  intro front back hs
  have hlength := h (c :: front) back (by rw [hs]; rfl)
  exact Nat.le_of_succ_le_succ hlength

theorem Earliest.not_prefix {c : Char} {piece : List Char} (h : Earliest part (c :: piece) s) :
    ¬ part <+: s := by
  rintro ⟨back, rfl⟩
  exact Nat.not_succ_le_zero _ (h [] back rfl)

theorem Earliest.of_absent (h : ¬ part <:+: s) : Earliest part s (s ++ []) := by
  intro front back hs
  rw [List.append_nil] at hs
  exact absurd ⟨front, back, hs.symm⟩ h

theorem exists_earliest (h : part <:+: s) :
    ∃ piece rest, s = piece ++ part ++ rest ∧ Earliest part piece s := by
  induction s with
  | nil =>
    rw [List.infix_nil.mp h]
    exact ⟨[], [], rfl, fun _ _ _ => Nat.zero_le _⟩
  | cons c s ih =>
    by_cases hfront : part <+: c :: s
    · obtain ⟨rest, hrest⟩ := hfront
      exact ⟨[], rest, hrest.symm, fun _ _ _ => Nat.zero_le _⟩
    · have hlater : part <:+: s := (List.infix_cons_iff.mp h).resolve_left hfront
      obtain ⟨piece, rest, hs, hearliest⟩ := ih hlater
      refine ⟨c :: piece, rest, congrArg (c :: ·) hs, fun front back hcut => ?_⟩
      cases front with
      | nil => exact absurd ⟨back, hcut.symm⟩ hfront
      | cons d front =>
        have htail : s = front ++ part ++ back := (List.cons.inj hcut).2
        exact Nat.succ_le_succ (hearliest front back htail)

theorem exists_cut (hpart : part ≠ []) (s : List Char) : ∃ pieces, Cut part s pieces := by
  induction hn : s.length using Nat.strongRecOn generalizing s with
  | ind n ih =>
    by_cases h : part <:+: s
    · obtain ⟨piece, rest, rfl, hearliest⟩ := exists_earliest h
      have hlength : rest.length < n := by
        have hpos := List.length_pos_iff.mpr hpart
        simp only [List.length_append] at hn
        omega
      obtain ⟨pieces, hpieces⟩ := ih rest.length hlength rest rfl
      exact ⟨piece :: pieces, .next hearliest hpieces⟩
    · exact ⟨[s], .last h⟩

theorem Cut.ne_nil {pieces : List (List Char)} (h : Cut part s pieces) : pieces ≠ [] := by
  cases h <;> exact List.cons_ne_nil _ _

theorem Cut.two_le (hocc : part <:+: s) {pieces : List (List Char)} (h : Cut part s pieces) :
    2 ≤ pieces.length := by
  cases h with
  | last hnot => exact absurd hocc hnot
  | next _ hrest => exact Nat.succ_le_succ (List.length_pos_iff.mpr hrest.ne_nil)

section Replaced

variable (replacement : List Char)

theorem replaceFrom_skipped (skipped rest : List Char) :
    replaceFrom part replacement skipped.length (skipped ++ rest) = replaceFrom part replacement 0 rest := by
  induction skipped with
  | nil => rfl
  | cons c skipped ih => exact ih

theorem replaceFrom_occurrence (hpart : part ≠ []) (rest : List Char) :
    replaceFrom part replacement 0 (part ++ rest) = replacement ++ replaceFrom part replacement 0 rest := by
  obtain ⟨c, tail, rfl⟩ := List.exists_cons_of_ne_nil hpart
  have hprefix : (c :: tail).isPrefixOf (c :: (tail ++ rest)) = true :=
    List.isPrefixOf_iff_prefix.mpr ⟨rest, rfl⟩
  rw [List.cons_append, replaceFrom, if_pos hprefix]
  exact congrArg (replacement ++ ·) (replaceFrom_skipped replacement tail rest)

theorem replaceFrom_piece {piece rest : List Char} (h : Earliest part piece (piece ++ rest)) :
    replaceFrom part replacement 0 (piece ++ rest) = piece ++ replaceFrom part replacement 0 rest := by
  induction piece with
  | nil => rfl
  | cons c piece ih =>
    have hnot : ¬ part.isPrefixOf (c :: (piece ++ rest)) = true :=
      fun hprefix => h.not_prefix (List.isPrefixOf_iff_prefix.mp hprefix)
    rw [List.cons_append, replaceFrom, if_neg hnot, ih h.tail]
    rfl

theorem replaceFrom_absent (h : ¬ part <:+: s) : replaceFrom part replacement 0 s = s := by
  have hpiece := replaceFrom_piece replacement (Earliest.of_absent h)
  rwa [List.append_nil, replaceFrom, List.append_nil] at hpiece

theorem Cut.replaceFrom_eq (hpart : part ≠ []) {pieces : List (List Char)} (h : Cut part s pieces) :
    replaceFrom part replacement 0 s = replacement.intercalate pieces := by
  induction h with
  | last hnot => rw [replaceFrom_absent replacement hnot, List.intercalate_singleton]
  | next hearliest hrest ih =>
    obtain ⟨q, qs, rfl⟩ := List.exists_cons_of_ne_nil hrest.ne_nil
    rw [List.append_assoc] at hearliest ⊢
    rw [replaceFrom_piece replacement hearliest, replaceFrom_occurrence replacement hpart, ih,
      List.intercalate_cons_cons, List.append_assoc]

end Replaced

section Split

theorem splitFrom_skipped (piece skipped rest : List Char) :
    splitFrom part skipped.length piece (skipped ++ rest) = splitFrom part 0 piece rest := by
  induction skipped with
  | nil => rfl
  | cons c skipped ih => exact ih

theorem splitFrom_occurrence (hpart : part ≠ []) (piece rest : List Char) :
    splitFrom part 0 piece (part ++ rest) = piece.reverse :: splitFrom part 0 [] rest := by
  obtain ⟨c, tail, rfl⟩ := List.exists_cons_of_ne_nil hpart
  have hprefix : (c :: tail).isPrefixOf (c :: (tail ++ rest)) = true :=
    List.isPrefixOf_iff_prefix.mpr ⟨rest, rfl⟩
  rw [List.cons_append, splitFrom, if_pos hprefix]
  exact congrArg (piece.reverse :: ·) (splitFrom_skipped [] tail rest)

theorem splitFrom_piece {piece rest : List Char} (h : Earliest part piece (piece ++ rest)) (before : List Char) :
    splitFrom part 0 before (piece ++ rest) = splitFrom part 0 (piece.reverse ++ before) rest := by
  induction piece generalizing before with
  | nil => rfl
  | cons c piece ih =>
    have hnot : ¬ part.isPrefixOf (c :: (piece ++ rest)) = true :=
      fun hprefix => h.not_prefix (List.isPrefixOf_iff_prefix.mp hprefix)
    rw [List.cons_append, splitFrom, if_neg hnot, ih h.tail, List.reverse_cons, List.append_assoc]
    rfl

theorem splitFrom_absent (h : ¬ part <:+: s) : splitFrom part 0 [] s = [s] := by
  have hpiece := splitFrom_piece (Earliest.of_absent h) []
  rwa [List.append_nil, splitFrom, List.append_nil, List.reverse_reverse] at hpiece

theorem Cut.splitFrom_eq (hpart : part ≠ []) {pieces : List (List Char)} (h : Cut part s pieces) :
    splitFrom part 0 [] s = pieces := by
  induction h with
  | last hnot => exact splitFrom_absent hnot
  | next hearliest hrest ih =>
    rw [List.append_assoc] at hearliest ⊢
    rw [splitFrom_piece hearliest, splitFrom_occurrence hpart, ih, List.append_nil, List.reverse_reverse]

theorem Cut.join {pieces : List (List Char)} (h : Cut part s pieces) : part.intercalate pieces = s := by
  induction h with
  | last => exact List.intercalate_singleton
  | next _ hrest ih =>
    obtain ⟨q, qs, rfl⟩ := List.exists_cons_of_ne_nil hrest.ne_nil
    rw [List.intercalate_cons_cons, ih]

end Split

section Mark

variable {c : Char} {pieces : List (List Char)}

theorem infix_mark : [c] <:+: s ↔ c ∈ s := by
  rw [List.mem_iff_append]
  simp only [List.IsInfix, List.append_assoc, List.singleton_append, eq_comm]

theorem earliest_mark {piece : List Char} (h : c ∉ piece) (rest : List Char) : Earliest [c] piece (piece ++ rest) := by
  intro front back hs
  rw [List.append_assoc] at hs
  obtain ⟨between, hfront, -⟩ | ⟨between, hpiece, hmark⟩ := List.append_eq_append_iff.mp hs
  · rw [hfront, List.length_append]
    exact Nat.le_add_right _ _
  · cases between with
    | nil => exact Nat.le_of_eq (congrArg List.length (hpiece.trans (List.append_nil front)))
    | cons d between =>
      obtain ⟨rfl, -⟩ := List.cons.inj hmark
      exact absurd (hpiece ▸ List.mem_append_right _ List.mem_cons_self) h

theorem Earliest.not_mem {piece rest : List Char} (h : Earliest [c] piece (piece ++ rest)) : c ∉ piece := by
  intro hmem
  obtain ⟨front, back, rfl⟩ := List.mem_iff_append.mp hmem
  have hlength := h front (back ++ rest) (by simp)
  simp only [List.length_append, List.length_cons] at hlength
  omega

theorem cut_marked (hne : pieces ≠ []) (h : ∀ p ∈ pieces, c ∉ p) : Cut [c] ([c].intercalate pieces) pieces := by
  induction pieces with
  | nil => exact absurd rfl hne
  | cons p pieces ih =>
    obtain ⟨hp, hpieces⟩ := List.forall_mem_cons.mp h
    cases pieces with
    | nil =>
      rw [List.intercalate_singleton]
      exact .last fun hoccurs => hp (infix_mark.mp hoccurs)
    | cons q pieces =>
      rw [List.intercalate_cons_cons]
      refine .next ?_ (ih (List.cons_ne_nil _ _) hpieces)
      rw [List.append_assoc]
      exact earliest_mark hp _

theorem Cut.not_mem (h : Cut [c] s pieces) : ∀ p ∈ pieces, c ∉ p := by
  induction h with
  | last hnot => exact List.forall_mem_singleton.mpr fun hmem => hnot (infix_mark.mpr hmem)
  | next hearliest _ ih =>
    rw [List.append_assoc] at hearliest
    exact List.forall_mem_cons.mpr ⟨hearliest.not_mem, ih⟩

end Mark

theorem join_singles (s : List Char) : ([] : List Char).intercalate (s.map ([·])) = s := by
  induction s with
  | nil => rfl
  | cons c s ih =>
    cases s with
    | nil => rfl
    | cons d s => exact (List.intercalate_cons_cons ..).trans (congrArg (c :: ·) ih)

/-- The pieces of a text, joined by what they were cut at, are the text again. -/
theorem join_splitChars (sep s : List Char) : sep.intercalate (splitChars sep s) = s := by
  unfold splitChars
  split
  · next hempty =>
    rw [List.isEmpty_iff.mp hempty]
    exact join_singles s
  · next hsome =>
    have hsep : sep ≠ [] := fun hnil => hsome (List.isEmpty_iff.mpr hnil)
    obtain ⟨pieces, hpieces⟩ := exists_cut hsep s
    rw [hpieces.splitFrom_eq hsep]
    exact hpieces.join

theorem replaceChars_eq (hpart : part ≠ []) (replacement s : List Char) :
    replaceChars part replacement s = replacement.intercalate (splitChars part s) := by
  have hempty : part.isEmpty = false := List.isEmpty_eq_false_iff.mpr hpart
  obtain ⟨pieces, hpieces⟩ := exists_cut hpart s
  rw [replaceChars, splitChars, hempty]
  exact (hpieces.replaceFrom_eq replacement hpart).trans (congrArg _ (hpieces.splitFrom_eq hpart).symm)

theorem Cut.replaceText_eq {part replacement s : String} (hpart : part ≠ "") {pieces : List (List Char)}
    (h : Cut part.toList s.toList pieces) :
    (replaceText part replacement s).toList = replacement.toList.intercalate pieces := by
  have hne : part.toList ≠ [] := fun hnil => hpart (String.toList_eq_nil_iff.mp hnil)
  have hempty : part.toList.isEmpty = false := List.isEmpty_eq_false_iff.mpr hne
  rw [replaceText, String.toList_ofList, replaceChars, hempty]
  exact h.replaceFrom_eq replacement.toList hne

end Apiary
