import Mathlib.Data.List.Forall2

/-!
What the success of a whole tells of its steps. A computation over a list succeeds where it does on each item.
-/

namespace Apiary

variable {ε α β : Type}

theorem ok_of_bind {x : Except ε α} {f : α → Except ε β} {b : β} (h : x >>= f = .ok b) :
    ∃ a, x = .ok a ∧ f a = .ok b := by
  cases x with
  | error e => cases h
  | ok a => exact ⟨a, rfl, h⟩

theorem mapM_eq_ok {f : α → Except ε β} {xs : List α} {ys : List β} :
    xs.mapM f = .ok ys ↔ List.Forall₂ (fun x y => f x = .ok y) xs ys := by
  induction xs generalizing ys with
  | nil =>
    rw [List.forall₂_nil_left_iff]
    exact ⟨fun h => (Except.ok.inj h).symm, fun h => congrArg Except.ok h.symm⟩
  | cons x xs ih =>
    rw [List.mapM_cons]
    constructor
    · intro h
      obtain ⟨y, hy, h⟩ := ok_of_bind h
      obtain ⟨rest, hrest, h⟩ := ok_of_bind h
      cases h
      exact .cons hy (ih.mp hrest)
    · intro h
      obtain ⟨y, rest, hy, hrest, rfl⟩ := List.forall₂_cons_left_iff.mp h
      rw [hy, ih.mpr hrest]
      rfl

theorem getLast?_forall₂ {R : α → β → Prop} {xs : List α} {ys : List β} {y : β} (h : List.Forall₂ R xs ys)
    (hy : ys.getLast? = some y) : ∃ x, xs.getLast? = some x ∧ R x y := by
  rw [List.getLast?_eq_head?_reverse] at hy ⊢
  have hreverse := List.forall₂_reverse_iff.mpr h
  obtain ⟨tail, htail⟩ := List.head?_eq_some_iff.mp hy
  rw [htail] at hreverse
  obtain ⟨x, rest, hxy, -, hxs⟩ := List.forall₂_cons_right_iff.mp hreverse
  exact ⟨x, by rw [hxs, List.head?_cons], hxy⟩

theorem exists_forall₂ {R : α → β → Prop} {xs : List α} :
    (∃ ys, List.Forall₂ R xs ys) ↔ ∀ x ∈ xs, ∃ y, R x y := by
  induction xs with
  | nil => exact ⟨fun _ => List.forall_mem_nil _, fun _ => ⟨[], .nil⟩⟩
  | cons x xs ih =>
    rw [List.forall_mem_cons, ← ih]
    constructor
    · rintro ⟨_, h⟩
      obtain ⟨y, ys, hxy, hrest, -⟩ := List.forall₂_cons_left_iff.mp h
      exact ⟨⟨y, hxy⟩, ys, hrest⟩
    · rintro ⟨⟨y, hxy⟩, ys, hrest⟩
      exact ⟨y :: ys, .cons hxy hrest⟩

end Apiary
