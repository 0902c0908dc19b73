import Apiary.Script.Operator
import Mathlib.Logic.Relation
import Mathlib.Data.Finset.Card
import Mathlib.Data.Finset.Range

/-!
Containers that contain themselves. A conversion has no answer only for a value that holds one: each level
that it descends is a step from a container to one of its items, and more steps than there are cells come
back to a container met before.
-/

namespace Apiary.Heap

inductive Holds (h : Heap) : Value → Value → Prop
  | item {cell : Nat} {v : Value} : v ∈ (h.array cell).toList → Holds h (.array cell) v
  | field {cell : Nat} {k : String} {v : Value} : (k, v) ∈ h.object cell → Holds h (.object cell) v

def Circular (h : Heap) (v : Value) : Prop :=
  ∃ u, Relation.ReflTransGen h.Holds v u ∧ Relation.TransGen h.Holds u u

def Descends (h : Heap) : Nat → Value → Prop
  | 0, _ => True
  | n + 1, v => ∃ u, h.Holds v u ∧ Descends h n u

variable {h : Heap}

theorem Circular.of_holds {v u : Value} (hv : h.Holds v u) (hu : h.Circular u) : h.Circular v := by
  obtain ⟨c, huc, hcc⟩ := hu
  exact ⟨c, .head hv huc, hcc⟩

theorem Descends.path {n : Nat} {v : Value} (hd : h.Descends n v) :
    ∃ p : Nat → Value, p 0 = v ∧ ∀ i < n, h.Holds (p i) (p (i + 1)) := by
  induction n generalizing v with
  | zero => exact ⟨fun _ => v, rfl, by simp⟩
  | succ n ih =>
    obtain ⟨u, hvu, hu⟩ := hd
    obtain ⟨p, hp, hstep⟩ := ih hu
    refine ⟨fun i => if i = 0 then v else p (i - 1), rfl, ?_⟩
    intro i hi
    cases i with
    | zero => simpa [hp] using hvu
    | succ i => simpa using hstep i (by omega)

theorem transGen_path {p : Nat → Value} {n : Nat} (hp : ∀ i < n, h.Holds (p i) (p (i + 1)))
    {i j : Nat} (hij : i < j) (hj : j ≤ n) : Relation.TransGen h.Holds (p i) (p j) := by
  induction j, hij using Nat.le_induction with
  | base => exact .single (hp i (by omega))
  | succ j hij ih => exact (ih (by omega)).tail (hp j (by omega))

theorem reflTransGen_path {p : Nat → Value} {n : Nat} (hp : ∀ i < n, h.Holds (p i) (p (i + 1)))
    {i : Nat} (hi : i ≤ n) : Relation.ReflTransGen h.Holds (p 0) (p i) := by
  cases i with
  | zero => exact .refl
  | succ i => exact (transGen_path hp (Nat.succ_pos i) hi).to_reflTransGen

def cells (h : Heap) : Nat := h.arrays.size + h.objects.size

def slot (h : Heap) : Value → Nat
  | .array cell => cell
  | .object cell => h.arrays.size + cell
  | _ => 0

theorem lt_size_of_mem_array {cell : Nat} {v : Value} (hv : v ∈ (h.array cell).toList) :
    cell < h.arrays.size := by
  by_contra hc
  simp [array, Array.getD_eq_getD_getElem?, Array.getElem?_eq_none (Nat.le_of_not_lt hc)] at hv

theorem lt_size_of_mem_object {cell : Nat} {f : String × Value} (hf : f ∈ h.object cell) :
    cell < h.objects.size := by
  by_contra hc
  simp [object, Array.getD_eq_getD_getElem?, Array.getElem?_eq_none (Nat.le_of_not_lt hc)] at hf

theorem slot_lt_of_holds {v u : Value} (hv : h.Holds v u) : h.slot v < h.cells := by
  cases hv with
  | item hu =>
    have := lt_size_of_mem_array hu
    simp only [slot, cells]
    omega
  | field hu =>
    have := lt_size_of_mem_object hu
    simp only [slot, cells]
    omega

theorem eq_of_slot_eq {v w u x : Value} (hv : h.Holds v u) (hw : h.Holds w x)
    (hs : h.slot v = h.slot w) : v = w := by
  cases hv with
  | item hu =>
    have := lt_size_of_mem_array hu
    cases hw with
    | item => simpa [slot] using hs
    | field =>
      simp only [slot] at hs
      omega
  | field =>
    cases hw with
    | item hx =>
      have := lt_size_of_mem_array hx
      simp only [slot] at hs
      omega
    | field => simpa [slot] using hs

-- A path of more steps than cells leaves one cell twice.
theorem Descends.circular {v : Value} (hd : h.Descends h.depthBound v) : h.Circular v := by
  obtain ⟨p, rfl, hp⟩ := hd.path
  have hcard : (Finset.range h.cells).card < (Finset.range h.depthBound).card := by
    simp [cells, depthBound]
  have hmaps : ∀ i ∈ Finset.range h.depthBound, h.slot (p i) ∈ Finset.range h.cells := by
    intro i hi
    exact Finset.mem_range.mpr (slot_lt_of_holds (hp i (Finset.mem_range.mp hi)))
  obtain ⟨i, hi, j, hj, hne, hs⟩ := Finset.exists_ne_map_eq_of_card_lt_of_maps_to hcard hmaps
  rw [Finset.mem_range] at hi hj
  have he : p i = p j := eq_of_slot_eq (hp i hi) (hp j hj) hs
  rcases Nat.lt_or_gt_of_ne hne with hlt | hlt
  · have ht := transGen_path hp hlt hj.le
    exact ⟨p i, reflTransGen_path hp hi.le, by rwa [← he] at ht⟩
  · have ht := transGen_path hp hlt hi.le
    exact ⟨p j, reflTransGen_path hp hj.le, by rwa [he] at ht⟩

theorem exists_of_mapM_eq_none {α β : Type} {f : α → Option β} {xs : List α}
    (hn : xs.mapM f = none) : ∃ x ∈ xs, f x = none := by
  induction xs with
  | nil => simp at hn
  | cons x xs ih =>
    cases hx : f x with
    | none => exact ⟨x, by simp, hx⟩
    | some y =>
      have hs : xs.mapM f = none := by
        cases hs : xs.mapM f with
        | none => rfl
        | some ys => simp [List.mapM_cons, hx, hs] at hn
      obtain ⟨z, hz, hfz⟩ := ih hs
      exact ⟨z, by simp [hz], hfz⟩

theorem eq_none_of_bind_some {α β : Type} {o : Option α} {f : α → β}
    (hn : (do let a ← o; some (f a)) = none) : o = none := by
  cases o with
  | none => rfl
  | some a => simp at hn

theorem descends_of_numberWithin {n : Nat} {v : Value} (hn : h.numberWithin n v = none) :
    h.Descends n v := by
  induction n generalizing v with
  | zero => trivial
  | succ n ih =>
    cases v with
    | array cell =>
      simp only [numberWithin] at hn
      split at hn
      · simp at hn
      · next v hv => exact ⟨v, .item (by simp [hv]), ih hn⟩
      · simp at hn
    | floats b =>
      simp only [numberWithin] at hn
      split at hn <;> simp at hn
    | _ => simp [numberWithin] at hn

theorem descends_of_displayWithin {n : Nat} {v : Value} (hn : h.displayWithin n v = none) :
    h.Descends n v := by
  induction n generalizing v with
  | zero => trivial
  | succ n ih =>
    cases v with
    | array cell =>
      rw [displayWithin] at hn
      obtain ⟨v, hv, hd⟩ := exists_of_mapM_eq_none (eq_none_of_bind_some hn)
      split at hd
      · simp at hd
      · exact ⟨v, .item hv, ih hd⟩
    | _ => simp [displayWithin] at hn

theorem descends_of_jsonWithin {n : Nat} {v : Value} (hn : h.jsonWithin n v = none) :
    h.Descends n v := by
  induction n generalizing v with
  | zero => trivial
  | succ n ih =>
    cases v with
    | array cell =>
      rw [jsonWithin] at hn
      obtain ⟨v, hv, hd⟩ := exists_of_mapM_eq_none (eq_none_of_bind_some hn)
      exact ⟨v, .item hv, ih hd⟩
    | object cell =>
      rw [jsonWithin] at hn
      obtain ⟨⟨k, v⟩, hv, hd⟩ := exists_of_mapM_eq_none (eq_none_of_bind_some hn)
      exact ⟨v, .field (List.mem_filter.mp hv).1, ih (eq_none_of_bind_some hd)⟩
    | _ => simp [jsonWithin] at hn

theorem circular_of_number {v : Value} (hn : h.number? v = none) : h.Circular v :=
  (descends_of_numberWithin hn).circular

theorem circular_of_display {v : Value} (hn : h.display? v = none) : h.Circular v :=
  (descends_of_displayWithin hn).circular

theorem circular_of_json {v : Value} (hn : h.json? v = none) : h.Circular v :=
  (descends_of_jsonWithin hn).circular

theorem circular_of_inspect {v : Value} (hn : h.inspect? v = none) : h.Circular v := by
  cases v <;> simp only [inspect?, Option.map_eq_none_iff, reduceCtorEq] at hn
  all_goals first | exact circular_of_json hn | exact circular_of_display hn

theorem circular_of_numericItems {v : Value} (hn : h.numericItems? v = none) : h.Circular v := by
  cases v with
  | array cell =>
    rw [numericItems?] at hn
    obtain ⟨v, hv, hd⟩ := exists_of_mapM_eq_none (eq_none_of_bind_some hn)
    exact (circular_of_number hd).of_holds (.item hv)
  | _ => simp [numericItems?] at hn

theorem circular_of_primitive {v : Value} (hn : h.primitive? v = none) : h.Circular v := by
  cases v <;> simp only [primitive?, Option.map_eq_none_iff, reduceCtorEq] at hn
  all_goals exact circular_of_display hn

theorem circular_or_both {α : Type} {f : Value → Option α} (hf : ∀ u, f u = none → h.Circular u)
    (v w : Value) : (h.Circular v ∨ h.Circular w) ∨ ∃ x y, f v = some x ∧ f w = some y := by
  cases hv : f v with
  | none => exact .inl (.inl (hf v hv))
  | some x =>
    cases hw : f w with
    | none => exact .inl (.inr (hf w hw))
    | some y => exact .inr ⟨x, y, rfl, rfl⟩

theorem number_of_primitive {v p : Value} (hp : h.primitive? v = some p) :
    ∃ x, h.number? p = some x := by
  cases v <;> simp only [primitive?, Option.map_eq_some_iff, Option.some.injEq] at hp
  all_goals obtain ⟨s, -, rfl⟩ := hp
  all_goals simp [number?, depthBound, numberWithin]

theorem display_of_primitive {v p : Value} (hp : h.primitive? v = some p) :
    ∃ s, h.display? p = some s := by
  cases v <;> simp only [primitive?, Option.map_eq_some_iff, Option.some.injEq] at hp
  all_goals obtain ⟨s, -, rfl⟩ := hp
  all_goals simp [display?, depthBound, displayWithin]

theorem circular_of_compare {v w : Value} (hn : h.compare? v w = none) :
    h.Circular v ∨ h.Circular w := by
  rcases circular_or_both (fun _ => circular_of_primitive) v w with hc | ⟨p, q, hv, hw⟩
  · exact hc
  · obtain ⟨x, hx⟩ := number_of_primitive hv
    obtain ⟨y, hy⟩ := number_of_primitive hw
    simp only [compare?, hv, hw, Option.bind_eq_bind, Option.bind_some] at hn
    split at hn
    · simp at hn
    · simp [hx, hy] at hn

theorem circular_of_add {v w : Value} (hn : h.add? v w = none) :
    h.Circular v ∨ h.Circular w := by
  rcases circular_or_both (fun _ => circular_of_primitive) v w with hc | ⟨p, q, hv, hw⟩
  · exact hc
  · obtain ⟨x, hx⟩ := number_of_primitive hv
    obtain ⟨y, hy⟩ := number_of_primitive hw
    obtain ⟨s, hs⟩ := display_of_primitive hv
    obtain ⟨t, ht⟩ := display_of_primitive hw
    simp only [add?, hv, hw, Option.bind_eq_bind, Option.bind_some] at hn
    split at hn
    · simp [ht] at hn
    · simp [hs] at hn
    · simp [hx, hy] at hn

theorem circular_of_byNumber {v w : Value} (hn : looseEq?.byNumber h v w = none) :
    h.Circular v ∨ h.Circular w := by
  rcases circular_or_both (fun _ => circular_of_number) v w with hc | ⟨x, y, hv, hw⟩
  · exact hc
  · simp [looseEq?.byNumber, hv, hw] at hn

theorem circular_of_byText {v w : Value} (hn : looseEq?.byText h v w = none) : h.Circular v := by
  cases hv : h.display? v with
  | none => exact circular_of_display hv
  | some s =>
    simp only [looseEq?.byText, hv, Option.bind_eq_bind, Option.bind_some] at hn
    split at hn <;> simp at hn

theorem circular_of_looseEq {v w : Value} (hn : h.looseEq? v w = none) :
    h.Circular v ∨ h.Circular w := by
  unfold looseEq? at hn
  split at hn
  · simp at hn
  · split at hn
    · simp at hn
    · split at hn
      all_goals first
        | exact circular_of_byNumber hn
        | exact .inl (circular_of_byText hn)
        | exact .inr (circular_of_byText hn)
        | simp at hn

theorem circular_of_result {op : BinaryOp} {v w : Value} (hn : op.result? v w h = none) :
    h.Circular v ∨ h.Circular w := by
  cases op <;> simp only [BinaryOp.result?, Option.map_eq_none_iff, reduceCtorEq] at hn
  case add => exact circular_of_add hn
  case looseEq | looseNe => exact circular_of_looseEq hn
  case lt | le | gt | ge => exact circular_of_compare hn
  all_goals
    rcases circular_or_both (fun _ => circular_of_number) v w with hc | ⟨x, y, hv, hw⟩
    · exact hc
    · simp [hv, hw] at hn

end Apiary.Heap
