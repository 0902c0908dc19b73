import Apiary.Proofs.Number.Equality
import Apiary.Proofs.Script.Circular
import Apiary.Script.Eval

/-!
Loose and strict equality of values. Both are symmetric, and what is strictly equal is loosely equal.
-/

namespace Apiary

namespace Value

variable {v w : Value}

theorem strictEq_eq (hv : ∀ x, v ≠ .number x) : v.strictEq w = decide (v = w) := by
  unfold strictEq
  split
  · exact absurd rfl (hv _)
  · exact absurd rfl (hv _)
  · exact (decide_eq_false (hv _)).symm
  · rfl

theorem strictEq_comm (v w : Value) : v.strictEq w = w.strictEq v := by
  by_cases hv : ∃ x, v = .number x
  · obtain ⟨x, rfl⟩ := hv
    cases w with
    | number y => exact Double.beq_comm x y
    | _ => rfl
  · by_cases hw : ∃ y, w = .number y
    · obtain ⟨y, rfl⟩ := hw
      cases v with
      | number x => exact absurd ⟨x, rfl⟩ hv
      | _ => rfl
    · rw [strictEq_eq fun x hx => hv ⟨x, hx⟩, strictEq_eq fun y hy => hw ⟨y, hy⟩]
      exact decide_eq_decide.mpr eq_comm

theorem strictEq_cases (heq : v.strictEq w = true) :
    (∃ x y, v = .number x ∧ w = .number y ∧ (x == y) = true) ∨ v = w := by
  by_cases hv : ∃ x, v = .number x
  · obtain ⟨x, rfl⟩ := hv
    cases w with
    | number y => exact .inl ⟨x, y, rfl, rfl, heq⟩
    | _ => cases heq
  · rw [strictEq_eq fun x hx => hv ⟨x, hx⟩] at heq
    exact .inr (of_decide_eq_true heq)

end Value

namespace Heap

variable {h : Heap} {v w : Value}

theorem byNumber_comm (h : Heap) (v w : Value) : looseEq?.byNumber h v w = looseEq?.byNumber h w v := by
  unfold looseEq?.byNumber
  cases h.number? v with
  | none => cases h.number? w <;> rfl
  | some x =>
    cases h.number? w with
    | none => rfl
    | some y => exact congrArg some (Double.beq_comm x y)

theorem looseEq_comm (h : Heap) (v w : Value) : h.looseEq? v w = h.looseEq? w v := by
  have strict (v w : Value) : some (v.strictEq w) = some (w.strictEq v) := congrArg some (Value.strictEq_comm v w)
  cases v with
  | undefined | null => cases w <;> rfl
  | bool b =>
    cases w with
    | undefined | null => rfl
    | _ => exact byNumber_comm ..
  | number x =>
    cases w with
    | bool | string => exact byNumber_comm ..
    | undefined | null | array | object => rfl
    | _ => exact strict ..
  | string s =>
    cases w with
    | bool | number => exact byNumber_comm ..
    | undefined | null | array | object => rfl
    | _ => exact strict ..
  | array | object =>
    cases w with
    | bool => exact byNumber_comm ..
    | undefined | null | number | string => rfl
    | _ => exact strict ..
  | _ =>
    cases w with
    | bool => exact byNumber_comm ..
    | undefined | null => rfl
    | _ => exact strict ..

theorem looseEq_self (hv : ∀ x, v ≠ .number x) : h.looseEq? v v = some true := by
  cases v with
  | bool b =>
    have hone : ((if b then 1 else 0 : Double) == if b then 1 else 0) = true := by cases b <;> decide +kernel
    exact congrArg some hone
  | number x => exact absurd rfl (hv x)
  | undefined | null => rfl
  | _ => exact congrArg some (decide_eq_true rfl)

theorem looseEq_of_strictEq (heq : v.strictEq w = true) : h.looseEq? v w = some true := by
  rcases Value.strictEq_cases heq with ⟨x, y, rfl, rfl, hxy⟩ | rfl
  · exact congrArg some hxy
  · by_cases hnumber : ∃ x, v = .number x
    · obtain ⟨x, rfl⟩ := hnumber
      exact congrArg some heq
    · exact looseEq_self fun x hx => hnumber ⟨x, hx⟩

theorem looseEq_of_nullish (hv : v.isNullish = true) : h.looseEq? v w = some w.isNullish := by
  cases hw : w.isNullish <;> simp [looseEq?, hv, hw]

theorem circular_iff : h.Circular v ↔ ∃ u, h.Holds v u ∧ h.Circular u := by
  constructor
  · rintro ⟨c, hvc, hcc⟩
    rcases hvc.cases_head with rfl | ⟨u, hvu, huc⟩
    · obtain ⟨u, hvu, huv⟩ := Relation.TransGen.head'_iff.mp hcc
      exact ⟨u, hvu, v, huv, hcc⟩
    · exact ⟨u, hvu, c, huc, hcc⟩
  · rintro ⟨u, hvu, hu⟩
    exact hu.of_holds hvu

end Heap

open Act

/-- Equality of values that hold no container inside itself has an answer, the same in both orders. -/
theorem equality_symmetric {σ : Type} {world : World σ} {v w : Value} (hv : ¬ world.heap.Circular v)
    (hw : ¬ world.heap.Circular w) : ∃ loose strict : Bool,
      applyBinary .looseEq v w world = .ok (.bool loose) world ∧
      applyBinary .looseEq w v world = .ok (.bool loose) world ∧
      applyBinary .strictEq v w world = .ok (.bool strict) world ∧
      applyBinary .strictEq w v world = .ok (.bool strict) world ∧
      (strict = true → loose = true) ∧ (v.isNullish = true → loose = w.isNullish) := by
  have hanswer : ∃ loose, world.heap.looseEq? v w = some loose := by
    cases hloose : world.heap.looseEq? v w with
    | none => exact (Heap.circular_of_looseEq hloose).elim (absurd · hv) (absurd · hw)
    | some loose => exact ⟨loose, rfl⟩
  obtain ⟨loose, hloose⟩ := hanswer
  have hswapped : world.heap.looseEq? w v = some loose := (Heap.looseEq_comm ..).trans hloose
  refine ⟨loose, v.strictEq w, ?_, ?_, rfl, ?_, fun hstrict => ?_, fun hnullish => ?_⟩
  · simp only [applyBinary, convert, BinaryOp.result?, hloose, Option.map_some]
  · simp only [applyBinary, convert, BinaryOp.result?, hswapped, Option.map_some]
  · rw [Value.strictEq_comm]
    rfl
  · exact Option.some.inj (hloose.symm.trans (Heap.looseEq_of_strictEq hstrict))
  · exact Option.some.inj (hloose.symm.trans (Heap.looseEq_of_nullish hnullish))

/-- Holds `["1"]`. -/
def singleText : World Unit := ⟨⟨{ arrays := #[#[.string "1"]] }, ()⟩, #[], #[], 0⟩

theorem singleText_equal : ∃ strict : Bool,
    applyBinary .looseEq (.array 0) (.string "1") singleText = .ok (.bool true) singleText ∧
    applyBinary .looseEq (.string "1") (.array 0) singleText = .ok (.bool true) singleText ∧
    applyBinary .strictEq (.array 0) (.string "1") singleText = .ok (.bool strict) singleText ∧
    applyBinary .strictEq (.string "1") (.array 0) singleText = .ok (.bool strict) singleText := by
  have htext : ¬ singleText.heap.Circular (.string "1") := by
    rw [Heap.circular_iff]
    rintro ⟨u, ⟨⟩, -⟩
  have harray : ¬ singleText.heap.Circular (.array 0) := by
    rw [Heap.circular_iff]
    rintro ⟨u, hu, hcircular⟩
    cases hu with
    | item hmem =>
      rw [List.mem_singleton.mp hmem] at hcircular
      exact htext hcircular
  obtain ⟨loose, strict, hloose, hswapped, hstrict, hstrict', -⟩ := equality_symmetric harray htext
  have hanswer : singleText.heap.looseEq? (.array 0) (.string "1") = some true := by decide +kernel
  simp only [applyBinary, convert, BinaryOp.result?, hanswer, Option.map_some] at hloose
  cases hloose
  exact ⟨strict, rfl, hswapped, hstrict, hstrict'⟩

end Apiary
