import Apiary.Proofs.Net.Layer
import Mathlib.Algebra.BigOperators.Group.List.Lemmas

/-!
Counting the elements of a shape. The product is taken in 64-bit words, one dimension after the other, and gives up
where it leaves them; the count is that of the unbounded product all the same, and so is the order of its errors.
-/

namespace Apiary

/-- Shapes that a tensor can have. -/
def Fillable (shape : List Nat) : Prop := shape ≠ [] ∧ 0 ∉ shape ∧ shape.prod ≤ maxElements

theorem elementCount_of_invalid {shape : List Nat} (h : shape = [] ∨ 0 ∈ shape) :
    elementCount shape = .error (.invalidShape (shape.map fun d : Nat => clamp64 d)) := by
  have hshape : (shape.isEmpty || shape.contains 0) = true := by simpa using h
  rw [elementCount, if_pos hshape]

-- Where the words overflow the product is too large as well, since no later dimension makes it smaller.
theorem elementCount_of_large {shape : List Nat} (hne : shape ≠ []) (hpos : 0 ∉ shape)
    (h : maxElements < shape.prod) : elementCount shape = .error (.tooLarge shape) := by
  have hshape : ¬ (shape.isEmpty || shape.contains 0) = true := by simp [hne, hpos]
  rw [elementCount, if_neg hshape]
  cases hp : checkedProduct 1 shape with
  | none => rfl
  | some n =>
    have hn := checkedProduct_eq_some hp
    rw [Nat.one_mul] at hn
    exact if_neg (Nat.not_le.mpr (hn ▸ h))

theorem elementCount_eq (shape : List Nat) : elementCount shape =
    if shape = [] ∨ 0 ∈ shape then .error (.invalidShape (shape.map fun d : Nat => clamp64 d))
    else if shape.prod ≤ maxElements then .ok shape.prod
    else .error (.tooLarge shape) := by
  split
  · next h => exact elementCount_of_invalid h
  · next h =>
    obtain ⟨hne, hpos⟩ := not_or.mp h
    split
    · next hle => exact elementCount_eq_ok.mpr ⟨hne, hpos, rfl, hle⟩
    · next hlarge => exact elementCount_of_large hne hpos (Nat.not_le.mp hlarge)

theorem elementCount_eq_invalid {shape : List Nat} {dims : List Int} :
    elementCount shape = .error (.invalidShape dims) ↔
      (shape = [] ∨ 0 ∈ shape) ∧ dims = shape.map fun d : Nat => clamp64 d := by
  rw [elementCount_eq]
  split
  · next h => simp [h, eq_comm]
  · next h =>
    split <;> simp [h]

theorem elementCount_eq_large {shape dims : List Nat} :
    elementCount shape = .error (.tooLarge dims) ↔
      (shape ≠ [] ∧ 0 ∉ shape ∧ maxElements < shape.prod) ∧ dims = shape := by
  rw [elementCount_eq]
  split
  · next h =>
    have hnot : ¬ (shape ≠ [] ∧ 0 ∉ shape ∧ maxElements < shape.prod) := by tauto
    simp [hnot]
  · next h =>
    obtain ⟨hne, hpos⟩ := not_or.mp h
    split
    · next hle => simp [Nat.not_lt.mpr hle]
    · next hlarge => simp [hne, hpos, Nat.not_le.mp hlarge, eq_comm]

theorem elementCount_ne_mismatch (shape : List Nat) (expected got : Nat) :
    elementCount shape ≠ .error (.mismatch expected got) := by
  rw [elementCount_eq]
  split
  · exact nofun
  · split <;> exact nofun

theorem Fillable.count {shape : List Nat} (h : Fillable shape) : elementCount shape = .ok shape.prod :=
  elementCount_eq_ok.mpr ⟨h.1, h.2.1, rfl, h.2.2⟩

theorem fillable_of_count {shape : List Nat} {n : Nat} (h : elementCount shape = .ok n) :
    Fillable shape ∧ n = shape.prod := by
  obtain ⟨hne, hpos, rfl, hle⟩ := elementCount_eq_ok.mp h
  exact ⟨⟨hne, hpos, hle⟩, rfl⟩

namespace Tensor

theorem new_eq (shape : List Nat) (init : TensorInit) (g : Prng) : new shape init g =
    (elementCount shape).map fun count =>
      (⟨shape, (entries shape count init g).1⟩, (entries shape count init g).2) := by
  unfold new
  cases elementCount shape <;> rfl

theorem zeros_eq (shape : List Nat) (g : Prng) : zeros shape = (new shape .zeros g).map Prod.fst := by
  unfold new zeros
  cases elementCount shape <;> rfl

theorem new_filled {shape : List Nat} (h : Fillable shape) (init : TensorInit) (g : Prng) :
    ∃ data g', new shape init g = .ok (⟨shape, data⟩, g') ∧ data.size = shape.prod := by
  refine ⟨_, (entries shape shape.prod init g).2, ?_, size_entries h.count init g⟩
  rw [new_eq, h.count]
  rfl

theorem new_eq_error {shape : List Nat} {init : TensorInit} {g : Prng} {e : ShapeError} :
    new shape init g = .error e ↔ elementCount shape = .error e := by
  rw [new_eq]
  cases elementCount shape with
  | ok n => exact ⟨nofun, nofun⟩
  | error e' => exact ⟨fun h => congrArg Except.error (Except.error.inj h),
      fun h => congrArg Except.error (Except.error.inj h)⟩

theorem ofEntries_filled {shape : List Nat} {data : Array Single} {t : Tensor} :
    ofEntries shape data = .ok t ↔ t = ⟨shape, data⟩ ∧ Fillable shape ∧ data.size = shape.prod := by
  rw [ofEntries_ok]
  constructor
  · rintro ⟨rfl, hfilled⟩
    exact ⟨rfl, fillable_of_count hfilled⟩
  · rintro ⟨rfl, hfillable, hsize⟩
    exact ⟨rfl, hfillable.count.trans (congrArg Except.ok hsize.symm)⟩

theorem ofEntries_eq_error {shape : List Nat} {data : Array Single} {e : ShapeError} :
    ofEntries shape data = .error e ↔ elementCount shape = .error e ∨
      Fillable shape ∧ data.size ≠ shape.prod ∧ e = .mismatch shape.prod data.size := by
  unfold ofEntries
  cases hc : elementCount shape with
  | error e' =>
    have hnot : ¬ Fillable shape := fun h => by cases hc.symm.trans h.count
    simp [hnot, Bind.bind, Except.bind]
  | ok n =>
    obtain ⟨hfillable, rfl⟩ := fillable_of_count hc
    simp only [Bind.bind, Except.bind]
    split
    · next hsize => simp [hsize, pure, Except.pure]
    · next hsize => simp [hsize, hfillable, eq_comm]

end Tensor

/-- What is counted is the unbounded product, in any order of the dimensions, and tensors have that many entries. -/
theorem elementCount_exact (shape : List Nat) :
    (∀ p, elementCount shape = .ok p ↔ shape ≠ [] ∧ 0 ∉ shape ∧ p = shape.prod ∧ p ≤ twoTo 26) ∧
    (∀ dims, elementCount shape = .error (.invalidShape dims) ↔
      (shape = [] ∨ 0 ∈ shape) ∧ dims = shape.map fun d : Nat => clamp64 d) ∧
    (∀ dims, elementCount shape = .error (.tooLarge dims) ↔
      (shape ≠ [] ∧ 0 ∉ shape ∧ twoTo 26 < shape.prod) ∧ dims = shape) ∧
    (∀ expected got, elementCount shape ≠ .error (.mismatch expected got)) ∧
    (∀ other, other.Perm shape →
      (∀ p, elementCount other = .ok p ↔ elementCount shape = .ok p) ∧
      (elementCount other = .error (.invalidShape (other.map fun d : Nat => clamp64 d)) ↔
        elementCount shape = .error (.invalidShape (shape.map fun d : Nat => clamp64 d))) ∧
      (elementCount other = .error (.tooLarge other) ↔ elementCount shape = .error (.tooLarge shape))) ∧
    (∀ init g, (∃ data g', Tensor.new shape init g = .ok (⟨shape, data⟩, g') ∧ data.size = shape.prod) ∨
      ∃ e, Tensor.new shape init g = .error e ∧ elementCount shape = .error e) ∧
    (∀ g, Tensor.zeros shape = (Tensor.new shape .zeros g).map Prod.fst) ∧
    (∀ data t, Tensor.ofEntries shape data = .ok t ↔
      t = ⟨shape, data⟩ ∧ Fillable shape ∧ data.size = shape.prod) ∧
    ∀ data e, Tensor.ofEntries shape data = .error e ↔ elementCount shape = .error e ∨
      Fillable shape ∧ data.size ≠ shape.prod ∧ e = .mismatch shape.prod data.size := by
  refine ⟨fun p => elementCount_eq_ok, fun dims => elementCount_eq_invalid, fun dims => elementCount_eq_large,
    elementCount_ne_mismatch shape, fun other hperm => ?_, fun init g => ?_, Tensor.zeros_eq shape,
    fun data t => Tensor.ofEntries_filled, fun data e => Tensor.ofEntries_eq_error⟩
  · have hnil : other = [] ↔ shape = [] := ⟨fun h => (h ▸ hperm).nil_eq.symm, fun h => (h ▸ hperm).eq_nil⟩
    refine ⟨fun p => ?_, ?_, ?_⟩
    · rw [elementCount_eq_ok, elementCount_eq_ok, ne_eq, hnil, hperm.mem_iff, hperm.prod_eq]
    · rw [elementCount_eq_invalid, elementCount_eq_invalid, hnil, hperm.mem_iff]
      simp
    · rw [elementCount_eq_large, elementCount_eq_large, ne_eq, hnil, hperm.mem_iff, hperm.prod_eq]
      simp
  · cases hc : elementCount shape with
    | ok n => exact .inl (Tensor.new_filled (fillable_of_count hc).1 init g)
    | error e => exact .inr ⟨e, Tensor.new_eq_error.mpr hc, rfl⟩

/-- A zero is reported although the other dimensions overflow the words, wherever it stands. -/
theorem overflowing_zero_invalid :
    checkedProduct 1 [twoTo 32, twoTo 32, 0] = none ∧
    elementCount [twoTo 32, twoTo 32, 0] = .error (.invalidShape [twoTo 32, twoTo 32, 0]) ∧
    elementCount [0, twoTo 32, twoTo 32] = .error (.invalidShape [0, twoTo 32, twoTo 32]) := by
  obtain ⟨-, hinvalid, -, -, horder, -⟩ := elementCount_exact [twoTo 32, twoTo 32, 0]
  have hzero : (0 : Nat) ∈ [twoTo 32, twoTo 32, 0] := by simp
  have hcount := (hinvalid _).mpr ⟨.inr hzero, rfl⟩
  have hperm : [0, twoTo 32, twoTo 32].Perm [twoTo 32, twoTo 32, 0] := by decide
  exact ⟨by decide, hcount, (horder _ hperm).2.1.mpr hcount⟩

end Apiary
