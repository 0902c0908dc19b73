import Apiary.Net.Layer
import Apiary.Proofs.Net.Generator
import Mathlib.Algebra.BigOperators.Group.List.Basic

/-!
Well-formed layers: sizes of at least one, and buffers that fill them.
-/

namespace Apiary

theorem prod_pos {shape : List Nat} (h : 0 ∉ shape) : 0 < shape.prod :=
  List.prod_pos_iff_forall_pos_nat.mpr fun _ hd => Nat.pos_of_ne_zero fun h0 => h (h0 ▸ hd)

theorem checkedProduct_eq_some {p n : Nat} {shape : List Nat}
    (h : checkedProduct p shape = some n) : n = p * shape.prod := by
  induction shape generalizing p with
  | nil =>
    injection h with h
    rw [List.prod_nil, Nat.mul_one, h]
  | cons d rest ih =>
    unfold checkedProduct at h
    split at h
    · rw [ih h, List.prod_cons, Nat.mul_assoc]
    · cases h

theorem checkedProduct_of_lt {p : Nat} {shape : List Nat} (hpos : 0 ∉ shape)
    (hlt : p * shape.prod < twoTo 64) : checkedProduct p shape = some (p * shape.prod) := by
  induction shape generalizing p with
  | nil => rw [checkedProduct, List.prod_nil, Nat.mul_one]
  | cons d rest ih =>
    rw [List.prod_cons, ← Nat.mul_assoc] at hlt ⊢
    have hrest : 0 ∉ rest := fun h => hpos (List.mem_cons_of_mem d h)
    have hle : p * d ≤ p * d * rest.prod := Nat.le_mul_of_pos_right _ (prod_pos hrest)
    rw [checkedProduct, if_pos (Nat.lt_of_le_of_lt hle hlt)]
    exact ih hrest hlt

theorem elementCount_eq_ok {shape : List Nat} {n : Nat} : elementCount shape = .ok n ↔
    shape ≠ [] ∧ 0 ∉ shape ∧ n = shape.prod ∧ n ≤ maxElements := by
  unfold elementCount
  constructor
  · intro h
    split at h
    · cases h
    · rename_i hshape
      simp only [Bool.or_eq_true, List.isEmpty_iff, List.contains_iff_mem, not_or] at hshape
      split at h
      · rename_i m hm
        have hprod := checkedProduct_eq_some hm
        rw [Nat.one_mul] at hprod
        split at h
        · cases h
          exact ⟨hshape.1, hshape.2, hprod, ‹_›⟩
        · cases h
      · cases h
  · rintro ⟨hne, hpos, rfl, hle⟩
    have hlt : 1 * shape.prod < twoTo 64 := by
      rw [Nat.one_mul]
      exact Nat.lt_of_le_of_lt hle (by decide)
    rw [if_neg (by simp [hne, hpos]), checkedProduct_of_lt hpos hlt, Nat.one_mul]
    exact if_pos hle

namespace Tensor

def Filled (t : Tensor) : Prop := elementCount t.shape = .ok t.data.size

theorem size_identityEntries (n : Nat) : (identityEntries n).size = n * n := by
  simp [identityEntries]

theorem size_entries {shape : List Nat} {count : Nat} (hc : elementCount shape = .ok count)
    (init : TensorInit) (g : Prng) : (entries shape count init g).1.size = count := by
  cases init with
  | zeros => exact Array.size_replicate
  | random => exact (size_drawEntries _ _ _ _).trans (Nat.zero_add count)
  | identity =>
    unfold entries
    dsimp only
    split
    · rename_i hsquare
      have hprod := (elementCount_eq_ok.mp hc).2.2.1
      unfold isSquare at hsquare
      split at hsquare
      · have heq := of_decide_eq_true hsquare
        simpa [heq, size_identityEntries] using hprod.symm
      · cases hsquare
    · exact (size_drawEntries _ _ _ _).trans (Nat.zero_add count)

theorem new_ok {shape : List Nat} {init : TensorInit} {g g' : Prng} {t : Tensor}
    (h : new shape init g = .ok (t, g')) :
    t.shape = shape ∧ t.Filled ∧ (g.Nonzero → g'.Nonzero) := by
  unfold new at h
  cases hc : elementCount shape with
  | error e =>
    rw [hc] at h
    cases h
  | ok count =>
    rw [hc] at h
    cases h
    exact ⟨rfl, hc.trans (congrArg Except.ok (size_entries hc init g).symm),
      nonzero_entries shape count init⟩

theorem zeros_ok {shape : List Nat} {t : Tensor} (h : zeros shape = .ok t) :
    t.shape = shape ∧ t.Filled := by
  unfold zeros at h
  cases hc : elementCount shape with
  | error e =>
    rw [hc] at h
    cases h
  | ok count =>
    rw [hc] at h
    cases h
    exact ⟨rfl, by rw [Filled, Array.size_replicate]; exact hc⟩

theorem ofEntries_ok {shape : List Nat} {data : Array Single} {t : Tensor} :
    ofEntries shape data = .ok t ↔ t = ⟨shape, data⟩ ∧ t.Filled := by
  unfold ofEntries Filled
  constructor
  · intro h
    cases hc : elementCount shape with
    | error e =>
      rw [hc] at h
      cases h
    | ok count =>
      simp only [hc, Bind.bind, Except.bind] at h
      split at h
      · rename_i hsize
        cases h
        exact ⟨rfl, by rw [hc, hsize]⟩
      · cases h
  · rintro ⟨rfl, hc⟩
    rw [hc]
    exact if_pos rfl

end Tensor

structure Layer.WellFormed (l : Layer) : Prop where
  inputs : 1 ≤ l.inputs
  outputs : 1 ≤ l.outputs
  weights_shape : l.weights.shape = [l.inputs, l.outputs]
  weights_size : l.weights.data.size = l.inputs * l.outputs
  bias_shape : l.bias.shape = [l.outputs]
  bias_size : l.bias.data.size = l.outputs
  limit : l.inputs * l.outputs ≤ maxElements

namespace Layer

theorem wellFormed_of_filled {l : Layer} (hw : l.weights.Filled) (hb : l.bias.Filled)
    (hws : l.weights.shape = [l.inputs, l.outputs]) (hbs : l.bias.shape = [l.outputs]) :
    l.WellFormed := by
  obtain ⟨-, hpos, hwn, hmax⟩ := elementCount_eq_ok.mp hw
  obtain ⟨-, -, hbn, -⟩ := elementCount_eq_ok.mp hb
  rw [hws] at hpos hwn
  rw [hbs] at hbn
  simp only [List.mem_cons, List.not_mem_nil, or_false, not_or] at hpos
  simp only [List.prod_cons, List.prod_nil, Nat.mul_one] at hwn hbn
  exact ⟨by omega, by omega, hws, hwn, hbs, hbn, hwn ▸ hmax⟩

theorem WellFormed.weights_filled {l : Layer} (h : l.WellFormed) : l.weights.Filled := by
  refine elementCount_eq_ok.mpr ?_
  have hi := h.inputs
  have ho := h.outputs
  rw [h.weights_shape, h.weights_size]
  refine ⟨by simp, ?_, by simp, h.limit⟩
  simp only [List.mem_cons, List.not_mem_nil, or_false, not_or]
  omega

theorem WellFormed.bias_filled {l : Layer} (h : l.WellFormed) : l.bias.Filled := by
  refine elementCount_eq_ok.mpr ?_
  have ho := h.outputs
  have hle : l.outputs ≤ l.inputs * l.outputs := Nat.le_mul_of_pos_left _ h.inputs
  rw [h.bias_shape, h.bias_size]
  refine ⟨by simp, ?_, by simp, Nat.le_trans hle h.limit⟩
  simp only [List.mem_cons, List.not_mem_nil, or_false]
  omega

theorem new_ok {inputs outputs : Nat} {init : TensorInit} {g g' : Prng} {l : Layer}
    (h : new inputs outputs init g = .ok (l, g')) :
    l.inputs = inputs ∧ l.outputs = outputs ∧ l.WellFormed ∧ (g.Nonzero → g'.Nonzero) := by
  unfold new at h
  cases hw : Tensor.new [inputs, outputs] init g with
  | error e =>
    rw [hw] at h
    cases h
  | ok r =>
    obtain ⟨weights, g₁⟩ := r
    obtain ⟨hws, hwf, hg⟩ := Tensor.new_ok hw
    cases hb : Tensor.zeros [outputs] with
    | error e =>
      simp only [hw, hb, Bind.bind, Except.bind] at h
      cases h
    | ok bias =>
      obtain ⟨hbs, hbf⟩ := Tensor.zeros_ok hb
      simp only [hw, hb, Bind.bind, Except.bind] at h
      cases h
      exact ⟨rfl, rfl, wellFormed_of_filled hwf hbf hws hbs, hg⟩

theorem new_identity {size : Nat} {g g' : Prng} {l : Layer}
    (h : new size size .identity g = .ok (l, g')) : g' = g := by
  have hentries : ∀ count, Tensor.entries [size, size] count .identity g =
      (Tensor.identityEntries size, g) := fun count => by
    simp [Tensor.entries, Tensor.isSquare]
  unfold new Tensor.new at h
  simp only [hentries] at h
  cases hw : elementCount [size, size] with
  | error e =>
    rw [hw] at h
    cases h
  | ok count =>
    cases hb : Tensor.zeros [size] with
    | error e =>
      rw [hw, hb] at h
      cases h
    | ok bias =>
      rw [hw, hb] at h
      cases h
      rfl

theorem ofParts_ok {weights bias : Tensor} {l : Layer} {inputs outputs : Nat}
    (hw : weights.shape = [inputs, outputs]) :
    ofParts weights bias = .ok l ↔
      l = ⟨inputs, outputs, weights, bias⟩ ∧ bias.data.size = outputs := by
  unfold ofParts
  rw [hw]
  dsimp only
  split
  · rename_i hsize
    exact ⟨fun h => ⟨(Except.ok.inj h).symm, hsize⟩, fun h => congrArg Except.ok h.1.symm⟩
  · rename_i hsize
    exact ⟨nofun, fun h => absurd h.2 hsize⟩

theorem forward_of_length {l : Layer} {x : List Single} (h : x.length = l.inputs) :
    ∃ y, l.forward x = .ok y ∧ y.length = l.outputs :=
  ⟨_, if_pos h, by rw [List.length_map, List.length_range]⟩

theorem forward_of_length_ne {l : Layer} {x : List Single} (h : x.length ≠ l.inputs) :
    l.forward x = .error (.mismatch l.inputs x.length) :=
  if_neg h

theorem nonzero_mutateEntry (intensity x : Single) {g : Prng} (hg : g.Nonzero) :
    (mutateEntry intensity x g).2.Nonzero := by
  unfold mutateEntry
  dsimp only
  split
  · exact hg.step.step
  · exact hg.step

theorem nonzero_mutate (intensity : Single) (l : Layer) {g : Prng} (hg : g.Nonzero) :
    (l.mutate intensity g).2.Nonzero :=
  Prng.mapArray_keeps (nonzero_mutateEntry intensity) _
    (Prng.mapArray_keeps (nonzero_mutateEntry intensity) _ hg)

theorem size_mutateTensor (intensity : Single) (t : Tensor) (g : Prng) :
    (mutateTensor intensity t g).1.data.size = t.data.size :=
  Prng.size_mapArray (mutateEntry intensity) t.data g

theorem size_mutate_weights (intensity : Single) (l : Layer) (g : Prng) :
    (l.mutate intensity g).1.weights.data.size = l.weights.data.size :=
  size_mutateTensor intensity l.weights g

theorem size_mutate_bias (intensity : Single) (l : Layer) (g : Prng) :
    (l.mutate intensity g).1.bias.data.size = l.bias.data.size :=
  size_mutateTensor intensity l.bias (mutateTensor intensity l.weights g).2

theorem WellFormed.mutate {l : Layer} (h : l.WellFormed) (intensity : Single) (g : Prng) :
    (l.mutate intensity g).1.WellFormed where
  inputs := h.inputs
  outputs := h.outputs
  weights_shape := h.weights_shape
  weights_size := (size_mutate_weights intensity l g).trans h.weights_size
  bias_shape := h.bias_shape
  bias_size := (size_mutate_bias intensity l g).trans h.bias_size
  limit := h.limit

theorem WellFormed.prune {l : Layer} (h : l.WellFormed) (threshold : Single) :
    (l.prune threshold).2.WellFormed where
  inputs := h.inputs
  outputs := h.outputs
  weights_shape := h.weights_shape
  weights_size := Array.size_map.trans h.weights_size
  bias_shape := h.bias_shape
  bias_size := h.bias_size
  limit := h.limit

def Fits (l : Layer) (s : Snapshot) : Prop :=
  s.weights.size = l.weights.data.size ∧ s.bias.size = l.bias.data.size

theorem fits_mutate (intensity : Single) (l : Layer) (g : Prng) :
    (l.mutate intensity g).1.Fits l.snapshot :=
  ⟨(size_mutate_weights intensity l g).symm, (size_mutate_bias intensity l g).symm⟩

theorem WellFormed.revert {l : Layer} {s : Snapshot} (h : l.WellFormed) (hs : l.Fits s) :
    (l.revert s).WellFormed where
  inputs := h.inputs
  outputs := h.outputs
  weights_shape := h.weights_shape
  weights_size := hs.1.trans h.weights_size
  bias_shape := h.bias_shape
  bias_size := hs.2.trans h.bias_size
  limit := h.limit

end Layer

end Apiary
