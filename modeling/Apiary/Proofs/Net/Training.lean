import Apiary.Proofs.Net.Network

/-!
One step of training is kept or taken back as a whole. A step that fails does so before anything is mutated; a step
that is taken back leaves every entry of every layer as it was, and the generator where a kept step leaves it.
-/

namespace Apiary

/-- A layer of the same form, with as many entries, which may be others. -/
structure Layer.Retuned (l m : Layer) : Prop where
  form : m = { l with
    weights := { l.weights with data := m.weights.data }
    bias := { l.bias with data := m.bias.data } }
  weights : m.weights.data.size = l.weights.data.size
  bias : m.bias.data.size = l.bias.data.size

theorem Layer.revert_mutate (rate : Single) (l : Layer) (g : Prng) :
    (l.mutate rate g).1.revert l.snapshot = l := rfl

theorem Layer.retuned_mutate (rate : Single) (l : Layer) (g : Prng) : l.Retuned (l.mutate rate g).1 :=
  ⟨rfl, size_mutate_weights rate l g, size_mutate_bias rate l g⟩

namespace Network

def accuracyAt (n : Network) (loss : Single) : Single :=
  Single.atLeast 0 (1 - loss / Single.ofNat (max n.outputSize 1))

def satisfactionAfter (n : Network) (accuracy : Single) : Single := n.satisfaction * 0.9 + accuracy * 0.1

/-- A step made on the network itself, where an error leaves what was done until then. -/
def trainInPlace (input target : List Single) (rate : Single) (n : Network) :
    Except ShapeError TrainStep × Network :=
  match n.forward input with
  | .error e => (.error e, n)
  | .ok _ =>
    match (n.mutate rate).forward input with
    | .error e => (.error e, n.mutate rate)
    | .ok _ => n.orSame (n.train input target rate)

/-- Every snapshot goes back to the layer that it was taken of. -/
theorem revert_layers (rate : Single) (n : Network) :
    List.zipWith Layer.revert (n.mutate rate).layers (n.layers.map Layer.snapshot) = n.layers := by
  have key (layers : List Layer) (g : Prng) :
      List.zipWith Layer.revert (Prng.mapList (Layer.mutate rate) layers g).1 (layers.map Layer.snapshot) =
        layers := by
    induction layers generalizing g with
    | nil => rfl
    | cons l rest ih =>
      simp only [Prng.mapList, List.map_cons, List.zipWith_cons_cons, Layer.revert_mutate, ih]
  exact key n.layers n.generator

theorem retuned_mutate (rate : Single) (n : Network) :
    List.Forall₂ Layer.Retuned n.layers (n.mutate rate).layers :=
  Prng.mapList_forall₂ (Layer.retuned_mutate rate) n.layers n.generator

section Step

variable {n : Network} {input target y z : List Single} {rate : Single}

theorem train_kept (hy : n.forward input = .ok y) (hz : (n.mutate rate).forward input = .ok z)
    (hle : ¬ squaredError y target < squaredError z target) : n.train input target rate =
      .ok (⟨squaredError z target, n.accuracyAt (squaredError z target), true⟩,
        { n with
          layers := (n.mutate rate).layers
          satisfaction := n.satisfactionAfter (n.accuracyAt (squaredError z target))
          generator := (n.mutate rate).generator }) := by
  simp only [train, hy, hz, Bind.bind, Except.bind, hle, decide_false, Bool.not_false, if_true]
  rfl

theorem train_reverted (hy : n.forward input = .ok y) (hz : (n.mutate rate).forward input = .ok z)
    (hlt : squaredError y target < squaredError z target) : n.train input target rate =
      .ok (⟨squaredError y target, n.accuracyAt (squaredError y target), false⟩,
        { n with
          satisfaction := n.satisfactionAfter (n.accuracyAt (squaredError y target))
          generator := (n.mutate rate).generator }) := by
  simp only [train, hy, hz, Bind.bind, Except.bind, hlt, decide_true, Bool.not_true, Bool.false_eq_true, if_false,
    revert_layers]
  rfl

theorem trainInPlace_of_forward (hy : n.forward input = .ok y) (hz : (n.mutate rate).forward input = .ok z) :
    n.trainInPlace input target rate = n.orSame (n.train input target rate) := by
  simp only [trainInPlace, hy, hz]

theorem WellFormed.trainInPlace_error (h : n.WellFormed) (hlen : input.length ≠ n.inputSize) :
    n.trainInPlace input target rate = (.error (.mismatch n.inputSize input.length), n) := by
  simp only [trainInPlace, h.forward_error hlen]

theorem WellFormed.trainInPlace_eq (h : n.WellFormed) :
    n.trainInPlace input target rate = n.orSame (n.train input target rate) := by
  rcases h.forward_cases input rate with ⟨e, he⟩ | ⟨y, z, hy, hz⟩
  · rw [train_of_forward_error he]
    simp only [trainInPlace, he, orSame]
  · exact trainInPlace_of_forward hy hz

end Step

/-- What a step leaves: the network itself when the input does not fit; else the mutated network, or, when the error
has risen, the network with its layers as they were. -/
theorem train_all_or_nothing {n : Network} (h : n.WellFormed) (input target : List Single) (rate : Single) :
    n.answer (.train input target rate) =
      (.trained (n.trainInPlace input target rate).1, (n.trainInPlace input target rate).2) ∧
    (input.length ≠ n.inputSize →
      n.trainInPlace input target rate = (.error (.mismatch n.inputSize input.length), n)) ∧
    (input.length = n.inputSize → ∃ y z before after, n.forward input = .ok y ∧
      (n.mutate rate).forward input = .ok z ∧ before = squaredError y target ∧ after = squaredError z target ∧
      (before < after → n.trainInPlace input target rate =
        (.ok ⟨before, n.accuracyAt before, false⟩,
          { n with
            satisfaction := n.satisfactionAfter (n.accuracyAt before)
            generator := (n.mutate rate).generator })) ∧
      (¬ before < after → n.trainInPlace input target rate =
        (.ok ⟨after, n.accuracyAt after, true⟩,
          { n with
            layers := (n.mutate rate).layers
            satisfaction := n.satisfactionAfter (n.accuracyAt after)
            generator := (n.mutate rate).generator }))) ∧
    List.Forall₂ Layer.Retuned n.layers (n.mutate rate).layers := by
  refine ⟨by rw [h.trainInPlace_eq]; rfl, h.trainInPlace_error, fun hlen => ?_, retuned_mutate rate n⟩
  obtain ⟨y, hy, -⟩ := h.forward_ok hlen
  have hmutated := Continues.mutate h rate
  obtain ⟨z, hz, -⟩ := hmutated.wellFormed.forward_ok (hlen.trans hmutated.inputSize.symm)
  refine ⟨y, z, _, _, hy, hz, rfl, rfl, fun hlt => ?_, fun hle => ?_⟩
  · rw [trainInPlace_of_forward hy hz, train_reverted hy hz hlt]
    rfl
  · rw [trainInPlace_of_forward hy hz, train_kept hy hz hle]
    rfl

-- Whether the second step is taken back depends on the arithmetic of singles, which nothing here looks into.
theorem smallest_trained : ∃ n, Network.new "smallest" ⟨1, 1, 1, 1, 0⟩ (.ofSeed 1) = .ok n ∧ n.WellFormed ∧
    n.answer (.train [] [0] 1) = (.trained (.error (.mismatch 1 0)), n) ∧
    ∃ before after, before < after ∧ n.answer (.train [1] [0] 1) =
        (.trained (.ok ⟨before, n.accuracyAt before, false⟩),
          { n with
            satisfaction := n.satisfactionAfter (n.accuracyAt before)
            generator := (n.mutate 1).generator }) ∨
      ¬ before < after ∧ n.answer (.train [1] [0] 1) =
        (.trained (.ok ⟨after, n.accuracyAt after, true⟩),
          { n with
            layers := (n.mutate 1).layers
            satisfaction := n.satisfactionAfter (n.accuracyAt after)
            generator := (n.mutate 1).generator }) := by
  obtain ⟨n, hn⟩ : ∃ n, Network.new "smallest" ⟨1, 1, 1, 1, 0⟩ (.ofSeed 1) = .ok n := ⟨_, rfl⟩
  have hwf : n.WellFormed := new_ok (Prng.nonzero_ofSeed 1) hn
  have hsize : n.inputSize = 1 := by
    cases hn
    rfl
  obtain ⟨hanswer, hfails, -⟩ := train_all_or_nothing hwf [] [0] 1
  obtain ⟨hfitting, -, hfits, -⟩ := train_all_or_nothing hwf [1] [0] 1
  obtain ⟨y, z, before, after, -, -, -, -, hreverted, hkept⟩ := hfits hsize.symm
  refine ⟨n, hn, hwf, ?_, before, after, ?_⟩
  · rw [hanswer, hfails (by simp [hsize]), hsize]
    rfl
  · by_cases hlt : before < after
    · refine .inl ⟨hlt, ?_⟩
      rw [hfitting, hreverted hlt]
    · refine .inr ⟨hlt, ?_⟩
      rw [hfitting, hkept hlt]

end Network

end Apiary
