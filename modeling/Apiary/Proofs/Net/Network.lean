import Apiary.Net.Network
import Apiary.Proofs.Net.Layer
import Mathlib.Data.List.Chain
import Mathlib.Data.List.Forall2

/-!
Well-formed networks: a stack of well-formed layers that chain, memory keys that differ, and a generator off
zero. The calls a network takes are data: what a call answers and what it leaves behind. Every call keeps a
network well formed and the sizes at its two ends as they are. One that fails leaves the network as it was,
except that the chance of an automatic expansion is drawn before it can fail.
-/

namespace Apiary

inductive NetworkCall
  | forward (input : List Single)
  | expand (now : Nat)
  | autoExpand (now : Nat)
  | prune (threshold : Single)
  | mutate (rate : Single)
  | train (input target : List Single) (rate : Single)
  | remember (key : String) (value : Json)
  | forget

inductive NetworkReply
  | done
  | values (result : Except ShapeError (List Single))
  | grown (result : Except ShapeError Bool)
  | pruned (count : Nat)
  | trained (result : Except ShapeError TrainStep)

namespace Network

def orSame {α : Type} (n : Network) :
    Except ShapeError (α × Network) → Except ShapeError α × Network
  | .ok (a, m) => (.ok a, m)
  | .error e => (.error e, n)

def answer (n : Network) : NetworkCall → NetworkReply × Network
  | .forward input => (.values (n.forward input), n)
  | .expand now =>
    let (r, m) := n.orSame ((n.expand now).map fun m => (true, m))
    (.grown r, m)
  | .autoExpand now =>
    let (r, m) := n.autoExpand now
    (.grown r, m)
  | .prune threshold =>
    let (count, m) := n.prune threshold
    (.pruned count, m)
  | .mutate rate => (.done, n.mutate rate)
  | .train input target rate =>
    let (r, m) := n.orSame (n.train input target rate)
    (.trained r, m)
  | .remember key value => (.done, n.remember key value)
  | .forget => (.done, n.forget)

def serve : List NetworkCall → Network → List NetworkReply × Network
  | [], n => ([], n)
  | call :: rest, n =>
    let (reply, m) := n.answer call
    let (replies, m) := serve rest m
    (reply :: replies, m)

end Network

theorem nodup_keys_setField {α : Type} (key : String) (value : α) {fields : List (String × α)}
    (h : (fields.map Prod.fst).Nodup) : ((setField key value fields).map Prod.fst).Nodup := by
  rw [keys_setField]
  split
  · exact h
  · rename_i hkey
    refine List.nodup_append.mpr ⟨h, List.pairwise_singleton _ key, fun k hk k' hk' => ?_⟩
    rw [List.mem_singleton.mp hk']
    exact fun heq => hkey (heq ▸ hk)

theorem Prng.mapList_forall₂ {α β : Type} {f : α → Prng → β × Prng} {R : α → β → Prop}
    (hf : ∀ a g, R a (f a g).1) (xs : List α) (g : Prng) :
    List.Forall₂ R xs (Prng.mapList f xs g).1 := by
  induction xs generalizing g with
  | nil => exact .nil
  | cons a rest ih => exact .cons (hf a g) (ih _)

structure Layer.Becomes (l m : Layer) : Prop where
  inputs : m.inputs = l.inputs
  outputs : m.outputs = l.outputs
  wellFormed : l.WellFormed → m.WellFormed

namespace Network

structure WellFormed (n : Network) : Prop where
  nonempty : n.layers ≠ []
  layers : ∀ l ∈ n.layers, l.WellFormed
  chain : n.layers.IsChain fun l m => l.outputs = m.inputs
  keys : (n.memory.map Prod.fst).Nodup
  generator : n.generator.Nonzero

structure Continues (n m : Network) : Prop where
  wellFormed : m.WellFormed
  inputSize : m.inputSize = n.inputSize
  outputSize : m.outputSize = n.outputSize

theorem WellFormed.same {n : Network} (h : n.WellFormed) : n.Continues n := ⟨h, rfl, rfl⟩

theorem Continues.trans {n m o : Network} (hnm : n.Continues m) (hmo : m.Continues o) :
    n.Continues o :=
  ⟨hmo.wellFormed, hmo.inputSize.trans hnm.inputSize, hmo.outputSize.trans hnm.outputSize⟩

def sizes (layers : List Layer) : List (Nat × Nat) := layers.map fun l => (l.inputs, l.outputs)

theorem sizes_of_becomes {ls ms : List Layer} (h : List.Forall₂ Layer.Becomes ls ms) :
    sizes ms = sizes ls := by
  induction h with
  | nil => rfl
  | cons hlm _ ih =>
    simp only [sizes, List.map_cons] at ih ⊢
    rw [ih, hlm.inputs, hlm.outputs]

theorem wellFormed_of_becomes {ls ms : List Layer} (h : List.Forall₂ Layer.Becomes ls ms)
    (hl : ∀ l ∈ ls, l.WellFormed) : ∀ m ∈ ms, m.WellFormed := by
  induction h with
  | nil => exact hl
  | cons hlm _ ih =>
    intro m hm
    rcases List.mem_cons.mp hm with rfl | hm
    · exact hlm.wellFormed (hl _ List.mem_cons_self)
    · exact ih (fun l h => hl l (List.mem_cons_of_mem _ h)) m hm

theorem chain_iff_sizes {layers : List Layer} :
    (layers.IsChain fun l m => l.outputs = m.inputs) ↔
      (sizes layers).IsChain fun p q => p.2 = q.1 := by
  rw [sizes, List.isChain_map]

theorem inputSize_eq (n : Network) :
    n.inputSize = ((sizes n.layers).head?.map Prod.fst).getD 0 := by
  simp only [inputSize, sizes, List.head?_map, Option.map_map]
  rfl

theorem outputSize_eq (n : Network) :
    n.outputSize = ((sizes n.layers).getLast?.map Prod.snd).getD 0 := by
  simp only [outputSize, sizes, List.getLast?_map, Option.map_map]
  rfl

theorem WellFormed.of_becomes {n m : Network} (h : n.WellFormed)
    (hl : List.Forall₂ Layer.Becomes n.layers m.layers) (hk : m.memory = n.memory)
    (hg : m.generator.Nonzero) : n.Continues m := by
  have hs := sizes_of_becomes hl
  refine ⟨⟨?_, wellFormed_of_becomes hl h.layers, ?_, hk ▸ h.keys, hg⟩, ?_, ?_⟩
  · intro hnil
    rw [hnil] at hl
    cases hn : n.layers with
    | nil => exact h.nonempty hn
    | cons l rest =>
      rw [hn] at hl
      cases hl
  · rw [chain_iff_sizes, hs, ← chain_iff_sizes]
    exact h.chain
  · rw [inputSize_eq, inputSize_eq, hs]
  · rw [outputSize_eq, outputSize_eq, hs]

theorem forwardThrough_ok {front : List Layer} {last : Layer}
    (h : (front ++ [last]).IsChain fun l m => l.outputs = m.inputs) {x : List Single}
    (hx : x.length = (((front ++ [last]).head?).map Layer.inputs).getD 0) :
    ∃ y, forwardThrough (front ++ [last]) x = .ok y ∧ y.length = last.outputs := by
  induction front generalizing x with
  | nil =>
    obtain ⟨y, hy, hlen⟩ := Layer.forward_of_length hx
    refine ⟨y, ?_, hlen⟩
    rw [List.nil_append, forwardThrough, hy]
    rfl
  | cons l front ih =>
    obtain ⟨y, hy, hlen⟩ := Layer.forward_of_length (l := l) hx
    obtain ⟨hhead, htail⟩ := List.isChain_cons.mp h
    have hnext : y.length = ((front ++ [last]).head?.map Layer.inputs).getD 0 := by
      cases hf : (front ++ [last]).head? with
      | none => simp at hf
      | some m => exact hlen.trans (hhead m hf)
    obtain ⟨z, hz, hzlen⟩ := ih htail hnext
    refine ⟨z, ?_, hzlen⟩
    rw [List.cons_append, forwardThrough, hy]
    exact hz

theorem WellFormed.split {n : Network} (h : n.WellFormed) :
    ∃ front last, n.layers = front ++ [last] := by
  rcases List.eq_nil_or_concat n.layers with hnil | ⟨front, last, hlast⟩
  · exact absurd hnil h.nonempty
  · exact ⟨front, last, by rw [hlast, List.concat_eq_append]⟩

theorem WellFormed.forward_ok {n : Network} (h : n.WellFormed) {x : List Single}
    (hx : x.length = n.inputSize) : ∃ y, n.forward x = .ok y ∧ y.length = n.outputSize := by
  obtain ⟨front, last, hlayers⟩ := h.split
  have hchain := h.chain
  rw [hlayers] at hchain
  rw [inputSize, hlayers] at hx
  obtain ⟨y, hy, hlen⟩ := forwardThrough_ok hchain hx
  refine ⟨y, by rw [forward, hlayers, hy], ?_⟩
  rw [outputSize, hlayers, List.getLast?_concat]
  exact hlen

theorem WellFormed.forward_error {n : Network} (h : n.WellFormed) {x : List Single}
    (hx : x.length ≠ n.inputSize) : n.forward x = .error (.mismatch n.inputSize x.length) := by
  unfold forward inputSize at *
  cases hl : n.layers with
  | nil => exact absurd hl h.nonempty
  | cons l rest =>
    rw [hl] at hx
    rw [forwardThrough, Layer.forward_of_length_ne hx]
    rfl

theorem growthSizes?_eq {front : List Layer} {last : Layer}
    (h : (front ++ [last]).IsChain fun l m => l.outputs = m.inputs) :
    growthSizes? (front ++ [last]) = some (last.inputs, last.inputs) := by
  induction front with
  | nil => rfl
  | cons l front ih =>
    obtain ⟨hhead, htail⟩ := List.isChain_cons.mp h
    cases front with
    | nil =>
      rw [List.cons_append, List.nil_append, growthSizes?, hhead last rfl]
    | cons m front =>
      have hrest := ih htail
      cases hf : front ++ [last] with
      | nil => simp at hf
      | cons k rest =>
        simp only [List.cons_append, hf] at hrest ⊢
        exact hrest

theorem expand_ok {n grown : Network} (h : n.WellFormed) {now : Nat}
    (hx : n.expand now = .ok grown) : ∃ front last layer, n.layers = front ++ [last] ∧
      grown = { n with layers := front ++ [layer, last], lastExpansion := now } ∧
      layer.inputs = last.inputs ∧ layer.outputs = last.inputs ∧ layer.WellFormed := by
  obtain ⟨front, last, hlayers⟩ := h.split
  have hsizes := growthSizes?_eq (hlayers ▸ h.chain)
  unfold expand at hx
  rw [hlayers, hsizes] at hx
  simp only [if_true] at hx
  cases hnew : Layer.new last.inputs last.inputs .identity n.generator with
  | error e =>
    rw [hnew] at hx
    cases hx
  | ok r =>
    obtain ⟨layer, g⟩ := r
    obtain ⟨hi, ho, hwf, -⟩ := Layer.new_ok hnew
    have hg := Layer.new_identity hnew
    rw [hnew] at hx
    cases hx
    refine ⟨front, last, layer, hlayers, ?_, hi, ho, hwf⟩
    simp [hg]

theorem Continues.expand {n grown : Network} (h : n.WellFormed) {now : Nat}
    (hx : n.expand now = .ok grown) : n.Continues grown := by
  obtain ⟨front, last, layer, hlayers, rfl, hi, ho, hwf⟩ := expand_ok h hx
  have hchain := h.chain
  rw [hlayers, List.isChain_append] at hchain
  obtain ⟨hfront, -, hlink⟩ := hchain
  refine ⟨⟨by simp, ?_, ?_, h.keys, h.generator⟩, ?_, ?_⟩
  · intro l hl
    simp only [List.mem_append, List.mem_cons, List.not_mem_nil, or_false] at hl
    rcases hl with hl | rfl | rfl
    · exact h.layers l (hlayers ▸ List.mem_append_left _ hl)
    · exact hwf
    · exact h.layers _ (hlayers ▸ List.mem_append_right _ (List.mem_singleton_self _))
  · refine List.isChain_append.mpr ⟨hfront, by simpa using ho, fun l hl m hm => ?_⟩
    cases hm
    exact (hlink l hl last rfl).trans hi.symm
  · simp only [Network.inputSize, hlayers]
    cases front with
    | nil => exact hi
    | cons l front => rfl
  · simp only [Network.outputSize, hlayers]
    simp

theorem Continues.prune {n : Network} (h : n.WellFormed) (threshold : Single) :
    n.Continues (n.prune threshold).2 := by
  refine h.of_becomes ?_ rfl h.generator
  simp only [Network.prune, List.map_map]
  induction n.layers with
  | nil => exact .nil
  | cons l rest ih => exact .cons ⟨rfl, rfl, fun hl => hl.prune threshold⟩ ih

theorem becomes_mutate (rate : Single) (n : Network) :
    List.Forall₂ Layer.Becomes n.layers (n.mutate rate).layers :=
  Prng.mapList_forall₂ (fun _ g => ⟨rfl, rfl, fun hl => hl.mutate rate g⟩) n.layers n.generator

theorem fits_mutate (rate : Single) (n : Network) :
    List.Forall₂ Layer.Fits (n.mutate rate).layers (n.layers.map Layer.snapshot) := by
  rw [List.forall₂_map_right_iff]
  exact (Prng.mapList_forall₂ (Layer.fits_mutate rate) n.layers n.generator).flip

theorem Continues.mutate {n : Network} (h : n.WellFormed) (rate : Single) :
    n.Continues (n.mutate rate) :=
  h.of_becomes (becomes_mutate rate n) rfl
    (Prng.mapList_keeps (fun l _ hg => Layer.nonzero_mutate rate l hg) n.layers h.generator)

theorem becomes_revert {ls : List Layer} {ss : List Snapshot} (h : List.Forall₂ Layer.Fits ls ss) :
    List.Forall₂ Layer.Becomes ls (List.zipWith Layer.revert ls ss) := by
  induction h with
  | nil => exact .nil
  | cons hls _ ih => exact .cons ⟨rfl, rfl, fun hl => hl.revert hls⟩ ih

theorem train_of_forward_error {n : Network} {input : List Single} {e : ShapeError}
    (hy : n.forward input = .error e) (target : List Single) (rate : Single) :
    n.train input target rate = .error e := by
  simp only [train, hy, Bind.bind, Except.bind]

theorem train_of_forward {n : Network} {input y z : List Single} {rate : Single}
    (hy : n.forward input = .ok y) (hz : (n.mutate rate).forward input = .ok z)
    (target : List Single) : ∃ step layers satisfaction,
      n.train input target rate =
        .ok (step, { n.mutate rate with layers := layers, satisfaction := satisfaction }) ∧
      (layers = (n.mutate rate).layers ∨
        layers =
          List.zipWith Layer.revert (n.mutate rate).layers (n.layers.map Layer.snapshot)) := by
  refine ⟨_, _, _, by simp only [train, hy, hz, Bind.bind, Except.bind]; rfl, ?_⟩
  split
  · exact .inl rfl
  · exact .inr rfl

theorem WellFormed.forward_cases {n : Network} (h : n.WellFormed) (input : List Single)
    (rate : Single) : (∃ e, n.forward input = .error e) ∨
      ∃ y z, n.forward input = .ok y ∧ (n.mutate rate).forward input = .ok z := by
  have hmutated := Continues.mutate h rate
  by_cases hlen : input.length = n.inputSize
  · obtain ⟨y, hy, -⟩ := h.forward_ok hlen
    obtain ⟨z, hz, -⟩ := hmutated.wellFormed.forward_ok (hlen.trans hmutated.inputSize.symm)
    exact .inr ⟨y, z, hy, hz⟩
  · exact .inl ⟨_, h.forward_error hlen⟩

theorem train_error {n : Network} (h : n.WellFormed) {input target : List Single} {rate : Single}
    {e : ShapeError} (hx : n.train input target rate = .error e) : n.forward input = .error e := by
  rcases h.forward_cases input rate with ⟨e', he⟩ | ⟨y, z, hy, hz⟩
  · rw [train_of_forward_error he] at hx
    rw [he, Except.error.inj hx]
  · obtain ⟨step, layers, satisfaction, heq, -⟩ := train_of_forward hy hz target
    rw [heq] at hx
    cases hx

theorem Continues.train {n m : Network} (h : n.WellFormed) {input target : List Single}
    {rate : Single} {step : TrainStep} (hx : n.train input target rate = .ok (step, m)) :
    n.Continues m := by
  have hmutated := Continues.mutate h rate
  rcases h.forward_cases input rate with ⟨e, he⟩ | ⟨y, z, hy, hz⟩
  · rw [train_of_forward_error he] at hx
    cases hx
  · obtain ⟨step', layers, satisfaction, heq, hlayers⟩ := train_of_forward hy hz target
    rw [heq] at hx
    cases hx
    refine hmutated.trans (hmutated.wellFormed.of_becomes ?_ rfl hmutated.wellFormed.generator)
    rcases hlayers with rfl | rfl
    · exact List.forall₂_same.mpr fun l _ => ⟨rfl, rfl, id⟩
    · exact becomes_revert (fits_mutate rate n)

theorem Continues.remember {n : Network} (h : n.WellFormed) (key : String) (value : Json) :
    n.Continues (n.remember key value) :=
  ⟨⟨h.nonempty, h.layers, h.chain, nodup_keys_setField key value h.keys, h.generator⟩, rfl, rfl⟩

theorem Continues.forget {n : Network} (h : n.WellFormed) : n.Continues n.forget :=
  ⟨⟨h.nonempty, h.layers, h.chain, List.nodup_nil, h.generator⟩, rfl, rfl⟩

def drawn (n : Network) : Network := { n with generator := n.generator.unit32.2 }

def isEager (n : Network) : Bool :=
  n.satisfaction < 0.6 && (0.8 : Single) < n.plasticity || (0.99 : Single) < n.generator.unit32.1

theorem autoExpand_eq (now : Nat) (n : Network) : n.autoExpand now =
    if now - n.lastExpansion ≤ expansionCooldown then (.ok false, n)
    else if n.isEager then
      match n.drawn.expand now with
      | .ok grown => (.ok true, grown)
      | .error e => (.error e, n.drawn)
    else (.ok false, n.drawn) := rfl

theorem Continues.autoExpand {n : Network} (h : n.WellFormed) (now : Nat) :
    n.Continues (n.autoExpand now).2 := by
  have hdrawn : n.Continues n.drawn :=
    ⟨⟨h.nonempty, h.layers, h.chain, h.keys, h.generator.step⟩, rfl, rfl⟩
  rw [autoExpand_eq]
  split
  · exact h.same
  · split
    · split
      · rename_i grown hx
        exact hdrawn.trans (.expand hdrawn.wellFormed hx)
      · exact hdrawn
    · exact hdrawn

theorem new_ok {name : String} {c : NetworkConfig} {g : Prng} {n : Network} (hg : g.Nonzero)
    (h : new name c g = .ok n) : n.WellFormed := by
  unfold new at h
  cases hf : Layer.new c.inputs c.hidden .random g with
  | error e =>
    rw [hf] at h
    cases h
  | ok r =>
    obtain ⟨first, g₁⟩ := r
    obtain ⟨-, hmiddle, hfirst, hg₁⟩ := Layer.new_ok hf
    cases hs : Layer.new c.hidden c.outputs .random g₁ with
    | error e =>
      simp only [hf, hs, Bind.bind, Except.bind] at h
      cases h
    | ok r =>
      obtain ⟨second, g₂⟩ := r
      obtain ⟨hmiddle', -, hsecond, hg₂⟩ := Layer.new_ok hs
      simp only [hf, hs, Bind.bind, Except.bind] at h
      cases h
      refine ⟨by simp, ?_, ?_, List.nodup_nil, hg₂ (hg₁ hg)⟩
      · intro l hl
        simp only [List.mem_cons, List.not_mem_nil, or_false] at hl
        rcases hl with rfl | rfl
        · exact hfirst
        · exact hsecond
      · simpa using hmiddle.trans hmiddle'.symm

theorem Continues.answer {n : Network} (h : n.WellFormed) (call : NetworkCall) :
    n.Continues (n.answer call).2 := by
  cases call with
  | forward input => exact h.same
  | expand now =>
    cases hx : n.expand now with
    | error e =>
      simp only [Network.answer, hx]
      exact h.same
    | ok grown =>
      simp only [Network.answer, hx]
      exact .expand h hx
  | autoExpand now => exact .autoExpand h now
  | prune threshold => exact .prune h threshold
  | mutate rate => exact .mutate h rate
  | train input target rate =>
    cases hx : n.train input target rate with
    | error e =>
      simp only [Network.answer, hx]
      exact h.same
    | ok r =>
      obtain ⟨step, m⟩ := r
      simp only [Network.answer, hx]
      exact .train h hx
  | remember key value => exact .remember h key value
  | forget => exact .forget h

theorem Continues.serve {n : Network} (h : n.WellFormed) (calls : List NetworkCall) :
    n.Continues (serve calls n).2 := by
  induction calls generalizing n with
  | nil => exact h.same
  | cons call rest ih =>
    have hfirst := Continues.answer h call
    exact hfirst.trans (ih hfirst.wellFormed)

end Network

end Apiary
