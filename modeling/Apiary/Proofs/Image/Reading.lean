import Apiary.Image.NetworkImage
import Apiary.Proofs.Net.Network

/-!
Whatever network can be read from an image is well formed.
-/

namespace Apiary

namespace ByteReader

variable {α β : Type}

structure Gives (r : ByteReader α) (P : α → Prop) : Prop where
  of_ok {b rest : Bytes} {a : α} : r b = (.ok a, rest) → P a

theorem gives_any (r : ByteReader α) : r.Gives fun _ => True := ⟨fun _ => trivial⟩

theorem gives_ret {P : α → Prop} {a : α} (h : P a) : (pure a : ByteReader α).Gives P where
  of_ok hx := by
    cases hx
    exact h

theorem gives_fail {P : α → Prop} (e : ImageError) : (fail e : ByteReader α).Gives P where
  of_ok hx := by cases hx

theorem Gives.bind {r : ByteReader α} {f : α → ByteReader β} {P : α → Prop} {Q : β → Prop}
    (hr : r.Gives P) (hf : ∀ a, P a → (f a).Gives Q) : (r >>= f).Gives Q where
  of_ok {b rest x} hx := by
    simp only [Bind.bind] at hx
    cases h : r b with
    | mk result mid =>
      rw [h] at hx
      cases result with
      | error e => cases hx
      | ok a => exact (hf a (hr.of_ok h)).of_ok hx

theorem Gives.repeated {r : ByteReader α} {P : α → Prop} (hr : r.Gives P) (n : Nat)
    {done : Array α} (hd : ∀ a ∈ done, P a) :
    (repeated r n done).Gives fun all => all.size = done.size + n ∧ ∀ a ∈ all, P a := by
  induction n generalizing done with
  | zero => exact gives_ret ⟨rfl, hd⟩
  | succ n ih =>
    refine hr.bind fun a ha => ?_
    have hpush : ∀ x ∈ done.push a, P x := by
      intro x hx
      rcases Array.mem_push.mp hx with hx | rfl
      · exact hd x hx
      · exact ha
    have hrest := ih hpush
    rw [Array.size_push, Nat.add_right_comm, Nat.add_assoc] at hrest
    exact hrest

end ByteReader

namespace NetworkImage

open ByteReader

theorem gives_readLayer : readLayer.Gives Layer.WellFormed := by
  refine (gives_any _).bind fun inputs _ => (gives_any _).bind fun outputs _ => ?_
  refine (gives_any _).bind fun data _ => ?_
  split
  · exact gives_fail _
  · rename_i weights hweights
    obtain ⟨hweights, hfilled⟩ := Tensor.ofEntries_ok.mp hweights
    refine (gives_any _).bind fun data _ => ?_
    split
    · exact gives_fail _
    · rename_i bias hbias
      obtain ⟨hbias, hbiasFilled⟩ := Tensor.ofEntries_ok.mp hbias
      split
      · exact gives_fail _
      · rename_i layer hlayer
        have hshape : weights.shape = [inputs, outputs] := by rw [hweights]
        obtain ⟨rfl, -⟩ := (Layer.ofParts_ok hshape).mp hlayer
        exact gives_ret (Layer.wellFormed_of_filled hfilled hbiasFilled hshape (by rw [hbias]))

theorem chains_iff {layers : List Layer} :
    chains layers = true ↔ layers.IsChain fun l m => l.outputs = m.inputs := by
  induction layers with
  | nil => simp [chains]
  | cons l rest ih =>
    cases rest with
    | nil => simp [chains]
    | cons m rest =>
      rw [chains, List.isChain_cons_cons, Bool.and_eq_true, decide_eq_true_iff, ih]

theorem gives_readNetwork : readNetwork.Gives Network.WellFormed := by
  refine (gives_any _).bind fun name _ => (gives_any _).bind fun plasticity _ => ?_
  refine (gives_any _).bind fun satisfaction _ => (gives_any _).bind fun capacity _ => ?_
  refine (gives_any _).bind fun lastExpansion _ => (gives_any _).bind fun state _ => ?_
  refine (gives_any _).bind fun count _ => ?_
  split
  · exact gives_fail _
  · rename_i hcount
    refine (gives_readLayer.repeated count (by simp)).bind fun layers hlayers => ?_
    split
    · rename_i hchains
      obtain ⟨hsize, hwf⟩ := hlayers
      refine gives_ret ⟨?_, fun l hl => hwf l (Array.mem_toList_iff.mp hl), chains_iff.mp hchains,
        List.nodup_nil, Prng.nonzero_ofSeed _⟩
      intro hnil
      have hempty : layers.toList.length = 0 := congrArg List.length hnil
      rw [Array.length_toList, hsize, List.size_toArray, List.length_nil] at hempty
      omega
    · exact gives_fail _

theorem wellFormed_withMemory {n : Network} (h : n.WellFormed) (memory : List (String × Json))
    (goal : Option Json) : (withMemory n memory goal).WellFormed := by
  have hfold : (memory.foldl (fun n entry => n.remember entry.1 entry.2) n).WellFormed := by
    induction memory generalizing n with
    | nil => exact h
    | cons entry rest ih => exact ih (Network.Continues.remember h entry.1 entry.2).wellFormed
  exact ⟨hfold.nonempty, hfold.layers, hfold.chain, hfold.keys, hfold.generator⟩

def Contents.Sound (c : Contents) : Prop := ∀ n, c.network = some n → n.WellFormed

theorem Contents.Sound.add {c d : Contents} {chunk : Chunk} (hc : c.Sound)
    (h : c.add chunk = .ok d) : d.Sound := by
  unfold Contents.add at h
  split at h
  · cases hr : readNetwork chunk.payload with
    | mk result rest =>
      rw [hr] at h
      cases result with
      | error e => cases h
      | ok n =>
        cases h
        intro m hm
        cases hm
        exact gives_readNetwork.of_ok hr
  · split at h
    · cases h
      exact hc
    · cases h
      exact hc

theorem sound_readContents {z : Codec} {count : Nat} {c d : Contents} {b : Bytes} (hc : c.Sound)
    (h : readContents z count c b = .ok d) : d.Sound := by
  induction count generalizing c b with
  | zero =>
    cases h
    exact hc
  | succ count ih =>
    unfold readContents at h
    cases hchunk : Chunk.read z b with
    | error e =>
      rw [hchunk] at h
      cases h
    | ok r =>
      cases r with
      | none =>
        rw [hchunk] at h
        cases h
        exact hc
      | some r =>
        obtain ⟨chunk, rest⟩ := r
        cases hadd : c.add chunk with
        | error e =>
          simp only [hchunk, hadd, Bind.bind, Except.bind] at h
          cases h
        | ok c' =>
          simp only [hchunk, hadd, Bind.bind, Except.bind] at h
          exact ih (hc.add hadd) h

theorem Contents.Sound.finish {z : Codec} {c : Contents} {n : Network} (hc : c.Sound) (h : c.finish z = .ok n) :
    n.WellFormed := by
  unfold Contents.finish at h
  split at h
  · cases h
  · rename_i m hm
    split at h
    · cases h
      exact hc n hm
    · rename_i b _
      cases hr : readMemory z b with
      | mk result rest =>
        rw [hr] at h
        cases result with
        | error e => cases h
        | ok r =>
          cases h
          exact wellFormed_withMemory (hc m hm) r.1 r.2

theorem read_ok {z : Codec} {b : Bytes} {n : Network} (h : read z b = .ok n) : n.WellFormed := by
  unfold read at h
  cases hb : (body b).1 with
  | error e =>
    rw [hb] at h
    cases h
  | ok chunks =>
    cases hc : readContents z (chunks.length + 1) ⟨none, none⟩ chunks with
    | error e =>
      simp only [hb, hc, Bind.bind, Except.bind] at h
      cases h
    | ok c =>
      simp only [hb, hc, Bind.bind, Except.bind] at h
      exact (sound_readContents (fun _ hn => by cases hn) hc).finish h

end NetworkImage

namespace Network

inductive Origin : Network → Prop
  | new {name : String} {c : NetworkConfig} {g : Prng} {n : Network} : g.Nonzero →
    Network.new name c g = .ok n → Origin n
  | image {z : Codec} {b : Bytes} {n : Network} : NetworkImage.read z b = .ok n → Origin n

theorem Origin.wellFormed {n : Network} (h : n.Origin) : n.WellFormed := by
  cases h with
  | new hg hn => exact new_ok hg hn
  | image hb => exact NetworkImage.read_ok hb

theorem WellFormed.answer_expand {n : Network} (h : n.WellFormed) (now : Nat) :
    (∃ front last layer, n.layers = front ++ [last] ∧ n.answer (.expand now) =
      (.grown (.ok true), { n with layers := front ++ [layer, last], lastExpansion := now })) ∨
    ∃ e, n.answer (.expand now) = (.grown (.error e), n) := by
  cases hx : n.expand now with
  | error e =>
    refine .inr ⟨e, ?_⟩
    simp only [answer, hx]
    rfl
  | ok grown =>
    obtain ⟨front, last, layer, hlayers, rfl, -⟩ := expand_ok h hx
    refine .inl ⟨front, last, layer, hlayers, ?_⟩
    simp only [answer, hx]
    rfl

theorem served_wellFormed {start n : Network} {calls : List NetworkCall} (h : start.Origin)
    (hn : (serve calls start).2 = n) :
    n.WellFormed ∧ n.inputSize = start.inputSize ∧ n.outputSize = start.outputSize ∧
    (∀ x, x.length = n.inputSize → ∃ y, n.forward x = .ok y ∧ y.length = n.outputSize) ∧
    (∀ x, x.length ≠ n.inputSize → n.forward x = .error (.mismatch n.inputSize x.length)) ∧
    (∀ rate, List.Forall₂ Layer.Fits (n.mutate rate).layers (n.layers.map Layer.snapshot)) ∧
    (∀ now, (∃ front last layer, n.layers = front ++ [last] ∧ n.answer (.expand now) =
        (.grown (.ok true), { n with layers := front ++ [layer, last], lastExpansion := now })) ∨
      ∃ e, n.answer (.expand now) = (.grown (.error e), n)) ∧
    ∀ input target rate e, n.train input target rate = .error e → n.forward input = .error e := by
  obtain ⟨hwf, hin, hout⟩ := hn ▸ Continues.serve h.wellFormed calls
  exact ⟨hwf, hin, hout, fun _ => hwf.forward_ok, fun _ => hwf.forward_error,
    fun rate => fits_mutate rate n, hwf.answer_expand, fun _ _ _ _ => train_error hwf⟩

theorem served_wellFormed_smallest :
    ∃ n, Network.new "smallest" ⟨1, 1, 1, 1, 0⟩ (.ofSeed 1) = .ok n ∧
      (serve [.expand 6000, .train [] [] 1, .remember "a" .null] n).2.WellFormed := by
  obtain ⟨n, hn⟩ : ∃ n, Network.new "smallest" ⟨1, 1, 1, 1, 0⟩ (.ofSeed 1) = .ok n := ⟨_, rfl⟩
  exact ⟨n, hn, (served_wellFormed (.new (Prng.nonzero_ofSeed 1) hn) rfl).1⟩

end Network

end Apiary
