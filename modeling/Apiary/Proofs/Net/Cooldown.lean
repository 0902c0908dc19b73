import Apiary.Proofs.Net.Network

/-!
Automatic growth over time. A network is asked to grow at any times, in any order; between two requests anything may
happen to it except that it grows. Growth waits for the cooldown after the growth before it, whatever the clock does.
-/

namespace Apiary

/-- A request to grow: its time and what it is answered. -/
abbrev Attempt := Nat × Except ShapeError Bool

def Attempt.growth? : Attempt → Option Nat
  | (now, .ok true) => some now
  | _ => none

def growthTimes (attempts : List Attempt) : List Nat := attempts.filterMap Attempt.growth?

theorem growthTimes_grown (now : Nat) (rest : List Attempt) :
    growthTimes ((now, .ok true) :: rest) = now :: growthTimes rest := rfl

theorem growthTimes_declined {r : Except ShapeError Bool} (h : r ≠ .ok true) (now : Nat) (rest : List Attempt) :
    growthTimes ((now, r) :: rest) = growthTimes rest := by
  refine List.filterMap_cons_none ?_
  unfold Attempt.growth?
  split
  · next heq => exact absurd (Prod.mk.inj heq).2 h
  · rfl

namespace Network

/-- What may happen to a network while it does not grow. -/
structure Retains (n m : Network) : Prop where
  wellFormed : m.WellFormed
  depth : m.depth = n.depth
  lastExpansion : m.lastExpansion = n.lastExpansion

inductive Asked : Network → List Attempt → Network → Prop
  | done (n : Network) : Asked n [] n
  | request {n o : Network} {rest : List Attempt} (now : Nat) :
    Asked (n.autoExpand now).2 rest o → Asked n ((now, (n.autoExpand now).1) :: rest) o
  | meanwhile {n m o : Network} {attempts : List Attempt} :
    n.Retains m → Asked m attempts o → Asked n attempts o

section Request

variable {now : Nat} {n : Network}

theorem autoExpand_early (h : now ≤ n.lastExpansion + expansionCooldown) :
    n.autoExpand now = (.ok false, n) := by
  rw [autoExpand_eq, if_pos (Nat.sub_le_iff_le_add'.mpr h)]

/-- A request makes the network grow, after the cooldown, or changes its generator at most. -/
theorem autoExpand_cases (now : Nat) (n : Network) :
    (∃ grown, n.autoExpand now = (.ok true, grown) ∧ n.lastExpansion + expansionCooldown < now ∧
      n.drawn.expand now = .ok grown) ∨
    (n.autoExpand now).1 ≠ .ok true ∧ ∃ g, (n.autoExpand now).2 = { n with generator := g } := by
  rw [autoExpand_eq]
  split
  · exact .inr ⟨nofun, n.generator, rfl⟩
  · next hcool =>
    have hlate : n.lastExpansion + expansionCooldown < now :=
      Nat.not_le.mp fun h => hcool (Nat.sub_le_iff_le_add'.mpr h)
    split
    · cases hx : n.drawn.expand now with
      | ok grown => exact .inl ⟨grown, rfl, hlate, rfl⟩
      | error e => exact .inr ⟨nofun, _, rfl⟩
    · exact .inr ⟨nofun, _, rfl⟩

theorem autoExpand_declined (h : (n.autoExpand now).1 ≠ .ok true) :
    (n.autoExpand now).2.layers = n.layers ∧ (n.autoExpand now).2.lastExpansion = n.lastExpansion := by
  rcases autoExpand_cases now n with ⟨grown, hgrown, -⟩ | ⟨-, g, hg⟩
  · rw [hgrown] at h
    exact absurd rfl h
  · rw [hg]
    exact ⟨rfl, rfl⟩

theorem autoExpand_grown (hn : n.WellFormed) (h : (n.autoExpand now).1 = .ok true) :
    n.lastExpansion + expansionCooldown < now ∧ (n.autoExpand now).2.lastExpansion = now ∧
      (n.autoExpand now).2.depth = n.depth + 1 := by
  rcases autoExpand_cases now n with ⟨grown, hgrown, hlate, hx⟩ | ⟨hdeclined, -⟩
  · have hdrawn : n.drawn.WellFormed := ⟨hn.nonempty, hn.layers, hn.chain, hn.keys, hn.generator.step⟩
    obtain ⟨front, last, layer, hlayers, rfl, -⟩ := expand_ok hdrawn hx
    have hdepth : n.depth = front.length + 1 := by
      rw [depth, show n.layers = front ++ [last] from hlayers, List.length_append, List.length_singleton]
    rw [hgrown]
    refine ⟨hlate, rfl, ?_⟩
    rw [hdepth, depth, List.length_append, List.length_cons, List.length_singleton]
  · exact absurd h hdeclined

end Request

section Calls

theorem length_mutate (rate : Single) (n : Network) : (n.mutate rate).layers.length = n.layers.length :=
  (becomes_mutate rate n).length_eq.symm

theorem train_retains {n m : Network} {input target : List Single} {rate : Single} {step : TrainStep}
    (hx : n.train input target rate = .ok (step, m)) :
    m.layers.length = n.layers.length ∧ m.lastExpansion = n.lastExpansion := by
  cases hy : n.forward input with
  | error e => cases (train_of_forward_error hy target rate).symm.trans hx
  | ok y =>
    cases hz : (n.mutate rate).forward input with
    | error e =>
      simp only [train, hy, hz, Bind.bind, Except.bind] at hx
      cases hx
    | ok z =>
      obtain ⟨step', layers, satisfaction, heq, hlayers⟩ := train_of_forward hy hz target
      cases heq.symm.trans hx
      refine ⟨?_, rfl⟩
      rcases hlayers with rfl | rfl
      · exact length_mutate rate n
      · exact (becomes_revert (fits_mutate rate n)).length_eq.symm.trans (length_mutate rate n)

theorem Retains.answer {n : Network} (h : n.WellFormed) {call : NetworkCall}
    (hexpand : ∀ now, call ≠ .expand now) (hauto : ∀ now, call ≠ .autoExpand now) :
    n.Retains (n.answer call).2 := by
  have hwellFormed := (Continues.answer h call).wellFormed
  cases call with
  | expand now => exact absurd rfl (hexpand now)
  | autoExpand now => exact absurd rfl (hauto now)
  | forward | remember | forget => exact ⟨hwellFormed, rfl, rfl⟩
  | prune threshold =>
    exact ⟨hwellFormed, (List.length_map _).trans (List.length_map _), rfl⟩
  | mutate rate => exact ⟨hwellFormed, length_mutate rate n, rfl⟩
  | train input target rate =>
    cases hx : n.train input target rate with
    | error e =>
      simp only [Network.answer, hx]
      exact ⟨h, rfl, rfl⟩
    | ok r =>
      simp only [Network.answer, hx] at hwellFormed ⊢
      obtain ⟨hlength, hlast⟩ := train_retains hx
      exact ⟨hwellFormed, hlength, hlast⟩

/-- The requests to grow among the calls that a network takes. -/
def attemptsOf : List NetworkCall → Network → List Attempt
  | [], _ => []
  | .autoExpand now :: rest, n => (now, (n.autoExpand now).1) :: attemptsOf rest (n.autoExpand now).2
  | call :: rest, n => attemptsOf rest (n.answer call).2

theorem Asked.serve {n : Network} (h : n.WellFormed) {calls : List NetworkCall}
    (hcalls : ∀ now, .expand now ∉ calls) : n.Asked (attemptsOf calls n) (serve calls n).2 := by
  induction calls generalizing n with
  | nil => exact .done n
  | cons call rest ih =>
    have hrest := ih (Continues.answer h call).wellFormed fun now hmem => hcalls now (List.mem_cons_of_mem _ hmem)
    cases call with
    | autoExpand now => exact .request now hrest
    | expand now => exact absurd List.mem_cons_self (hcalls now)
    | forward | prune | mutate | train | remember | forget =>
      exact .meanwhile (.answer h (fun _ => NetworkCall.noConfusion) fun _ => NetworkCall.noConfusion) hrest

end Calls

variable {n o : Network} {attempts : List Attempt}

/-- Growth happens at times that are the cooldown apart, the first of them after the cooldown that runs at the start,
and each adds one layer. -/
theorem Asked.cooled (h : n.WellFormed) (ha : n.Asked attempts o) :
    (growthTimes attempts).Pairwise (fun s t => s + expansionCooldown < t) ∧
    (∀ t ∈ growthTimes attempts, n.lastExpansion + expansionCooldown < t) ∧
    o.depth = n.depth + (growthTimes attempts).length := by
  induction ha with
  | done n => exact ⟨.nil, nofun, rfl⟩
  | @request n o rest now _ ih =>
    obtain ⟨hapart, hstart, hdepth⟩ := ih (Continues.autoExpand h now).wellFormed
    by_cases hgrown : (n.autoExpand now).1 = .ok true
    · obtain ⟨hlate, hlast, hdeeper⟩ := autoExpand_grown h hgrown
      rw [hlast] at hstart
      rw [hgrown, growthTimes_grown]
      refine ⟨.cons hstart hapart, fun t ht => ?_, ?_⟩
      · rcases List.mem_cons.mp ht with rfl | ht
        · exact hlate
        · have hlater := hstart t ht
          omega
      · rw [hdepth, hdeeper, List.length_cons]
        omega
    · obtain ⟨hlayers, hlast⟩ := autoExpand_declined hgrown
      rw [growthTimes_declined hgrown]
      refine ⟨hapart, hlast ▸ hstart, hdepth.trans ?_⟩
      rw [depth, hlayers, ← depth]
  | meanwhile hm _ ih =>
    obtain ⟨hapart, hstart, hdepth⟩ := ih hm.wellFormed
    exact ⟨hapart, hm.lastExpansion ▸ hstart, hm.depth ▸ hdepth⟩

theorem growth_waits (h : n.WellFormed) :
    (∀ attempts o, n.Asked attempts o →
      (growthTimes attempts).Pairwise (fun s t => s + 5000 < t) ∧
      (∀ t ∈ growthTimes attempts, n.lastExpansion + 5000 < t) ∧
      o.depth = n.depth + (growthTimes attempts).length) ∧
    (∀ calls, (∀ now, .expand now ∉ calls) → n.Asked (attemptsOf calls n) (serve calls n).2) ∧
    ∀ (m : Network) (now : Nat),
      ((m.autoExpand now).1 ≠ .ok true → (m.autoExpand now).2.layers = m.layers ∧
        (m.autoExpand now).2.lastExpansion = m.lastExpansion) ∧
      (now - m.lastExpansion ≤ 5000 → m.autoExpand now = (.ok false, m)) := by
  refine ⟨fun attempts o ha => ha.cooled h, fun calls hcalls => .serve h hcalls, fun m now => ?_⟩
  exact ⟨autoExpand_declined, fun hearly => autoExpand_early (Nat.sub_le_iff_le_add'.mp hearly)⟩

/-- A small network that does badly though it is plastic. -/
def restless : Network :=
  ⟨"restless", [⟨1, 1, ⟨[1, 1], #[0]⟩, ⟨[1], #[0]⟩⟩], 0.9, 0.5, 0, [], none, 7, ⟨1⟩⟩

theorem wellFormed_restless : restless.WellFormed where
  nonempty := by simp [restless]
  layers l hl := by
    obtain rfl := List.mem_singleton.mp hl
    exact ⟨by decide, by decide, rfl, rfl, rfl, rfl, by decide⟩
  chain := List.isChain_singleton _
  keys := List.nodup_nil
  generator := by unfold Prng.Nonzero; decide

def restlessCalls : List NetworkCall :=
  [.autoExpand 5007, .autoExpand 5008, .autoExpand 3, .mutate 0.5, .autoExpand 10008, .forget, .autoExpand 10009]

theorem restless_waits :
    (∀ now, .expand now ∉ restlessCalls) ∧ growthTimes (attemptsOf restlessCalls restless) = [5008, 10009] ∧
      (serve restlessCalls restless).2.depth = 3 := by
  have hcalls : ∀ now, .expand now ∉ restlessCalls := by simp [restlessCalls]
  have htimes : growthTimes (attemptsOf restlessCalls restless) = [5008, 10009] := by decide +kernel
  obtain ⟨hasked, hserve, -⟩ := growth_waits wellFormed_restless
  obtain ⟨-, -, hdepth⟩ := hasked _ _ (hserve restlessCalls hcalls)
  rw [htimes] at hdepth
  exact ⟨hcalls, htimes, hdepth⟩

end Network

end Apiary
