import Apiary.Proofs.Service.Visits

/-!
The prompts of a service, over every course that its clients and workers can take: each is answered once, it is
listed only while its run holds the engine, and no run finds the engine busy.
-/

namespace Apiary

theorem Floor.prompts_answered_once {ds : List Deed} {F : Floor} (hp : Floor.Path {} ds F) :
    (∀ id, (answers ds).count id ≤ (promptIds ds).count id) ∧
    (numbers ds).Nodup ∧
    ((∀ q ∈ numbers ds, q.1 < UInt32.size ∧ q.2 < UInt32.size) → ∀ id, (answers ds).count id ≤ 1) ∧
    (∀ {κ : Type} (service : Service κ), service.board = F.hall.board →
      ∃ status, ServiceAct.status ⟨F.hall.controls, service⟩ = .ok status ⟨F.hall.controls, service⟩ ∧
        ∀ p ∈ status.pending, service.board.busy = true ∧ p.run = UInt64.ofNat status.run ∧
          ∃ job, F.job = some job ∧ job.stage.Shows ∧ p ∈ job.asked) ∧
    ((∀ job, F.job = some job → ¬ job.stage.Shows) → F.hall.board.pending = []) ∧
    .rejected ∉ ds ∧
    (∀ job, F.job = some job → job.stage = .ready →
      ∀ {τ : Type} (st : Station τ) (rounds : Nat) (seed : UInt64) (source : String) (refusal : Option String)
        (client : τ) (n : Nat),
        st.run rounds seed source ⟨F.hall.controls, client⟩ refusal ≠ .error (.alreadyRunning n)) ∧
    (∀ {κ : Type} (service : Service κ), service.board = F.hall.board → ∀ id approved, ∃ result s' ds',
      ServiceAct.confirm id approved ⟨F.hall.controls, service⟩ = .ok result s' ∧
        Path {} (ds ++ ds') ⟨⟨s'.controls, s'.client.board, F.hall.taken⟩, F.job⟩ ∧
        (answers ds' = [id] ∧ result.isOk = true ∨ answers ds' = [] ∧ result.isOk = false)) ∧
    ∀ {κ : Type} {plan : ServicePlan κ} {others : Shared (Service κ) → Shared (Service κ)}
      {held : κ → List UInt64}, plan.Polite others held →
      ∀ o s s₁ s₂ between source r s₃, F = ⟨ServicePlan.hall held s, none⟩ →
        ServicePlan.begin? o s = some s₁ →
        Hall.Path (ServicePlan.hall held s₁) between (ServicePlan.hall held s₂) →
        (plan.among others o).run plan.rounds plan.seed source s₂ = .ok (r, s₃) →
        ∃ ds', Path {} (ds ++ ds') ⟨ServicePlan.hall held (plan.finish r s₃), none⟩ := by
  obtain ⟨⟨hnodup, -, hrests, hjob⟩, hrejected⟩ := hp.sound
  have hcount : ∀ id, (answers ds).count id ≤ (promptIds ds).count id := by
    intro id
    have haccounts := hp.accounts id
    have hstart : Hall.due id {} = 0 := rfl
    rw [hstart] at haccounts
    omega
  have hholder : ∀ p ∈ F.hall.board.pending, ∃ job, F.job = some job ∧ job.Sound F.hall (numbers ds) := by
    intro p hp
    cases hj : F.job with
    | none =>
      rw [(hrests hj).2.2] at hp
      cases hp
    | some job => exact ⟨job, rfl, hjob job hj⟩
  refine ⟨hcount, hnodup, ?_, ?_, ?_, hrejected, ?_, ?_, ?_⟩
  · intro hsmall id
    exact Nat.le_trans (hcount id) (List.nodup_iff_count_le_one.mp (promptIds_nodup hnodup hsmall) id)
  · intro κ service hboard
    refine ⟨_, rfl, fun p hp => ?_⟩
    have hlisted : p ∈ F.hall.board.pending := hboard ▸ hp
    obtain ⟨job, hj, hs⟩ := hholder p hlisted
    have hasked := hs.pending p hlisted
    exact ⟨hboard ▸ hs.busy, hs.asked p hasked, job, hj, hs.shows hlisted, hasked⟩
  · intro hhidden
    rw [List.eq_nil_iff_forall_not_mem]
    intro p hlisted
    obtain ⟨job, hj, hs⟩ := hholder p hlisted
    exact hhidden job hj (hs.shows hlisted)
  · intro job hj hready τ st rounds seed source refusal client n
    have hstage := (hjob job hj).stage
    rw [hready] at hstage
    exact st.run_admitted rounds seed source refusal hstage.1 n
  · intro κ service hboard id approved
    obtain ⟨result, s', ds', hconfirm, -, hpath, hanswers⟩ :=
      ServiceAct.confirm_path id approved ⟨F.hall.controls, service⟩ F.hall.taken
    have hhall : F = ⟨⟨F.hall.controls, service.board, F.hall.taken⟩, F.job⟩ := by rw [hboard]
    refine ⟨result, s', ds', hconfirm, ?_, hanswers⟩
    rw [hhall] at hp
    exact hp.trans (hpath.onFloor F.job)
  · intro κ plan others held hpolite o s s₁ s₂ between source r s₃ hF hb hclients hr
    subst hF
    obtain ⟨ds', hpath⟩ := ServicePlan.run_reaches hpolite hb hclients hr
    exact ⟨ds', hp.trans hpath⟩

/-- A service whose first run has asked its first prompt. -/
def Hall.asking : Hall where
  controls := ⟨true, .running, 1, []⟩
  board := ((RunBoard.reset .code { busy := true }).ask (promptOf 1 1 "deploy?") {})

def firstAsked : List Deed :=
  [.admitted, .worked, .worked, .worked, .worked, .worked, .worked, .asked 1 1 "deploy?"]

/-- The hall of a service while its first run is under way. -/
def Hall.running : Hall where
  controls := ⟨true, .running, 1, []⟩
  board := RunBoard.reset .code { busy := true }

theorem firstActive_path :
    Floor.Path {} [.admitted, .worked, .worked, .worked, .worked, .worked, .worked]
      ⟨.running, some ⟨.active, []⟩⟩ := by
  have hready : Floor.Path {} [.admitted, .worked]
      ⟨{ board := RunBoard.reset .code { busy := true } }, some ⟨.ready, []⟩⟩ :=
    (Course.refl.tail (.acquire rfl)).tail (.worker (.reset .code))
  have hstarting := ((hready.tail (.worker (.enter rfl))).tail (.worker .start)).tail (.worker .start)
  exact (hstarting.tail (.worker .start)).tail (.worker .run)

theorem firstAsked_path :
    Floor.Path {} firstAsked ⟨.asking, some ⟨.active, [promptOf 1 1 "deploy?"]⟩⟩ :=
  firstActive_path.tail (.worker (.ask "deploy?"))

/-- A service with one client: it approves the first prompt that it is shown, and stops a run that plots. -/
def ServicePlan.approving : ServicePlan Unit where
  listen
    | .confirmation _ => do
      match (← ServiceAct.status).pending with
      | [] => pure ()
      | p :: _ => discard (ServiceAct.confirm p.id true)
    | .plot _ => ServiceAct.stop
    | _ => pure ()
  seed := 7
  clock := .still 0
  codec := .standard
  rounds := 9

theorem ServicePlan.approving_polite : approving.Polite id fun _ => [] where
  listen e := by
    cases e with
    | confirmation p =>
      refine ServiceAct.visits_bind ServiceAct.visits_status fun status => ?_
      cases status.pending with
      | nil => exact ServiceAct.visits_pure ()
      | cons p rest =>
        exact ServiceAct.visits_bind (ServiceAct.visits_confirm p.id true) fun _ => ServiceAct.visits_pure ()
    | plot e => exact ServiceAct.visits_stop
    | log | codeUpdate | checkpoint | runFinished => exact ServiceAct.visits_pure ()
  others _ := ⟨[], .refl⟩

def deploying : String := "GB.Control.requestConfirmation('deploy?');"

def ServicePlan.resting : Shared (Service Unit) := ⟨{}, ⟨⟨some []⟩, [], {}, ()⟩⟩

theorem firstAsked_answered :
    (∃ F, Floor.Path {} (firstAsked ++ [.withdrawn (RunContext.promptId 1 1)] ++
        [.answered (RunContext.promptId 1 1) true] ++ [.missing (RunContext.promptId 1 1)]) F ∧
      (answers (firstAsked ++ [.withdrawn (RunContext.promptId 1 1)] ++
        [.answered (RunContext.promptId 1 1) true] ++ [.missing (RunContext.promptId 1 1)])).count
          (RunContext.promptId 1 1) = 1) ∧
    ∃ s₁ r s₂ ds, ServicePlan.begin? .code ServicePlan.resting = some s₁ ∧
      (ServicePlan.approving.among id .code).run 9 7 deploying s₁ = .ok (r, s₂) ∧
      Floor.Path {} ds ⟨ServicePlan.hall (fun _ => []) (ServicePlan.approving.finish r s₂), none⟩ := by
  have hwithdraw : Hall.asking.board.withdraw? (RunContext.promptId 1 1) =
      some { Hall.asking.board with pending := [] } := rfl
  have htaken := firstAsked_path.tail (.client (.withdrawn hwithdraw))
  have hanswer : RunBoard.answer? (RunContext.promptId 1 1) true { Hall.asking.board with pending := [] } =
      some { Hall.asking.board with
        pending := []
        waiting := some (RunContext.promptId 1 1, { answer? := some true }) } := rfl
  have hanswered := htaken.tail (.client (.answered (List.mem_cons_self) hanswer))
  have hnone : RunBoard.withdraw? (RunContext.promptId 1 1) { Hall.asking.board with
      pending := []
      waiting := some (RunContext.promptId 1 1, { answer? := some true }) } = none := rfl
  have hmissing := hanswered.tail (.client (.missing hnone))
  refine ⟨⟨_, hmissing, Nat.le_antisymm ?_ ?_⟩, ?_⟩
  · refine (Floor.prompts_answered_once hmissing).2.2.1 ?_ _
    intro q hq
    obtain rfl := List.mem_singleton.mp (show q ∈ [(1, 1)] from hq)
    decide
  · decide
  · obtain ⟨-, -, -, -, -, -, -, -, hrun⟩ := Floor.prompts_answered_once .refl
    have hends : ((ServicePlan.approving.among id .code).run 9 7 deploying
        ⟨{}, ServicePlan.resting.client.onBoard fun _ => RunBoard.reset .code { busy := true }⟩).toOption.map
          (fun (r, _) => r.outcome) = some .completed := by
      rw [Station.run_of_chars _ (rfl : deploying = String.ofList _)]
      decide +kernel
    obtain ⟨r, s₂, hr, -⟩ := Station.ran_of_toOption_map hends
    obtain ⟨ds, hpath⟩ :=
      hrun ServicePlan.approving_polite .code ServicePlan.resting _ _ [] deploying r s₂ rfl rfl .refl hr
    exact ⟨_, r, s₂, ds, rfl, hr, hpath⟩

section Rounds

variable {h : Hall} {asked : List Prompt}

/-- A run asks, a client approves at once, and the worker takes the answer. -/
def askedRound (run n : Nat) : List Deed :=
  [.asked run n "deploy?", .withdrawn (RunContext.promptId run n), .answered (RunContext.promptId run n) true, .worked]

theorem RunBoard.withdraw?_ask {b : RunBoard} (hpending : b.pending = []) (p : Prompt) (slot : Slot) :
    (b.ask p slot).withdraw? p.id = some { b with waiting := some (p.id, slot) } := by
  simp [withdraw?, ask, hpending, insertPrompt]

theorem Floor.Path.round (hpending : h.board.pending = []) (hwaiting : h.board.waiting = none) :
    Floor.Path ⟨h, some ⟨.active, asked⟩⟩ (askedRound h.controls.run (asked.length + 1))
      ⟨h, some ⟨.active, asked ++ [promptOf h.controls.run (asked.length + 1) "deploy?"]⟩⟩ := by
  have hwithdraw := RunBoard.withdraw?_ask hpending (promptOf h.controls.run (asked.length + 1) "deploy?") {}
  have hanswer : RunBoard.answer? (RunContext.promptId h.controls.run (asked.length + 1)) true
      { h.board with waiting := some (RunContext.promptId h.controls.run (asked.length + 1), {}) } =
      some { h.board with
        waiting := some (RunContext.promptId h.controls.run (asked.length + 1), { answer? := some true }) } := by
    simp [RunBoard.answer?, Slot.fill?]
  have hasked : Floor.Path ⟨h, some ⟨.active, asked⟩⟩ _ _ := Course.refl.tail (.worker (.ask "deploy?"))
  have hanswered := (hasked.tail (.client (.withdrawn hwithdraw))).tail
    (.client (.answered List.mem_cons_self hanswer))
  have hcollected := hanswered.tail (.worker .collect)
  obtain ⟨controls, ⟨busy, plots, pending, waiting, source⟩, taken⟩ := h
  subst hpending hwaiting
  rw [List.erase_cons_head] at hcollected
  exact hcollected

theorem Floor.Path.rounds (hpending : h.board.pending = []) (hwaiting : h.board.waiting = none) (k : Nat) :
    ∃ ds asked, Floor.Path ⟨h, some ⟨.active, []⟩⟩ ds ⟨h, some ⟨.active, asked⟩⟩ ∧ asked.length = k ∧
      answers ds = (List.range' 1 k).map (RunContext.promptId h.controls.run) := by
  induction k with
  | zero => exact ⟨[], [], .refl, rfl, rfl⟩
  | succ k ih =>
    obtain ⟨ds, asked, hpath, rfl, hanswers⟩ := ih
    refine ⟨ds ++ askedRound h.controls.run (asked.length + 1), _,
      hpath.trans (Floor.Path.round hpending hwaiting), List.length_append, ?_⟩
    rw [answers_append, hanswers, List.range'_1_concat, List.map_append, Nat.add_comm 1]
    rfl

end Rounds

theorem RunContext.promptId_wraps : promptId 1 (UInt32.size + 1) = promptId 1 1 := by decide

/-- The number of a prompt comes up again when its run has asked as many prompts as a half word can count. -/
theorem prompt_answered_twice :
    ∃ ds F, Floor.Path {} ds F ∧ 2 ≤ (answers ds).count (RunContext.promptId 1 1) := by
  obtain ⟨ds, asked, hpath, -, hall⟩ := Floor.Path.rounds (h := Hall.running) rfl rfl (UInt32.size + 1)
  have hanswers : answers ds = (List.range' 1 (UInt32.size + 1)).map (RunContext.promptId 1) := hall
  -- The first of these numbers and the last are the same.
  rw [List.range'_1_concat, List.range'_succ, List.map_append, List.map_cons, List.map_singleton,
    Nat.add_comm 1 UInt32.size, RunContext.promptId_wraps] at hanswers
  refine ⟨_, _, firstActive_path.trans hpath, ?_⟩
  rw [answers_append, hanswers, List.count_append, List.count_append, List.count_cons_self, List.count_singleton_self]
  omega

end Apiary
