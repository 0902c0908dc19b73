import Apiary.Proofs.Engine.Session
import Apiary.Proofs.Service.WriteBack

/-!
Stops that clients send to a run that they have started: each ends the run, if it clears the flag after the run
has raised it and before the script has ended.
-/

namespace Apiary

open Incident RunEvent

namespace Station

variable {τ : Type} {st : Station τ} {record : τ → List Incident} {rounds : Nat} {seed : UInt64}
  {source : String} {s s' : Shared τ} {r : RunReport}

theorem not_completed (hk : st.sink.Records record) (h : st.run rounds seed source s = .ok (r, s'))
    {p : Program} (hp : parse source = .ok p) {t : List Incident}
    (ht : record (st.interpret rounds p (st.desk seed source s)).2.shared.client =
      record (st.cleared s).client ++ t) (hclears : ∃ m ∈ moves t, m.clears = true) :
    r.outcome ≠ .completed := by
  intro hcompleted
  obtain ⟨t₁, s₁, hreport, -⟩ := run_reports hk h
  obtain ⟨-, hrunning⟩ := hreport.outcome_of_parse hp
  obtain ⟨t', ht', hflag⟩ := interpret_grows hk rounds seed source p s
  obtain rfl := List.append_cancel_left (ht.symm.trans ht')
  rw [hrunning hcompleted, List.any_eq_true.mpr hclears] at hflag
  cases hflag

/-- A run shows as running only when its flag has been raised. -/
theorem shows_running (hk : st.sink.Records record) (s : Shared τ) :
    (st.sink.perform [Controls.clearQueue, Controls.setFlag] s).controls.phase = s.controls.phase ∧
      (st.started s).controls.phase = .running := by
  obtain ⟨a, -, -, ha⟩ := perform_grows hk Controls.clearQueue s
  obtain ⟨b, -, -, hb⟩ := perform_grows hk Controls.setFlag (st.cleared s)
  obtain ⟨c, d, -, -, -, -, hcontrols⟩ := started_grows hk s
  constructor
  · have hcleared : (st.cleared s).controls = Move.play (moves a) s.controls.clearQueue := ha
    have hraised : st.sink.perform [Controls.clearQueue, Controls.setFlag] s =
        st.sink.perform [Controls.setFlag] (st.cleared s) := rfl
    rw [hraised, hb, hcleared, Move.play_eq, Move.play_eq]
    rfl
  · rw [hcontrols]

end Station

namespace ServicePlan

variable {κ : Type} {plan : ServicePlan κ} {others : Shared (Service κ) → Shared (Service κ)}
  {record : κ → List Incident} {o : RunOrigin} {s s₁ : Shared (Service κ)}

theorem stop_kept (h : plan.Recorded others record) (hb : begin? o s = some s₁)
    (hidle : s.controls.phase = .idle) {ms : List Move} {s₂ : Shared (Service κ)}
    (hbetween : s₂.controls = Move.play ms s₁.controls) (source : String) :
    (∀ n, (plan.among others o).run plan.rounds plan.seed source s₂ ≠ .error (.alreadyRunning n)) ∧
    ((plan.among others o).sink.perform [Controls.clearQueue, Controls.setFlag] s₂).controls.phase = .idle ∧
    ((plan.among others o).started s₂).controls.phase = .running ∧
    (∀ answers d t, (plan.among others o).Session ((plan.among others o).desk plan.seed source s₂) answers d →
      heardBy record d.shared.client = heardBy record ((plan.among others o).cleared s₂).client ++ t →
      (∃ m ∈ moves t, m.clears = true) →
      ∃ d', (plan.among others o).host.checkpoint d = .error .stopped d') ∧
    ∀ p r s', parse source = .ok p →
      (plan.among others o).run plan.rounds plan.seed source s₂ = .ok (r, s') →
      ∀ t, heardBy record ((plan.among others o).interpret plan.rounds p
          ((plan.among others o).desk plan.seed source s₂)).2.shared.client =
            heardBy record ((plan.among others o).cleared s₂).client ++ t →
        (∃ m ∈ moves t, m.clears = true) → r.outcome ≠ .completed := by
  have hk := among_records h o
  obtain ⟨hbefore, hshown⟩ := Station.shows_running hk s₂
  -- What clients do before the worker comes to the engine leaves its phase alone.
  have hidle₂ : s₂.controls.phase = .idle := by
    obtain ⟨b, -, rfl⟩ := begin?_eq hb
    rw [hbetween, Move.play_eq]
    exact hidle
  refine ⟨Station.run_admitted _ _ _ none hidle₂, hbefore.trans hidle₂, hshown, ?_, ?_⟩
  · intro answers d t hs ht hclears
    exact hs.stopped hk ht hclears
  · intro p r s' hp hr t ht hclears
    exact Station.not_completed hk hr hp ht hclears

/-- A service whose clients move as they hear of an event. -/
def moving (on : RunEvent → List Move) : ServicePlan (List Incident) where
  listen e := fun ⟨controls, service⟩ =>
    .ok () ⟨Move.play (on e) controls,
      { service with listener := service.listener ++ .heard e :: (on e).map .moved }⟩
  seed := 7
  clock := .still 0
  codec := .standard
  rounds := 9

theorem moving_recorded (on : RunEvent → List Move) : (moving on).Recorded id id where
  listen e s := by
    refine ⟨.heard e :: (on e).map .moved, congrArg (e :: ·) (Controllers.events_moved _), rfl, ?_⟩
    have hmoves : moves (.heard e :: (on e).map .moved) = on e := Controllers.moves_moved _
    rw [hmoves]
    rfl
  others _ := ⟨[], rfl, (List.append_nil _).symm, rfl⟩

def stoppedByClient : ServicePlan (List Incident) := moving fun
  | .log entry => if entry.message = "x" then Move.ofPush .stop else []
  | _ => []

def begun : Shared (Service (List Incident)) := ⟨{}, ⟨⟨some []⟩, [], RunBoard.reset .code { busy := true }, []⟩⟩

theorem begin?_fresh : begin? .code fresh = some begun := rfl

theorem stoppedByClient_stopped :
    ∃ r s, (stoppedByClient.among id .code).run 9 7 "console.log('x');" begun = .ok (r, s) ∧
      r.outcome ≠ .completed := by
  have hends : ((stoppedByClient.among id .code).run 9 7 "console.log('x');" begun).toOption.map
      (fun _ => ()) = some () := by
    rw [Station.run_of_chars _ (rfl : "console.log('x');" = String.ofList _)]
    decide +kernel
  have hstops : (parse "console.log('x');").toOption.map (fun p =>
      (moves (((stoppedByClient.among id .code).interpret 9 p
        ((stoppedByClient.among id .code).desk 7 "console.log('x');" begun)).2.shared.client.listener.drop
          ((stoppedByClient.among id .code).cleared begun).client.listener.length)).any Move.clears) =
        some true := by
    rw [Station.interpret_eq_started]
    decide +kernel
  obtain ⟨r, s, hr, -⟩ := Station.ran_of_toOption_map hends
  refine ⟨r, s, hr, ?_⟩
  have hrecorded : stoppedByClient.Recorded id id := moving_recorded _
  have hbetween : begun.controls = Move.play [] begun.controls := rfl
  obtain ⟨-, -, -, -, hkept⟩ := stop_kept hrecorded begin?_fresh rfl hbetween "console.log('x');"
  cases hp : parse "console.log('x');" with
  | error e =>
    rw [hp] at hstops
    cases hstops
  | ok p =>
    obtain ⟨t, ht, -⟩ :=
      Station.interpret_grows (among_records hrecorded .code) 9 7 "console.log('x');" p begun
    have hlistener : ((stoppedByClient.among id .code).interpret 9 p
        ((stoppedByClient.among id .code).desk 7 "console.log('x');" begun)).2.shared.client.listener =
          ((stoppedByClient.among id .code).cleared begun).client.listener ++ t := ht
    rw [hp] at hstops
    have hclears := Option.some.inj hstops
    dsimp only at hclears
    rw [hlistener, List.drop_left] at hclears
    exact hkept p r s hp hr t ht (List.any_eq_true.mp hclears)

-- The flag is raised after the stop, and the queue emptied.
theorem stop_before_worker :
    ∃ s₁ s₂ r s', begin? .code fresh = some s₁ ∧ ServiceAct.stop s₁ = .ok () s₂ ∧
      (noting.station .code).run noting.rounds noting.seed "1;" s₂ = .ok (r, s') ∧
      r.outcome = .completed ∧ s'.controls.signals = [] := by
  have hrun : ((noting.station .code).run noting.rounds noting.seed "1;"
      ⟨Controls.push .stop {}, begun.client⟩).toOption.map (fun (r, s) => (r.outcome, s.controls.signals)) =
        some (.completed, []) := by
    decide +kernel
  obtain ⟨r, s', hr, hresult⟩ := Station.ran_of_toOption_map hrun
  obtain ⟨houtcome, hsignals⟩ := Prod.mk.inj hresult
  exact ⟨begun, ⟨Controls.push .stop {}, begun.client⟩, r, s', begin?_fresh, rfl, hr, houtcome, hsignals⟩

end ServicePlan

end Apiary
