import Apiary.Proofs.Engine.Client
import Apiary.Service.Run

/-!
The station of a service whose clients are at work: some by themselves, whenever the run looks up, and some as
they hear of an event.
-/

namespace Apiary

open Incident RunEvent

variable {κ : Type}

namespace Service

/-- What the service does with a notice before its listener hears of it. -/
def prepare (o : RunOrigin) : Notice → Service κ → Service κ
  | .log _, s => s
  | .plot e, s => s.onBoard (RunBoard.merge e)
  | .code source, s => s.writeBack o source
  | .checkpoint c, s => s.save c
  | .confirm p, s => s.onBoard (RunBoard.ask p {})

def settle : Notice → Service κ → Service κ
  | .confirm _, s => s.onBoard fun b => b.collect.2
  | _, s => s

theorem save_eq (c : ModelCheckpoint) (s : Service κ) : ∃ d, s.save c = { s with checkpoints := d } := by
  unfold save
  dsimp only
  split
  · exact ⟨s.checkpoints, rfl⟩
  · split
    · exact ⟨_, rfl⟩
    · exact ⟨s.checkpoints, rfl⟩

theorem writeBack_eq (o : RunOrigin) (source : String) (s : Service κ) :
    ∃ p, s.writeBack o source = { s with project := p } := by
  unfold writeBack
  split
  · split
    · exact ⟨_, rfl⟩
    · exact ⟨s.project, rfl⟩
  · exact ⟨s.project, rfl⟩

theorem prepare_listener (o : RunOrigin) (n : Notice) (s : Service κ) :
    (s.prepare o n).listener = s.listener := by
  cases n with
  | log | plot | confirm => rfl
  | code source =>
    obtain ⟨p, hp⟩ := writeBack_eq o source s
    rw [prepare, hp]
  | checkpoint c =>
    obtain ⟨d, hd⟩ := save_eq c s
    rw [prepare, hd]

theorem settle_listener (n : Notice) (s : Service κ) : (s.settle n).listener = s.listener := by
  cases n <;> rfl

end Service

namespace ServicePlan

variable {plan : ServicePlan κ} {others : Shared (Service κ) → Shared (Service κ)}
  {record : κ → List Incident}

theorem begin?_eq {o : RunOrigin} {s s₁ : Shared (Service κ)} (h : begin? o s = some s₁) :
    ∃ b, s.client.board.acquire? = some b ∧ s₁ = ⟨s.controls, s.client.onBoard fun _ => b.reset o⟩ := by
  unfold begin? at h
  cases hb : s.client.board.acquire? with
  | none =>
    rw [hb] at h
    cases h
  | some b =>
    rw [hb] at h
    cases h
    exact ⟨b, rfl, rfl⟩

def among (plan : ServicePlan κ) (others : Shared (Service κ) → Shared (Service κ)) (o : RunOrigin) :
    Station (Service κ) :=
  { plan.station o with sink := { plan.sink o with meanwhile := others } }

theorem pass_eq (plan : ServicePlan κ) (others : Shared (Service κ) → Shared (Service κ)) (o : RunOrigin)
    (n : Notice) (s : Shared (Service κ)) :
    (plan.among others o).sink.pass n s =
      match plan.listen n.event ⟨s.controls, s.client.prepare o n⟩ with
      | .ok () s' => .ok () ⟨s'.controls, s'.client.settle n⟩
      | .error () s' => .error () s' := by
  cases n with
  | confirm p =>
    rw [Sink.pass_confirm]
    simp only [among, station, sink, ask, SinkAct.client, ServiceAct.service, Bind.bind, EStateM.bind,
      Notice.event, Service.prepare]
    cases plan.listen (.confirmation p) ⟨s.controls, s.client.onBoard (RunBoard.ask p {})⟩ <;> rfl
  | log | plot | code | checkpoint =>
    simp only [Sink.pass, among, station, sink, SinkAct.client, Bind.bind, EStateM.bind, Notice.event,
      Service.prepare, Service.settle]
    generalize plan.listen _ _ = r
    cases r <;> rfl

def heardBy (record : κ → List Incident) (service : Service κ) : List Incident :=
  record service.listener

/-- The listener and those who act by themselves keep a record of what they hear and do. -/
structure Recorded (plan : ServicePlan κ) (others : Shared (Service κ) → Shared (Service κ))
    (record : κ → List Incident) : Prop where
  listen (e : RunEvent) (s : Shared (Service κ)) :
    ∃ t, events t = [e] ∧ Shared.Grows (heardBy record) t s (Act.final (plan.listen e s))
  others (s : Shared (Service κ)) :
    ∃ t, events t = [] ∧ Shared.Grows (heardBy record) t s (others s)

theorem among_records (h : plan.Recorded others record) (o : RunOrigin) :
    (plan.among others o).sink.Records (heardBy record) where
  pass n s := by
    obtain ⟨t, ht, hrecord, hcontrols⟩ := h.listen n.event ⟨s.controls, s.client.prepare o n⟩
    refine ⟨t, ht, ?_⟩
    have hheard : heardBy record (s.client.prepare o n) = heardBy record s.client :=
      congrArg record (Service.prepare_listener o n s.client)
    rw [pass_eq]
    generalize plan.listen n.event ⟨s.controls, s.client.prepare o n⟩ = r at hrecord hcontrols ⊢
    rw [hheard] at hrecord
    cases r with
    | ok x s' =>
      have hsettled : heardBy record (s'.client.settle n) = heardBy record s'.client :=
        congrArg record (Service.settle_listener n s'.client)
      exact ⟨hsettled.trans hrecord, hcontrols⟩
    | error x s' => exact ⟨hrecord, hcontrols⟩
  meanwhile := h.others

end ServicePlan

end Apiary
