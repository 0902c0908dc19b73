import Apiary.Engine.Run
import Apiary.Service.Basic

/-!
Runs of the service. One run at a time holds the engine; its events change what the service shows before
they reach the listener.
-/

namespace Apiary

structure ServicePlan (κ : Type) where
  listen : RunEvent → ServiceAct κ Unit
  seed : UInt64
  clock : Clock (Service κ)
  codec : Codec
  rounds : Nat

namespace ServicePlan

variable {κ : Type}

def ask (plan : ServicePlan κ) (p : Prompt) (slot : Slot) : ServiceAct κ Slot := do
  SinkAct.client (Service.onBoard (RunBoard.ask p slot))
  plan.listen (.confirmation p)
  let (slot?, b) := (← ServiceAct.service).board.collect
  SinkAct.client (Service.onBoard fun _ => b)
  pure (slot?.getD slot)

def sink (plan : ServicePlan κ) (o : RunOrigin) : Sink (Service κ) where
  log e := plan.listen (.log e)
  plot e := do
    SinkAct.client (Service.onBoard (RunBoard.merge e))
    plan.listen (.plot e)
  code source := do
    SinkAct.client (Service.writeBack o source)
    plan.listen (.codeUpdate source)
  checkpoint c := do
    SinkAct.client (Service.save c)
    plan.listen (.ofCheckpoint c)
  confirm := plan.ask

def station (plan : ServicePlan κ) (o : RunOrigin) : Station (Service κ) :=
  ⟨plan.sink o, fun s => s.project.nodes, plan.clock, plan.codec⟩

def source (o : RunOrigin) (code : String) (p : Project) : Except ProjectError String :=
  match o with
  | .code => .ok code
  | .project => p.concat
  | .script path => p.read path

def begin? (o : RunOrigin) (s : Shared (Service κ)) : Option (Shared (Service κ)) :=
  s.client.board.acquire?.map fun b => ⟨s.controls, s.client.onBoard fun _ => b.reset o⟩

def finish (plan : ServicePlan κ) (r : RunReport) (s : Shared (Service κ)) :
    Shared (Service κ) :=
  let s := ⟨s.controls, s.client.onBoard fun b => b.close.release⟩
  match plan.listen (.runFinished (UInt64.ofNat r.run) r.outcome 0) s with
  | .ok () s => s
  | .error () s => s

def run (plan : ServicePlan κ) (o : RunOrigin) (source : String) (s : Shared (Service κ)) :
    Except RunFailure (RunReport × Shared (Service κ)) :=
  match begin? o s with
  | none => .error (.alreadyRunning s.controls.run)
  | some s => do
    let (r, s) ← (plan.station o).run plan.rounds plan.seed source s
    pure (r, plan.finish r s)

end ServicePlan

end Apiary
