import Apiary.Engine.Sink
import Apiary.Files.Project
import Apiary.Service.Board

/-!
The service: it holds a project and saved checkpoints, and tells a listener what its runs do. What clients
may ask of it, they may ask at any time, also while they hear of an event.
-/

namespace Apiary

structure Service (κ : Type) where
  project : Project
  checkpoints : Directory := []
  board : RunBoard := {}
  listener : κ

abbrev ServiceAct (κ : Type) := SinkAct (Service κ)

inductive ServiceError
  | project (e : ProjectError)
  | noPrompt (id : UInt64)
  | stalePrompt (id : UInt64)
  deriving DecidableEq, Repr

def ServiceError.message : ServiceError → String
  | project e => e.message
  | noPrompt id => "no pending confirmation with id " ++ toString id.toNat
  | stalePrompt id => Slot.staleMessage id

structure ServiceStatus where
  phase : Phase
  run : Nat
  source : Option String
  pending : List Prompt
  deriving DecidableEq, Repr

namespace Service

variable {κ : Type}

def onBoard (f : RunBoard → RunBoard) (s : Service κ) : Service κ := { s with board := f s.board }

def save (c : ModelCheckpoint) (s : Service κ) : Service κ :=
  let name := checkpointName c.path
  if hasNul name then s
  else match Directory.write c.image [name] s.checkpoints with
    | .ok d => { s with checkpoints := d }
    | .error _ => s

/-- Writes the source of a script back; that of other runs has no file. -/
def writeBack (o : RunOrigin) (source : String) (s : Service κ) : Service κ :=
  match o with
  | .script path =>
    match s.project.write path source with
    | .ok p => { s with project := p }
    | .error _ => s
  | _ => s

end Service

namespace ServiceAct

variable {κ : Type}

def service : ServiceAct κ (Service κ) := fun s => .ok s.client s

def status : ServiceAct κ ServiceStatus := fun s =>
  let b := s.client.board
  .ok ⟨s.controls.phase, s.controls.run, b.source, b.pending⟩ s

def plots : ServiceAct κ (List PlotEvent) := fun s => .ok s.client.board.plots s

def push (signal : Signal) : ServiceAct κ Unit := SinkAct.controls (Controls.push signal)

def stop : ServiceAct κ Unit := push .stop

def withdraw (id : UInt64) : ServiceAct κ Bool := fun ⟨controls, s⟩ =>
  match s.board.withdraw? id with
  | some b => .ok true ⟨controls, { s with board := b }⟩
  | none => .ok false ⟨controls, s⟩

def answer (id : UInt64) (approved : Bool) : ServiceAct κ Bool := fun ⟨controls, s⟩ =>
  match s.board.answer? id approved with
  | some b => .ok true ⟨controls, { s with board := b }⟩
  | none => .ok false ⟨controls, s⟩

def confirm (id : UInt64) (approved : Bool) : ServiceAct κ (Except ServiceError Unit) := do
  if ← withdraw id then
    if ← answer id approved then pure (.ok ()) else pure (.error (.stalePrompt id))
  else pure (.error (.noPrompt id))

def read (path : String) : ServiceAct κ (Except ServiceError String) := do
  pure ((← service).project.read path |>.mapError .project)

end ServiceAct

end Apiary
