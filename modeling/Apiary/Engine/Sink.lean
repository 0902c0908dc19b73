import Apiary.Event.Basic

/-!
The controls of an engine, which its run and its controllers share: a flag that a stop clears, a queue of
signals, and the phase and number of the run.

The slot of a prompt: it takes one answer while its run waits for it. Answers come from responders; when
none is left the slot stays empty for good.

The client of a run: it receives all that the run tells, in order, and may act on the controls meanwhile. A
client can break down, which ends the run.
-/

namespace Apiary

inductive Phase
  | idle | running | stopped | completed | errored
  deriving DecidableEq, Repr

def Phase.name : Phase → String
  | idle => "idle"
  | running => "running"
  | stopped => "stopped"
  | completed => "completed"
  | errored => "errored"

structure Controls where
  running : Bool := false
  phase : Phase := .idle
  /-- The number of the current run, or of the last one; zero before any. -/
  run : Nat := 0
  signals : List Signal := []
  deriving DecidableEq, Repr

namespace Controls

def clearFlag (c : Controls) : Controls := { c with running := false }

def setFlag (c : Controls) : Controls := { c with running := true }

def append (s : Signal) (c : Controls) : Controls := { c with signals := c.signals ++ [s] }

def clearQueue (c : Controls) : Controls := { c with signals := [] }

def enterPhase (p : Phase) (c : Controls) : Controls := { c with phase := p }

def stop (c : Controls) : Controls := c.clearFlag

/-- Queues a signal. A stop clears the flag before it is in the queue. -/
def push (s : Signal) (c : Controls) : Controls :=
  if s = .stop then c.clearFlag.append s else c.append s

def pop (c : Controls) : Option Signal × Controls :=
  match c.signals with
  | [] => (none, c)
  | s :: rest => (some s, { c with signals := rest })

/-- The phase shows that a run is active only once its number is drawn. -/
def begin (c : Controls) : Controls := { c with run := c.run + 1, phase := .running }

def startSteps : List (Controls → Controls) := [clearQueue, setFlag, begin]

def finishSteps (last : Phase) : List (Controls → Controls) :=
  [clearFlag, enterPhase last, enterPhase .idle]

end Controls

structure Slot where
  answer? : Option Bool := none
  live : Bool := true
  held : Bool := true
  deriving DecidableEq, Repr

namespace Slot

/-- Puts an answer in; none when it comes too late. -/
def fill? (b : Bool) (s : Slot) : Option Slot :=
  if s.live && s.answer?.isNone then some { s with answer? := some b } else none

def drop (s : Slot) : Slot := { s with held := false }

def take (s : Slot) : Option Bool × Slot := (s.answer?, { s with answer? := none })

def close (s : Slot) : Slot := { s with live := false }

def staleMessage (id : UInt64) : String :=
  "confirmation " ++ toString id.toNat ++ " is stale: its run already ended or stopped"

end Slot

structure Shared (τ : Type) where
  controls : Controls
  client : τ

abbrev SinkAct (τ : Type) := EStateM Unit (Shared τ)

structure Sink (τ : Type) where
  log : LogEntry → SinkAct τ Unit
  plot : PlotEvent → SinkAct τ Unit
  code : String → SinkAct τ Unit
  checkpoint : ModelCheckpoint → SinkAct τ Unit
  confirm : Prompt → Slot → SinkAct τ Slot
  /-- What happens at the client by itself until the run next looks at the controls or changes them. -/
  meanwhile : Shared τ → Shared τ := id

namespace Sink

variable {τ : Type}

/-- Steps of a run on the controls, one after the other. Others may act after each of them. -/
def perform (k : Sink τ) : List (Controls → Controls) → Shared τ → Shared τ
  | [], s => s
  | step :: rest, s => k.perform rest (k.meanwhile ⟨step s.controls, s.client⟩)

end Sink

namespace SinkAct

variable {τ : Type}

def client (f : τ → τ) : SinkAct τ Unit := fun ⟨controls, client⟩ => .ok () ⟨controls, f client⟩

def controls (f : Controls → Controls) : SinkAct τ Unit := fun ⟨controls, client⟩ =>
  .ok () ⟨f controls, client⟩

def breakDown : SinkAct τ Unit := throw ()

end SinkAct

end Apiary
