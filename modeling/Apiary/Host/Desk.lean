import Apiary.Engine.Context
import Apiary.Engine.Sink
import Apiary.Files.Node
import Apiary.Image.Chunk
import Apiary.Script.Act

/-!
Where the host functions of a run work: its context beside the client. Models are known by their cells.
-/

namespace Apiary

structure Desk (τ : Type) where
  context : RunContext Nat
  shared : Shared τ

/-- The clock of a host, as the state of a client has it. -/
structure Clock (τ : Type) where
  /-- Milliseconds since the start of the epoch. -/
  now : τ → Nat
  /-- The least number of seconds from now on that leads beyond every point in time. -/
  horizon : τ → Double

/-- A clock that stands still and tells time in signed words of seconds. -/
def Clock.still {τ : Type} (now : Nat) : Clock τ := ⟨fun _ => now, fun _ => 9223372036854775808⟩

structure Station (τ : Type) where
  sink : Sink τ
  files : τ → List FileNode
  clock : Clock τ
  codec : Codec

abbrev DeskAct (τ : Type) := HostAct (Desk τ)

namespace DeskAct

variable {τ α : Type}

def context : DeskAct τ (RunContext Nat) := fun s => .ok s.host.context s

def setContext (f : RunContext Nat → α × RunContext Nat) : DeskAct τ α :=
  fun ⟨heap, ⟨context, shared⟩⟩ =>
    let (a, context) := f context
    .ok a ⟨heap, ⟨context, shared⟩⟩

def modifyContext (f : RunContext Nat → RunContext Nat) : DeskAct τ Unit :=
  setContext fun c => ((), f c)

def draw (f : Prng → α × Prng) : DeskAct τ α :=
  setContext fun c =>
    let (a, g) := f c.generator
    (a, { c with generator := g })

/-- A draw that may fail; the generator then stays. -/
def drawShape (f : Prng → Except ShapeError (α × Prng)) : DeskAct τ α := do
  let c ← context
  let (a, g) ← HostAct.ofShape (f c.generator)
  modifyContext ({ · with generator := g })
  pure a

def tell (a : SinkAct τ α) : DeskAct τ α := fun ⟨heap, ⟨context, shared⟩⟩ =>
  match a shared with
  | .ok x shared => .ok x ⟨heap, ⟨context, shared⟩⟩
  | .error () shared => .error .fault ⟨heap, ⟨context, shared⟩⟩

def controls (f : Controls → α × Controls) : DeskAct τ α := tell fun ⟨controls, client⟩ =>
  let (a, controls) := f controls
  .ok a ⟨controls, client⟩

def meanwhile (st : Station τ) : DeskAct τ Unit := tell fun s => .ok () (st.sink.meanwhile s)

def isRunning (st : Station τ) : DeskAct τ Bool := do
  meanwhile st
  controls fun c => (c.running, c)

def ofClient (f : τ → α) : DeskAct τ α := fun s => .ok (f s.host.shared.client) s

def time (st : Station τ) : DeskAct τ Nat := do
  meanwhile st
  ofClient st.clock.now

end DeskAct

namespace Station

variable {τ : Type}

def entry (st : Station τ) (client : τ) (id : String) (kind : LogKind) (message : String) : LogEntry :=
  ⟨id, clockText (st.clock.now client / 1000), kind, message⟩

/-- Tells a line with the time at which it is told. -/
def line (st : Station τ) (id : String) (kind : LogKind) (message : String) : SinkAct τ Unit := fun s =>
  st.sink.log (st.entry s.client id kind message) s

def emit (st : Station τ) (kind : LogKind) (message : String) : DeskAct τ Unit := do
  let id ← DeskAct.setContext fun c =>
    (RunContext.logId c.run (c.logs + 1), { c with logs := c.logs + 1 })
  DeskAct.tell (st.line id kind message)

def served (st : Station τ) : DeskAct τ (List FileNode) := DeskAct.ofClient st.files

end Station

end Apiary
