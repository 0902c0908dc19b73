import Apiary.Host.Call
import Apiary.Engine.Settings
import Apiary.Script.Grammar
import Apiary.Script.Globals
import Apiary.Script.Run

/-!
A run of a script from its source text: it starts when no other run is active, tells its client what
happens, and closes with the reason of its end.
-/

namespace Apiary

structure RunReport where
  run : Nat
  outcome : RunOutcome
  source : String
  deriving DecidableEq, Repr

inductive RunFailure
  | alreadyRunning (run : Nat)
  | endless
  /-- The client broke down over the last lines of a run that had broken down. -/
  | lost
  deriving DecidableEq, Repr

def RunFailure.message : RunFailure → String
  | alreadyRunning run => "a run is already active (run " ++ toString run ++ ")"
  | endless => "the run does not end"
  | lost => "the run is lost"

def brokenMessage : String := "internal error"

/-- The message of a run whose worker cannot be started. -/
def unmannedMessage (reason : String) : String := "failed to start run: " ++ reason

def runtimeError (message : String) : String := "Runtime Error: " ++ message

def finishedText : String := "Execution Finished."

def stoppedText : String := "Execution stopped."

namespace Station

variable {τ : Type}

/-- The last lines of a run and its outcome. A stop after the last checkpoint counts. -/
def close (st : Station τ) (ending : Ending) : EStateM Interrupt (Desk τ) RunOutcome := do
  match ending with
  | .completed =>
    if ← st.goesOn then
      st.logLine .system finishedText
      pure .completed
    else stopped
  | .stopped => stopped
  | .failed message _ =>
    st.logLine .error (runtimeError message)
    st.logLine .system finishedText
    pure (.errored message)
  | .broken => throw .fault
  | .endless => throw (.endless .run)
where
  stopped : EStateM Interrupt (Desk τ) RunOutcome := do
    st.logLine .system stoppedText
    st.logLine .system finishedText
    pure .stopped

/-- Runs a program from a desk on; gives how it ended and the desk that it left. -/
def interpret (st : Station τ) (rounds : Nat) (p : Program) (d : Desk τ) : Ending × Desk τ :=
  let (ending, w) := p.run st.host rounds (World.startWithHost d)
  (ending, w.host)

/-- Compiles and runs a source; gives the outcome and the source as edited. -/
def execute (st : Station τ) (rounds : Nat) (source : String) :
    EStateM Interrupt (Desk τ) (RunOutcome × String) := do
  match parse source with
  | .error e =>
    st.logLine .error ("Compiler Error: " ++ e.text)
    pure (.compileFailed e.text, source)
  | .ok program =>
    let (ending, d) := st.interpret rounds program (← get)
    set d
    let outcome ← st.close ending
    pure (outcome, (← get).context.code.text)

def lastPhase : RunOutcome → Phase
  | .completed => .completed
  | .stopped => .stopped
  | .errored _ => .errored
  | .compileFailed _ => .errored

def started (st : Station τ) (s : Shared τ) : Shared τ := st.sink.perform Controls.startSteps s

def desk (st : Station τ) (seed : UInt64) (source : String) (s : Shared τ) : Desk τ :=
  let s := st.started s
  ⟨RunContext.new s.controls.run source (Prng.ofSeed seed), s⟩

def finish (st : Station τ) (run : Nat) (outcome : RunOutcome) (source : String) (s : Shared τ) :
    RunReport × Shared τ :=
  (⟨run, outcome, source⟩, st.sink.perform (Controls.finishSteps (lastPhase outcome)) s)

/-- The last lines of a run that its worker does not close. -/
def apologize (st : Station τ) (message : String) (run : Nat) : SinkAct τ Unit := do
  st.line (toString run ++ "-abort") .error (runtimeError message)
  st.line (toString run ++ "-end") .system finishedText

/-- Closes a run in the place of its worker. -/
def giveUp (st : Station τ) (message : String) (run : Nat) (source : String) (s : Shared τ) :
    Except RunFailure (RunReport × Shared τ) :=
  match st.apologize message run s with
  | .ok () s => .ok (st.finish run (.errored message) source s)
  | .error () _ => .error .lost

/-- A run of a source. It has no worker when the system refuses to start one, for a reason that it gives. -/
def run (st : Station τ) (rounds : Nat) (seed : UInt64) (source : String) (s : Shared τ)
    (refusal : Option String := none) : Except RunFailure (RunReport × Shared τ) :=
  if s.controls.phase ≠ .idle then .error (.alreadyRunning s.controls.run)
  else
    let desk := st.desk seed source s
    let number := desk.context.run
    match refusal with
    | some reason => st.giveUp (unmannedMessage reason) number source desk.shared
    | none =>
      match st.execute rounds source desk with
      | .ok (outcome, source) d => .ok (st.finish number outcome source d.shared)
      | .error (.endless _) _ => .error .endless
      | .error _ d => st.giveUp brokenMessage number source d.shared

end Station

end Apiary
