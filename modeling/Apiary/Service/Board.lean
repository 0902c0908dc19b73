import Apiary.Engine.Sink
import Apiary.Event.Basic

/-!
What the service shows of its current run: the plots, the open prompts, and where the source came from. The
run and any number of clients work on it, each in steps of its own.
-/

namespace Apiary

inductive RunOrigin
  | script (path : String)
  | code
  | project
  deriving DecidableEq, Repr

def RunOrigin.label : RunOrigin → String
  | script path => path
  | code => "<code>"
  | project => "<project>"

structure RunBoard where
  busy : Bool := false
  plots : PlotBoard := []
  pending : List Prompt := []
  waiting : Option (UInt64 × Slot) := none
  source : Option String := none

namespace RunBoard

def acquire? (b : RunBoard) : Option RunBoard :=
  if b.busy then none else some { b with busy := true }

def release (b : RunBoard) : RunBoard := { b with busy := false }

def reset (o : RunOrigin) (b : RunBoard) : RunBoard :=
  { b with plots := [], pending := [], source := some o.label }

/-- The board at the end of a run. The plots stay. -/
def close (b : RunBoard) : RunBoard := { b with pending := [], source := none }

def merge (e : PlotEvent) (b : RunBoard) : RunBoard := { b with plots := b.plots.merge e }

def insertPrompt (p : Prompt) : List Prompt → List Prompt
  | [] => [p]
  | q :: rest =>
    if p.id < q.id then p :: q :: rest
    else if q.id = p.id then p :: rest
    else q :: insertPrompt p rest

def ask (p : Prompt) (slot : Slot) (b : RunBoard) : RunBoard :=
  { b with pending := insertPrompt p b.pending, waiting := some (p.id, slot) }

def withdraw? (id : UInt64) (b : RunBoard) : Option RunBoard :=
  if b.pending.any fun p => p.id = id then
    some { b with pending := b.pending.filter fun p => p.id ≠ id }
  else none

def answer? (id : UInt64) (approved : Bool) (b : RunBoard) : Option RunBoard :=
  match b.waiting with
  | some (other, slot) =>
    if other = id then
      (slot.fill? approved).map fun slot => { b with waiting := some (id, slot) }
    else none
  | none => none

def collect (b : RunBoard) : Option Slot × RunBoard :=
  (b.waiting.map Prod.snd, { b with waiting := none })

end RunBoard

end Apiary
