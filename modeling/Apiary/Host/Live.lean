import Apiary.Host.Argument
import Apiary.Wire.Event

/-!
Host functions that reach the client: editing the live source, plots, signals, prompts and sleep.
-/

namespace Apiary

def firstNumber? (s : List Char) : Option Double :=
  let numeric (c : Char) : Bool := c.isDigit || c = '.'
  let run := (s.dropWhile fun c => !numeric c).takeWhile numeric
  longestLiteral? run run.length

namespace DeskAct

variable {τ : Type}

def reload (st : Station τ) (x : Double) : List Nat → DeskAct τ Unit
  | [] => pure ()
  | cell :: rest => do
    let p := Double.narrow x
    HostAct.update fun h =>
      { h with networks := h.networks.modify cell ({ · with plasticity := p }) }
    st.emit .info ("[HotReload] Updated runtime plasticity to " ++ numberText x)
    reload st x rest

def mentions (s : String) : Bool := occurs "plasticity".toList s.toList

/-- Takes a new text of the source over and tells the client of it. -/
def adopt (st : Station τ) (note : DeskAct τ Unit) (code : CodeBuffer) : DeskAct τ Unit := do
  modifyContext ({ · with code := code })
  note
  tell (st.sink.code code.text)

/-- Edits the live source. An edit from one mention of the plasticity to another also changes the models. -/
def selfEdit (st : Station τ) (args : List Value) : DeskAct τ Value := do
  let target ← HostAct.display (argAt args 0)
  let replacement ← HostAct.display (argAt args 1)
  match (← context).code.edit? target replacement with
  | none =>
    st.emit .error ("[SelfEdit] Failed: Target '" ++ target ++ "' not found.")
    pure (.bool false)
  | some code =>
    let note := "[SelfEdit] Code Modified: '" ++ target ++ "' -> '" ++ replacement ++ "'"
    adopt st (st.emit .system note) code
    if mentions target && mentions replacement then
      match firstNumber? replacement.toList with
      | some x => reload st x ((← context).models.map Prod.snd)
      | none => pure ()
    pure (.bool true)

def rollback (st : Station τ) : DeskAct τ Value := do
  match (← context).code.rollback? with
  | none => pure (.bool false)
  | some code =>
    adopt st (pure ()) code
    st.emit .system "[Rollback] Reverted code."
    pure (.bool true)

/-- The plot that an object describes. What does not fit is left empty. -/
def plotOf (v : Value) : DeskAct τ PlotEvent := do
  let title := (← textOf? v "title").getD ""
  let kind := ((← textOf? v "type").bind PlotKind.ofName?).getD .line
  let series ← HostAct.json (← fieldOf v "series")
  let data ← HostAct.json (← fieldOf v "data")
  let xAxisKey := (← textOf? v "xAxisKey").getD ""
  let yAxisLabel ← textOf? v "yAxisLabel"
  pure ⟨title, title, xAxisKey, yAxisLabel, kind,
    (Json.list? PlotSeries.ofJson? series).getD [], data.arr?.getD []⟩

def plot (st : Station τ) (args : List Value) : DeskAct τ Value := do
  let e ← plotOf (argAt args 0)
  tell (st.sink.plot e)
  pure .undefined

def getSignal (st : Station τ) : DeskAct τ Value := do
  meanwhile st
  match ← controls Controls.pop with
  | some s => pure (.string s.text)
  | none => pure .null

def ask (st : Station τ) (message : String) : DeskAct τ Slot := do
  let (run, n) ← setContext fun c => ((c.run, c.prompts + 1), { c with prompts := c.prompts + 1 })
  tell (st.sink.confirm ⟨UInt64.ofNat run, RunContext.promptId run n, message⟩ {})

/-- Waits for the answer to a prompt. Without one, the answer is no when no responder is left; otherwise
only a stop ends the waiting. -/
def requestConfirmation (st : Station τ) (args : List Value) : DeskAct τ Value := do
  let message ← HostAct.display (argAt args 0)
  let slot ← ask st message
  match slot.take.1 with
  | some b => pure (.bool b)
  | none =>
    if !slot.held then pure (.bool false)
    else if ← isRunning st then throw (.endless .waiting)
    else throw .stopped

/-- Sleeps while the client goes on by itself. A sleep whose end no clock can tell breaks the run. -/
def sleep (st : Station τ) (args : List Value) : DeskAct τ Value := do
  let ms ← HostAct.number (argAt args 0)
  if ms.isFinite && (0 : Double) < ms then
    let horizon ← ofClient st.clock.horizon
    if horizon ≤ ms / 1000 then throw (.oversleep ms)
    else
      meanwhile st
      pure .undefined
  else pure .undefined

end DeskAct

end Apiary
