import Apiary.Event.Plot
import Apiary.Image.Bytes

/-!
The signals that a client can post to a running script, and what a run tells the outside: log lines, plots,
prompts, changes of its source, saved models, and how it ended.
-/

namespace Apiary

inductive Signal
  | stop
  | boostRate
  | triggerAnomaly
  | sparIntense
  | saveCheckpoint
  | pause
  | resume
  deriving DecidableEq, Repr

namespace Signal

def text : Signal → String
  | stop => "STOP"
  | boostRate => "BOOST_LR"
  | triggerAnomaly => "TRIGGER_ANOMALY"
  | sparIntense => "SPAR_INTENSE"
  | saveCheckpoint => "SAVE_CHECKPOINT"
  | pause => "PAUSE"
  | resume => "RESUME"

def all : List Signal :=
  [stop, boostRate, triggerAnomaly, sparIntense, saveCheckpoint, pause, resume]

def ofText? (s : String) : Option Signal := all.find? fun signal => signal.text = s

def unknown (s : String) : String := "unknown signal '" ++ s ++ "'"

theorem ofText_text (s : Signal) : ofText? s.text = some s := by cases s <;> decide

end Signal

inductive LogKind
  | info | error | success | system
  deriving DecidableEq, Repr

namespace LogKind

def name : LogKind → String
  | info => "info"
  | error => "error"
  | success => "success"
  | system => "system"

def ofName? (s : String) : Option LogKind :=
  [info, error, success, system].find? fun kind => kind.name = s

theorem ofName_name (k : LogKind) : ofName? k.name = some k := by cases k <;> decide

end LogKind

def twoDigits (n : Nat) : String := if n < 10 then "0" ++ toString n else toString n

def clockText (seconds : Nat) : String :=
  let day := seconds % 86400
  twoDigits (day / 3600) ++ ":" ++ twoDigits (day / 60 % 60) ++ ":" ++ twoDigits (day % 60)

structure LogEntry where
  id : String
  time : String
  kind : LogKind
  message : String
  deriving DecidableEq, Repr

structure Prompt where
  run : UInt64
  id : UInt64
  message : String
  deriving DecidableEq, Repr

structure ModelCheckpoint where
  run : UInt64
  model : String
  path : String
  image : Bytes
  deriving DecidableEq, Repr

inductive RunOutcome
  | completed
  | stopped
  | errored (message : String)
  | compileFailed (message : String)
  deriving DecidableEq, Repr

inductive RunEvent
  | log (entry : LogEntry)
  | plot (e : PlotEvent)
  | confirmation (p : Prompt)
  | codeUpdate (source : String)
  | checkpoint (run : UInt64) (model path : String) (bytes : UInt64)
  | runFinished (run : UInt64) (outcome : RunOutcome) (elapsed : UInt64)

def RunEvent.ofCheckpoint (c : ModelCheckpoint) : RunEvent :=
  .checkpoint c.run c.model c.path (UInt64.ofNat c.image.length)

end Apiary
