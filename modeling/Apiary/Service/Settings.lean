import Apiary.Engine.Settings
import Apiary.Text.Pieces
import Apiary.Text.Visible
import Apiary.Wire.Record

/-!
The settings of the service: a file of settings, and variables of its environment that override it.
-/

namespace Apiary

structure ServiceSettings where
  address : String := "127.0.0.1:9877"
  /-- The project's directory; by default one beside the other data. -/
  project : Option String := none
  seed : Option Nat := none
  loopPause : Nat := 30
  eventBuffer : Nat := 1024
  deriving DecidableEq, Repr

inductive SettingsError
  | badFile
  | badVariable (name value : String)
  deriving DecidableEq, Repr

def SettingsError.message : SettingsError → String
  | badFile => "invalid config file"
  | badVariable name value => "invalid value for " ++ name ++ ": " ++ visibleText value

namespace ServiceSettings

def ofText? (text : String) : Option ServiceSettings := do
  let names := ["addr", "project_dir", "seed", "loop_yield_ms", "event_buffer"]
  match ← Json.recordOfText? names text with
  | [address, project, seed, loopPause, eventBuffer] =>
    let d : ServiceSettings := {}
    let address ← Json.withDefault? d.address Json.str? address
    let project ← Json.withDefault? none (Json.optional? Json.str?) project
    let seed ← Json.withDefault? none (Json.optional? (Json.word? 64)) seed
    let loopPause ← Json.withDefault? d.loopPause (Json.word? 64) loopPause
    let eventBuffer ← Json.withDefault? d.eventBuffer (Json.word? 64) eventBuffer
    some ⟨address, project, seed, loopPause, eventBuffer⟩
  | _ => none

def toJson (s : ServiceSettings) : Json :=
  .obj [("addr", .str s.address), ("project_dir", Json.ofOption (s.project.map .str)),
    ("seed", Json.ofOption (s.seed.map .ofNat)), ("loop_yield_ms", .ofNat s.loopPause),
    ("event_buffer", .ofNat s.eventBuffer)]

def ofFile (text : Option String) : Except SettingsError ServiceSettings :=
  match text with
  | none => .ok {}
  | some text =>
    match ofText? text with
    | some s => .ok s
    | none => .error .badFile

def seedVariable : String := "GOOBER_SEED"

def seedOf (value : String) : Except SettingsError Nat :=
  match unsigned? 10 (twoTo 64) (trim value.toList) with
  | some seed => .ok seed
  | none => .error (.badVariable seedVariable value)

def override (lookup? : String → Option String) (s : ServiceSettings) :
    Except SettingsError ServiceSettings := do
  let s := { s with
    address := (lookup? "GOOBER_ADDR").getD s.address
    project := lookup? "GOOBER_PROJECT" <|> s.project }
  match lookup? seedVariable with
  | none => pure s
  | some value => do
    let seed ← seedOf value
    pure { s with seed := some seed }

def engine (s : ServiceSettings) : EngineSettings :=
  { loopPause := .ofMillis s.loopPause, seed := s.seed.map UInt64.ofNat }

end ServiceSettings

end Apiary
