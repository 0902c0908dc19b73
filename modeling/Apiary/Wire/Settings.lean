import Apiary.Engine.Settings
import Apiary.Wire.Event

/-!
Engine settings as data.
-/

namespace Apiary

namespace Span

def toJson (s : Span) : Json := .obj [("secs", .ofNat s.secs), ("nanos", .ofNat s.nanos)]

def ofJson? (j : Json) : Option Span := do
  match j with
  | .obj fields => if fields.length ≠ 2 then none
  | _ => pure ()
  match ← j.record? ["secs", "nanos"] with
  | [secs, nanos] =>
    let secs ← Json.required? (Json.word? 64) secs
    let nanos ← Json.required? (Json.word? 32) nanos
    make? secs nanos
  | _ => none

end Span

namespace EngineSettings

def toJson (s : EngineSettings) : Json :=
  .obj [("loop_yield", s.loopPause.toJson), ("seed", Json.ofOption (s.seed.map .ofWord)),
    ("sleep_slice", s.sleepSlice.toJson), ("confirmation_poll", s.promptPoll.toJson)]

def ofJson? (j : Json) : Option EngineSettings := do
  match ← j.record? ["loop_yield", "seed", "sleep_slice", "confirmation_poll"] with
  | [pause, seed, slice, poll] =>
    let d : EngineSettings := {}
    let pause ← Json.withDefault? d.loopPause Span.ofJson? pause
    let seed ← Json.withDefault? d.seed (Json.optional? Json.word64?) seed
    let slice ← Json.withDefault? d.sleepSlice Span.ofJson? slice
    let poll ← Json.withDefault? d.promptPoll Span.ofJson? poll
    some ⟨pause, seed, slice, poll⟩
  | _ => none

end EngineSettings

end Apiary
