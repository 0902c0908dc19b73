import Apiary.Event.Basic
import Apiary.Wire.Record

/-!
Events as data.
-/

namespace Apiary

namespace Json

def ofWord (n : UInt64) : Json := .ofNat n.toNat

def word64? (j : Json) : Option UInt64 := (j.word? 64).map UInt64.ofNat

def present (name : String) (value : Option String) : List (String × Json) :=
  match value with
  | some s => [(name, .str s)]
  | none => []

def tag (name kind : String) (fields : List (String × Json)) : Json :=
  .obj ((name, .str kind) :: fields)

end Json

def LogKind.ofJson? (standing : Standing) (j : Json) : Option LogKind :=
  (j.choice? standing).bind LogKind.ofName?

def PlotKind.ofJson? (standing : Standing) (j : Json) : Option PlotKind :=
  (j.choice? standing).bind PlotKind.ofName?

def Signal.ofJson? (j : Json) : Option Signal := (j.choice? .alone).bind Signal.ofText?

namespace LogEntry

def fields (e : LogEntry) : List (String × Json) :=
  [("id", .str e.id), ("timestamp", .str e.time), ("type", .str e.kind.name),
    ("message", .str e.message)]

def ofJson? (j : Json) : Option LogEntry := do
  match ← j.record? ["id", "timestamp", "type", "message"] with
  | [id, time, kind, message] =>
    let id ← Json.required? Json.str? id
    let time ← Json.required? Json.str? time
    let kind ← Json.required? (LogKind.ofJson? .held) kind
    let message ← Json.required? Json.str? message
    some ⟨id, time, kind, message⟩
  | _ => none

end LogEntry

namespace PlotSeries

def toJson (s : PlotSeries) : Json :=
  .obj ([("key", .str s.key), ("color", .str s.color)] ++ Json.present "name" s.name)

def ofJson? (j : Json) : Option PlotSeries := do
  match ← j.record? ["key", "color", "name"] with
  | [key, color, name] =>
    let key ← Json.required? Json.str? key
    let color ← Json.required? Json.str? color
    let name ← Json.withDefault? none (Json.optional? Json.str?) name
    some ⟨key, color, name⟩
  | _ => none

end PlotSeries

namespace PlotEvent

def fields (e : PlotEvent) : List (String × Json) :=
  [("id", .str e.id), ("title", .str e.title), ("xAxisKey", .str e.xAxisKey)]
    ++ Json.present "yAxisLabel" e.yAxisLabel
    ++ [("type", .str e.kind.name), ("series", .arr (e.series.map PlotSeries.toJson)),
      ("data", .arr e.data)]

def toJson (e : PlotEvent) : Json := .obj e.fields

def ofJson? (standing : Standing) (j : Json) : Option PlotEvent := do
  match ← j.record? ["id", "title", "xAxisKey", "yAxisLabel", "type", "series", "data"] with
  | [id, title, xAxisKey, yAxisLabel, kind, series, data] =>
    let id ← Json.required? Json.str? id
    let title ← Json.required? Json.str? title
    let xAxisKey ← Json.required? Json.str? xAxisKey
    let yAxisLabel ← Json.withDefault? none (Json.optional? Json.str?) yAxisLabel
    let kind ← Json.withDefault? .line (PlotKind.ofJson? standing) kind
    let series ← Json.withDefault? [] (Json.list? PlotSeries.ofJson?) series
    let data ← Json.withDefault? [] Json.arr? data
    some ⟨id, title, xAxisKey, yAxisLabel, kind, series, data⟩
  | _ => none

end PlotEvent

namespace Prompt

def fields (p : Prompt) : List (String × Json) :=
  [("run_id", .ofWord p.run), ("id", .ofWord p.id), ("message", .str p.message)]

def toJson (p : Prompt) : Json := .obj p.fields

def ofJson? (j : Json) : Option Prompt := do
  match ← j.record? ["run_id", "id", "message"] with
  | [run, id, message] =>
    let run ← Json.required? Json.word64? run
    let id ← Json.required? Json.word64? id
    let message ← Json.required? Json.str? message
    some ⟨run, id, message⟩
  | _ => none

end Prompt

namespace RunOutcome

def toJson : RunOutcome → Json
  | completed => Json.tag "status" "completed" []
  | stopped => Json.tag "status" "stopped" []
  | errored message => Json.tag "status" "errored" [("message", .str message)]
  | compileFailed message => Json.tag "status" "compile_failed" [("message", .str message)]

def kinds : List String := ["completed", "stopped", "errored", "compile_failed"]

def messageOf? (j : Json) : Option String := do
  match ← j.record? ["message"] with
  | [message] => Json.required? Json.str? message
  | _ => none

def ofJson? (standing : Standing) (j : Json) : Option RunOutcome := do
  let (status, rest) ← j.tagged? standing "status" kinds
  match status, rest with
  | "completed", .arr (_ :: _) => none
  | "stopped", .arr (_ :: _) => none
  | "completed", _ => some completed
  | "stopped", _ => some stopped
  | "errored", rest => (messageOf? rest).map errored
  | "compile_failed", rest => (messageOf? rest).map compileFailed
  | _, _ => none

end RunOutcome

namespace RunEvent

def toJson : RunEvent → Json
  | log e => Json.tag "kind" "log" e.fields
  | plot e => Json.tag "kind" "plot" e.fields
  | confirmation p => Json.tag "kind" "confirmation" p.fields
  | codeUpdate source => Json.tag "kind" "code_update" [("source", .str source)]
  | checkpoint run model path bytes => Json.tag "kind" "checkpoint"
    [("run_id", .ofWord run), ("model", .str model), ("path", .str path),
      ("bytes", .ofWord bytes)]
  | runFinished run outcome elapsed => Json.tag "kind" "run_finished"
    [("run_id", .ofWord run), ("outcome", outcome.toJson), ("elapsed_ms", .ofWord elapsed)]

def kinds : List String :=
  ["log", "plot", "confirmation", "code_update", "checkpoint", "run_finished"]

def codeOfJson? (j : Json) : Option RunEvent := do
  match ← j.record? ["source"] with
  | [source] => (Json.required? Json.str? source).map codeUpdate
  | _ => none

def checkpointOfJson? (j : Json) : Option RunEvent := do
  match ← j.record? ["run_id", "model", "path", "bytes"] with
  | [run, model, path, bytes] =>
    let run ← Json.required? Json.word64? run
    let model ← Json.required? Json.str? model
    let path ← Json.required? Json.str? path
    let bytes ← Json.required? Json.word64? bytes
    some (checkpoint run model path bytes)
  | _ => none

def finishedOfJson? (j : Json) : Option RunEvent := do
  match ← j.record? ["run_id", "outcome", "elapsed_ms"] with
  | [run, outcome, elapsed] =>
    let run ← Json.required? Json.word64? run
    let outcome ← Json.required? (RunOutcome.ofJson? .held) outcome
    let elapsed ← Json.required? Json.word64? elapsed
    some (runFinished run outcome elapsed)
  | _ => none

def ofJson? (j : Json) : Option RunEvent := do
  let (kind, rest) ← j.tagged? .alone "kind" kinds
  match kind with
  | "log" => (LogEntry.ofJson? rest).map log
  | "plot" => (PlotEvent.ofJson? .held rest).map plot
  | "confirmation" => (Prompt.ofJson? rest).map confirmation
  | "code_update" => codeOfJson? rest
  | "checkpoint" => checkpointOfJson? rest
  | "run_finished" => finishedOfJson? rest
  | _ => none

end RunEvent

end Apiary
