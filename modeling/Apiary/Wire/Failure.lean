import Apiary.Image.Bytes
import Apiary.Json.Basic
import Apiary.Net.Tensor
import Apiary.Service.Basic
import Apiary.Source.Token

/-!
Failures as data: a kind, and mostly a message.
-/

namespace Apiary

namespace Json

def failure (kind : String) : Json := .obj [("error", .str kind)]

def failureWith (kind message : String) : Json :=
  .obj [("error", .str kind), ("message", .str message)]

def ofExcept {ε α : Type} (failed : ε → Json) (value : α → Json) : Except ε α → Json
  | .ok a => value a
  | .error e => failed e

end Json

def SourceError.toJson (e : SourceError) : Json :=
  .obj [("error", .str "CompileError"), ("message", .str e.fault.message),
    ("line", .ofNat e.position.line), ("column", .ofNat e.position.column)]

namespace ShapeError

def kind : ShapeError → String
  | invalidShape _ => "InvalidShape"
  | mismatch _ _ => "DimensionMismatch"
  | tooLarge _ => "TooLarge"

def toJson (e : ShapeError) : Json := .failureWith e.kind e.message

end ShapeError

def ImageError.toJson : ImageError → Json
  | badMemory => .failure "Other"
  | unexpectedEnd => .failureWith "UnexpectedEof" unexpectedEnd.message
  | e => .failureWith "InvalidData" e.message

def ProjectError.toJson : ProjectError → Json
  | failed action fault =>
    .obj [("error", .str "Io"), ("action", .str action.name), ("io", .str fault.name)]
  | invalidPath path => .failureWith "InvalidPath" (invalidPath path).message
  | scriptNotFound path => .failureWith "ScriptNotFound" (scriptNotFound path).message
  | noScripts => .failureWith "NoScripts" noScripts.message

def ServiceError.toJson : ServiceError → Json
  | project e => e.toJson
  | noPrompt id => .failureWith "NoPendingConfirmation" (noPrompt id).message
  | stalePrompt id => .failureWith "Confirmation" (stalePrompt id).message

end Apiary
