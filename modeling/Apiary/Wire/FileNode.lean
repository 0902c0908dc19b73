import Apiary.Files.Node
import Apiary.Wire.Event

/-!
File nodes as data.
-/

namespace Apiary

def FileKind.ofJson? (j : Json) : Option FileKind :=
  match j.choice? .alone with
  | some "file" => some .file
  | some "folder" => some .folder
  | _ => none

namespace FileNode

def toJson (n : FileNode) : Json :=
  .obj [("id", .str n.id), ("name", .str n.name), ("type", .str n.kind.name),
    ("parentId", Json.ofOption (n.parent.map .str)), ("content", .str n.content),
    ("depth", .int n.depth)]

/-- A missing parent is none in an object; an array has to reach it. -/
def parentOf? (j : Json) (parent : Option Json) : Option (Option String) :=
  match j, parent with
  | .arr _, none => none
  | _, parent => Json.withDefault? none (Json.optional? Json.str?) parent

def ofJson? (j : Json) : Option FileNode := do
  match ← j.record? ["id", "name", "type", "parentId", "content", "depth"] with
  | [id, name, kind, parent, content, depth] =>
    let id ← Json.required? Json.str? id
    let name ← Json.required? Json.str? name
    let kind ← Json.required? FileKind.ofJson? kind
    let parent ← parentOf? j parent
    let content ← Json.withDefault? "" Json.str? content
    let depth ← Json.withDefault? 0 (Json.intIn? (-(twoTo 31 : Int)) (twoTo 31)) depth
    some ⟨id, name, kind, parent, content, depth⟩
  | _ => none

end FileNode

end Apiary
