import Apiary.Text.Pieces

/-!
A tree of files as a list of nodes that name their parents, and the paths that lead to them. Of a path that
a script chooses only the segments count, so that none leads out of its directory.
-/

namespace Apiary

inductive FileKind
  | file | folder
  deriving DecidableEq, Repr

def FileKind.name : FileKind → String
  | file => "file"
  | folder => "folder"

structure FileNode where
  id : String
  name : String
  kind : FileKind
  parent : Option String
  content : String
  depth : Int
  deriving DecidableEq, Repr

inductive Located
  | root
  | node (n : FileNode)
  deriving DecidableEq, Repr

def Located.isDirectory : Located → Bool
  | root => true
  | node n => n.kind = .folder

def pathSegments (path : String) : List String :=
  (splitText "/" path).filter fun s => s ≠ "" ∧ s ≠ "."

namespace FileNode

def child? (nodes : List FileNode) (parent : Option String) (name : String) : Option FileNode :=
  nodes.find? fun n => n.parent = parent ∧ n.name = name

/-- Follows segments from a place; all but the last have to name folders. -/
def follow (nodes : List FileNode) : Located → List String → Option Located
  | here, [] => some here
  | .root, s :: rest => do
    let n ← child? nodes none s
    follow nodes (.node n) rest
  | .node n, s :: rest =>
    if n.kind = .folder then do
      let m ← child? nodes (some n.id) s
      follow nodes (.node m) rest
    else none

def locate (nodes : List FileNode) (path : String) : Option Located :=
  follow nodes .root (pathSegments path)

def list (nodes : List FileNode) (path : String) : List String :=
  match locate nodes path with
  | some .root => namesUnder none
  | some (.node n) => if n.kind = .folder then namesUnder (some n.id) else []
  | none => []
where
  namesUnder (parent : Option String) : List String :=
    (nodes.filter fun n => n.parent = parent).map FileNode.name

def read (nodes : List FileNode) (path : String) : Option String :=
  match locate nodes path with
  | some (.node n) => if n.kind = .folder then none else some n.content
  | _ => none

def exists? (nodes : List FileNode) (path : String) : Bool := (locate nodes path).isSome

def isDirectory (nodes : List FileNode) (path : String) : Bool :=
  ((locate nodes path).map Located.isDirectory).getD false

def namesAbove (nodes : List FileNode) : Nat → Option String → List String → List String
  | 0, _, below => below
  | _, none, below => below
  | n + 1, some id, below =>
    match nodes.find? fun p => p.id = id with
    | some p => namesAbove nodes n p.parent (p.name :: below)
    | none => below

def path (nodes : List FileNode) (n : FileNode) : String :=
  "/".intercalate (namesAbove nodes nodes.length n.parent [n.name])

end FileNode

def parentSegment : String := ".."

def projectSegments? (path : String) : Option (List String) :=
  let segments := pathSegments path
  if segments.isEmpty || segments.contains parentSegment then none else some segments

def unnamedCheckpoint : String := "model.ckpt"

def checkpointName (path : String) : String :=
  match (pathSegments path).getLast? with
  | some name => if name = parentSegment then unnamedCheckpoint else name
  | none => unnamedCheckpoint

def parentPath (path : String) : String :=
  let above := (pathSegments path).dropLast
  if path.startsWith "/" then "/" ++ "/".intercalate above
  else if above.isEmpty then "." else "/".intercalate above

end Apiary
