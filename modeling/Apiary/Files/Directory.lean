import Apiary.Files.Node
import Apiary.Json.Basic

/-!
Directory trees: entries by name, files with their text where they have one. A tree is listed as nodes
whose ids are their paths; names that begin with a point are hidden, and siblings are sorted.
-/

namespace Apiary

inductive Entry
  /-- A file; it has no text when its bytes are not a text. -/
  | file (bytes : List UInt8)
  | folder (entries : List (String × Entry))

abbrev Directory := List (String × Entry)

inductive FileFault
  | notFound | notDirectory | isDirectory | notText | nulInName | nameTooLong | denied
  deriving DecidableEq, Repr

def FileFault.name : FileFault → String
  | notFound => "NotFound"
  | notDirectory => "NotADirectory"
  | isDirectory => "IsADirectory"
  | notText => "InvalidData"
  | nulInName => "InvalidInput"
  | nameTooLong => "InvalidFilename"
  | denied => "PermissionDenied"

def FileFault.message : FileFault → String
  | notFound => "No such file or directory (os error 2)"
  | notDirectory => "Not a directory (os error 20)"
  | isDirectory => "Is a directory (os error 21)"
  | notText => "stream did not contain valid UTF-8"
  | nulInName => "file name contained an unexpected NUL byte"
  | nameTooLong => "File name too long (os error 36)"
  | denied => "Permission denied (os error 13)"

def longestName : Nat := 255

def longestPath : Nat := 4095

def hasNul (name : String) : Bool := name.toList.contains '\x00'

def isHidden (name : String) : Bool := name.startsWith "."

def fileText? (bytes : List UInt8) : Option String := String.fromUTF8? ⟨bytes.toArray⟩

namespace Directory

def insertSorted (entry : String × Entry) : Directory → Directory
  | [] => [entry]
  | other :: rest =>
    if entry.1 < other.1 then entry :: other :: rest else other :: insertSorted entry rest

def sorted (d : Directory) : Directory := d.foldl (fun done e => insertSorted e done) []

/-- The entry that segments lead to from a place inside nested directories. Of what lies outside of the
outermost one it is only known that one climbs from folder to folder there. -/
def walk : List Directory → Entry → List String → Except FileFault Entry
  | _, here, [] => .ok here
  | _, .file _, _ :: _ => .error .notDirectory
  | above, .folder d, name :: rest =>
    if name = "" || name = "." then walk above (.folder d) rest
    else if name = ".." then
      match above with
      | [] => walk [] (.folder []) rest
      | up :: above => walk above (.folder up) rest
    else if longestName < name.utf8ByteSize then .error .nameTooLong
    else match d.lookup name with
      | none => .error .notFound
      | some e => walk (d :: above) e rest

def entry (d : Directory) (segments : List String) : Except FileFault Entry :=
  walk [] (.folder d) segments

def pathFault? (path : String) : Option FileFault :=
  if hasNul path then some .nulInName
  else if longestPath < path.utf8ByteSize then some .nameTooLong
  else none

/-- The entry that a path leads to. A path from the root starts outside of the directory. -/
def atPath (d : Directory) (path : String) : Except FileFault Entry :=
  match pathFault? path with
  | some fault => .error fault
  | none =>
    if path = "" then .error .notFound
    else if path.startsWith "/" then walk [] (.folder []) (splitText "/" path)
    else d.entry (splitText "/" path)

def write (bytes : List UInt8) : List String → Directory → Except FileFault Directory
  | [], _ => .error .isDirectory
  | name :: rest, d =>
    if longestName < name.utf8ByteSize then .error .nameTooLong
    else match rest, d.lookup name with
      | [], some (.folder _) => .error .isDirectory
      | [], _ => .ok (setField name (.file bytes) d)
      | _ :: _, none => .error .notFound
      | _ :: _, some (.file _) => .error .notDirectory
      | next :: rest, some (.folder entries) =>
        (write bytes (next :: rest) entries).map fun e => setField name (.folder e) d

def put (e : Entry) : List String → Directory → Directory
  | [], d => d
  | [name], d => setField name e d
  | name :: rest, d =>
    match d.lookup name with
    | some (.folder entries) => setField name (.folder (put e rest entries)) d
    | _ => setField name (.folder (put e rest [])) d

def childId (parent : Option String) (name : String) : String :=
  match parent with
  | some p => p ++ "/" ++ name
  | none => name

end Directory

mutual

def Entry.visible : Entry → Entry
  | .file bytes => .file bytes
  | .folder entries => .folder (Directory.sorted (visibleEntries entries))

def visibleEntries : List (String × Entry) → Directory
  | [] => []
  | (name, e) :: rest =>
    if isHidden name then visibleEntries rest else (name, e.visible) :: visibleEntries rest

end

mutual

def Entry.nodes (parent : Option String) (depth : Nat) (name : String) : Entry → List FileNode
  | .file bytes =>
    [⟨Directory.childId parent name, name, .file, parent, (fileText? bytes).getD "", depth⟩]
  | .folder entries =>
    let id := Directory.childId parent name
    ⟨id, name, .folder, parent, "", depth⟩ :: entryNodes (some id) (depth + 1) entries

def entryNodes (parent : Option String) (depth : Nat) : List (String × Entry) → List FileNode
  | [] => []
  | (name, e) :: rest => e.nodes parent depth name ++ entryNodes parent depth rest

end

def Directory.nodes (d : Directory) : List FileNode :=
  entryNodes none 0 (Directory.sorted (visibleEntries d))

end Apiary
