import Apiary.Files.Directory
import Apiary.Files.Node
import Apiary.Text.Visible

/-!
A project: a directory whose scripts can be read, written and run together.
-/

namespace Apiary

inductive FileAction
  | read | write | readDirectory
  deriving DecidableEq, Repr

def FileAction.name : FileAction → String
  | read => "read"
  | write => "write"
  | readDirectory => "read directory"

inductive ProjectError
  | invalidPath (path : String)
  | scriptNotFound (path : String)
  | noScripts
  | failed (action : FileAction) (fault : FileFault)
  deriving DecidableEq, Repr

def ProjectError.message : ProjectError → String
  | invalidPath path => "invalid project path " ++ visibleText path
  | scriptNotFound path => "script not found: " ++ path
  | noScripts => "project has no .gb scripts"
  | failed action fault => action.name ++ ": " ++ fault.message

def starterLines : List String :=
  ["// GooberLang starter script",
   "GB.Utils.log(\"Initializing HiveMind...\");",
   "var hive = GB.hive.HiveMind(\"Alpha\", \x7b capacity: 5000, plasticity: 0.9 \x7d);",
   "",
   "for (var step = 0; step < 20; step++) \x7b",
   "    var signal = GB.Control.getSignal();",
   "    if (signal == \"STOP\") break;",
   "    var m = GB.hive.trainTask(hive, \x7b difficulty: 0.5 \x7d);",
   "    GB.Visual.plot(\x7b",
   "        title: \"Training\",",
   "        xAxisKey: \"step\",",
   "        series: [\x7b key: \"loss\", color: \"#f87171\" \x7d, \x7b key: \"accuracy\", color: \"#34d399\" \x7d],",
   "        data: [\x7b step: step, loss: m.loss, accuracy: m.accuracy \x7d]",
   "    \x7d);",
   "\x7d",
   "GB.Utils.log(\"Done. Final satisfaction: \" + hive.satisfaction.toFixed(3));"]

def starterScript : String := String.join (starterLines.map (· ++ "\n"))

structure Project where
  /-- What the project's directory holds; none when there is no such directory. -/
  root : Option Directory

namespace Project

def fresh : Project := ⟨some [("main.gb", .file starterScript.toUTF8.toList)]⟩

def resolve (path : String) : Except ProjectError (List String) :=
  match projectSegments? path with
  | some segments => .ok segments
  | none => .error (.invalidPath path)

def file? (p : Project) (segments : List String) : Option (List UInt8) := do
  match (← p.root).entry segments with
  | .ok (.file bytes) => some bytes
  | _ => none

def read (p : Project) (path : String) : Except ProjectError String := do
  match p.file? (← resolve path) with
  | none => throw (.scriptNotFound path)
  | some bytes =>
    match fileText? bytes with
    | some text => pure text
    | none => throw (.failed .read .notText)

def writeAt (p : Project) (bytes : List UInt8) (segments : List String) :
    Except FileFault Project :=
  match Directory.pathFault? ("/".intercalate segments), p.root with
  | some fault, _ => .error fault
  | none, none => .error .notFound
  | none, some d => (Directory.write bytes segments d).map fun d => ⟨some d⟩

def write (p : Project) (path text : String) : Except ProjectError Project := do
  match p.writeAt text.toUTF8.toList (← resolve path) with
  | .ok p => pure p
  | .error fault => throw (.failed .write fault)

/-- The visible files; none when the directory is missing. -/
def nodes (p : Project) : List FileNode := (p.root.map Directory.nodes).getD []

def isScript (n : FileNode) : Bool := n.kind = .file && n.name.endsWith ".gb"

def insertByPath (n : FileNode) : List FileNode → List FileNode
  | [] => [n]
  | m :: rest => if n.id < m.id then n :: m :: rest else m :: insertByPath n rest

def scripts (d : Directory) : List FileNode :=
  (d.nodes.filter isScript).foldl (fun done n => insertByPath n done) []

def marked (n : FileNode) : String := "// --- File: " ++ n.name ++ " ---\n" ++ n.content

def concat (p : Project) : Except ProjectError String :=
  match p.root with
  | none => .error (.failed .readDirectory .notFound)
  | some d =>
    match scripts d with
    | [] => .error .noScripts
    | ns => .ok ("\n\n".intercalate (ns.map marked))

end Project

end Apiary
