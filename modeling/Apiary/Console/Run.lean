import Apiary.Console.Options
import Apiary.Engine.Run
import Apiary.Files.Directory
import Apiary.Files.Node
import Apiary.Text.Visible

/-!
A run from the command line: every event is a line, and the last lines sum the run up.
-/

namespace Apiary

structure ConsoleOutput where
  code : Nat := 0
  out : String := ""
  err : String := ""
  deriving DecidableEq, Repr

structure Console where
  lines : List String := []
  board : PlotBoard := []

namespace Console

def print (line : String) (c : Console) : Console := { c with lines := line :: c.lines }

def text (c : Console) : String := String.join (c.lines.reverse.map (· ++ "\n"))

def logLine (e : LogEntry) : String := "[" ++ e.time ++ "] [" ++ e.kind.name ++ "] " ++ e.message

def plot (e : PlotEvent) (c : Console) : Console :=
  let board := c.board.merge e
  let kept := ((board.get? e.id).map fun p => p.data.length).getD e.data.length
  { c with board := board }.print
    ("[plot] " ++ e.id ++ ": +" ++ toString e.data.length ++ " records (" ++ toString kept
      ++ " kept)")

def promptLine (p : Prompt) : String :=
  "[confirm #" ++ toString p.id.toNat ++ "] " ++ p.message ++ " [y/n]"

def codeLine (source : String) : String :=
  "[code] live source updated (" ++ toString source.utf8ByteSize ++ " bytes)"

def checkpointLine (c : ModelCheckpoint) : String :=
  "[checkpoint] " ++ c.model ++ " -> " ++ c.path ++ " (" ++ toString c.image.length ++ " bytes)"

def sink : Sink Console where
  log e := SinkAct.client (print (logLine e))
  plot e := SinkAct.client (plot e)
  code source := SinkAct.client (print (codeLine source))
  checkpoint c := SinkAct.client (print (checkpointLine c))
  confirm p slot := do
    SinkAct.client (print (promptLine p))
    pure slot

def editedLine : String := "[code] script was self-edited during the run (not written back)"

def summary (r : RunReport) (plots hundredths : Nat) : String :=
  "run " ++ toString r.run ++ " finished in " ++ toString (hundredths / 100) ++ "."
    ++ twoDigits (hundredths % 100) ++ "s with " ++ toString plots ++ " plot(s)"

def exitCode : RunOutcome → Nat
  | .completed => 0
  | .stopped => 0
  | .errored _ => 1
  | .compileFailed _ => 1

def output (source : String) (hundredths : Nat) (r : RunReport) (c : Console) : ConsoleOutput :=
  let c := if r.source = source then c else c.print editedLine
  { code := exitCode r.outcome, out := (c.print (summary r c.board.length hundredths)).text }

end Console

namespace ConsoleOutput

def help : ConsoleOutput := { out := helpText }

def ofOptionError (e : OptionError) : ConsoleOutput := ⟨2, helpText, e.message ++ "\n\n"⟩

def unreadable (script : String) (fault : FileFault) : ConsoleOutput :=
  { code := 1, err := "Failed to read " ++ visibleText script ++ ": " ++ fault.message ++ "\n" }

def ofFailure (e : RunFailure) : ConsoleOutput := { code := 1, err := e.message ++ "\n" }

end ConsoleOutput

structure ConsolePlan where
  files : List FileNode
  seed : UInt64
  clock : Clock Console
  codec : Codec
  rounds : Nat

namespace ConsolePlan

def run (plan : ConsolePlan) (source : String) : Except RunFailure (RunReport × Console) := do
  let st : Station Console := ⟨Console.sink, fun _ => plan.files, plan.clock, plan.codec⟩
  let (r, s) ← st.run plan.rounds plan.seed source ⟨{}, {}⟩
  pure (r, s.client)

end ConsolePlan

namespace ConsoleOptions

def root (o : ConsoleOptions) (script : String) : String := o.project.getD (parentPath script)

def seedOr (default : UInt64) (o : ConsoleOptions) : UInt64 :=
  (o.seed.map UInt64.ofNat).getD default

end ConsoleOptions

def Entry.text : Entry → Except FileFault String
  | .folder _ => .error .isDirectory
  | .file bytes =>
    match fileText? bytes with
    | some text => .ok text
    | none => .error .notText

namespace Directory

/-- The nodes of a directory; none when there is no such directory. -/
def nodesAt (d : Directory) (path : String) : List FileNode :=
  match d.atPath path with
  | .ok (.folder entries) => Directory.nodes entries
  | _ => []

def command (d : Directory) (args : List String) (seed : UInt64) (clock : Clock Console) (codec : Codec)
    (rounds : Nat) : ConsoleOutput :=
  match ConsoleRequest.ofArgs args with
  | .error e => .ofOptionError e
  | .ok .help => .help
  | .ok (.run script o) =>
    match (d.atPath script).bind Entry.text with
    | .error fault => .unreadable script fault
    | .ok source =>
      let plan : ConsolePlan := ⟨d.nodesAt (o.root script), o.seedOr seed, clock, codec, rounds⟩
      match plan.run source with
      | .error e => .ofFailure e
      | .ok (r, c) => c.output source 0 r

end Directory

end Apiary
