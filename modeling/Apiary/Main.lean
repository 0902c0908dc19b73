import Apiary.Console.Run
import Std.Time.DateTime.Timestamp

/-!
The command line program: it reads the script and the directory that it is served, runs it, and writes what
the run told.
-/

open Apiary

namespace Apiary.Main

def faultOfCode (code : UInt32) : FileFault :=
  if code = 20 then .notDirectory
  else if code = 21 then .isDirectory
  else if code = 36 then .nameTooLong
  else if code = 13 then .denied
  else .notFound

def faultOf : IO.Error → FileFault
  | .noFileOrDirectory _ code _ => faultOfCode code
  | .inappropriateType _ code _ => faultOfCode code
  | .permissionDenied _ code _ => faultOfCode code
  | .invalidArgument _ code _ => faultOfCode code
  | .otherError code _ => faultOfCode code
  | _ => .notFound

def readScript (path : String) : IO (Except FileFault String) := do
  try
    let bytes ← IO.FS.readBinFile path
    pure ((Entry.file bytes.toList).text)
  catch e => pure (.error (faultOf e))

/-- The entries of a directory; none where it cannot be read. -/
partial def loadDirectory (path : String) : IO Directory := do
  try
    let place ← IO.FS.realPath path
    let mut entries : Directory := []
    for item in ← place.readDir do
      let child := path ++ "/" ++ item.fileName
      if ← item.path.isDir then
        entries := (item.fileName, .folder (← loadDirectory child)) :: entries
      else
        let bytes ← IO.FS.readBinFile child
        entries := (item.fileName, .file bytes.toList) :: entries
    pure entries
  catch _ => pure []

def rounds : Nat := twoTo 62

def runScript (script source : String) (o : ConsoleOptions) : IO ConsoleOutput := do
  let files := Directory.nodes (← loadDirectory (o.root script))
  let now := (← Std.Time.Timestamp.now).toMillisecondsSinceUnixEpoch.val.toNat
  let start ← IO.monoMsNow
  let seed := o.seedOr (Prng.mix (UInt64.ofNat (← IO.monoNanosNow)))
  let result ← IO.lazyPure fun _ => (ConsolePlan.mk files seed (.still now) .standard rounds).run source
  match result with
  | .error e => pure (.ofFailure e)
  | .ok (r, c) =>
    let stop ← IO.monoMsNow
    pure (c.output source ((stop - start) / 10) r)

def command (args : List String) : IO ConsoleOutput := do
  match ConsoleRequest.ofArgs args with
  | .error e => pure (.ofOptionError e)
  | .ok .help => pure .help
  | .ok (.run script o) =>
    match ← readScript script with
    | .error fault => pure (.unreadable script fault)
    | .ok source => runScript script source o

end Apiary.Main

def main (args : List String) : IO UInt32 := do
  let r ← Apiary.Main.command args
  IO.print r.out
  IO.eprint r.err
  pure (UInt32.ofNat r.code)
