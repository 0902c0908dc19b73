import Apiary.Number.Double
import Apiary.Number.Numeral

/-!
The arguments of the command line.
-/

namespace Apiary

structure ConsoleOptions where
  seed : Option Nat := none
  /-- The directory served to the script; by default the one that the script is in. -/
  project : Option String := none
  loopPause : Option Nat := none
  deriving DecidableEq, Repr

inductive ConsoleRequest
  | help
  | run (script : String) (options : ConsoleOptions)
  deriving DecidableEq, Repr

inductive OptionError
  | noValue (option what : String)
  | badSeed (value : String)
  | badPause (value : String)
  | unknown (option : String)
  | secondScript
  | noScript
  deriving DecidableEq, Repr

def OptionError.message : OptionError → String
  | noValue option what => option ++ " needs a " ++ what
  | badSeed value => "invalid seed: " ++ value
  | badPause value => "invalid --yield-ms: " ++ value
  | unknown option => "Unknown option: " ++ option
  | secondScript => "only one script can be run at a time"
  | noScript => "missing script path"

def helpLines : List String :=
  ["goober - run a GooberLang script locally",
   "",
   "Usage: goober <script> [--seed N] [--project DIR] [--yield-ms N]",
   "",
   "Options:",
   "  --seed N        Seed the run's random generator",
   "  --project DIR   Serve DIR through GB.FileSystem (default: the script's directory)",
   "  --yield-ms N    Pause at each loop iteration (default 30)",
   "",
   "While running, type a signal token (STOP, BOOST_LR, ...) or y/n to answer a prompt."]

def helpText : String := String.join (helpLines.map (· ++ "\n"))

namespace ConsoleRequest

def word? (value : String) : Option Nat := unsigned? 10 (twoTo 64) value.toList

/-- Reads arguments in order; the script may not have come yet. A later value of an option wins, and a
wish for help ends the reading. -/
def read (script : Option String) (o : ConsoleOptions) :
    List String → Except OptionError ConsoleRequest
  | [] =>
    match script with
    | some script => .ok (.run script o)
    | none => .error .noScript
  | "-h" :: _ => .ok .help
  | "--help" :: _ => .ok .help
  | "help" :: _ => .ok .help
  | "--seed" :: [] => .error (.noValue "--seed" "value")
  | "--seed" :: value :: rest =>
    match word? value with
    | some n => read script { o with seed := some n } rest
    | none => .error (.badSeed value)
  | "--project" :: [] => .error (.noValue "--project" "directory")
  | "--project" :: value :: rest => read script { o with project := some value } rest
  | "--yield-ms" :: [] => .error (.noValue "--yield-ms" "value")
  | "--yield-ms" :: value :: rest =>
    match word? value with
    | some n => read script { o with loopPause := some n } rest
    | none => .error (.badPause value)
  | arg :: rest =>
    if arg.startsWith "--" then .error (.unknown arg)
    else if script.isSome then .error .secondScript
    else read (some arg) o rest

def ofArgs (args : List String) : Except OptionError ConsoleRequest := read none {} args

end ConsoleRequest

end Apiary
