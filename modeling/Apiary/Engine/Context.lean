import Apiary.Graph
import Apiary.Image.Bytes
import Apiary.Net.Prng
import Apiary.Text.Pieces

/-!
What one run keeps for its script beside the script's own values: registered models, the knowledge graph,
the generator, saved images, the counters behind ids, and the live source, a text that is edited by
replacement and can be taken back, edit by edit.
-/

namespace Apiary

structure CodeBuffer where
  text : String
  history : List String := []
  deriving DecidableEq, Repr

namespace CodeBuffer

/-- Replaces a text wherever it occurs; none when it is empty or does not occur. -/
def edit? (target replacement : String) (c : CodeBuffer) : Option CodeBuffer :=
  if target.isEmpty || !occurs target.toList c.text.toList then none
  else some ⟨replaceText target replacement c.text, c.text :: c.history⟩

/-- Takes back the latest edit; none when there is none left. -/
def rollback? (c : CodeBuffer) : Option CodeBuffer :=
  match c.history with
  | [] => none
  | text :: rest => some ⟨text, rest⟩

end CodeBuffer

structure RunContext (μ : Type) where
  run : Nat
  code : CodeBuffer
  generator : Prng
  models : List (String × μ) := []
  graph : Graph := {}
  images : List (String × Bytes) := []
  logs : Nat := 0
  prompts : Nat := 0

namespace RunContext

variable {μ : Type}

def new (run : Nat) (source : String) (g : Prng) : RunContext μ :=
  { run := run, code := ⟨source, []⟩, generator := g }

def register (name : String) (model : μ) (c : RunContext μ) : RunContext μ :=
  { c with models := setField name model c.models }

def model? (name : String) (c : RunContext μ) : Option μ := c.models.lookup name

def storeImage (path : String) (image : Bytes) (c : RunContext μ) : RunContext μ :=
  { c with images := setField path image c.images }

def image? (path : String) (c : RunContext μ) : Option Bytes := c.images.lookup path

def logId (run n : Nat) : String := toString run ++ "-" ++ toString n

def promptId (run n : Nat) : UInt64 := (UInt64.ofNat run <<< 32) ||| UInt64.ofNat n

end RunContext

end Apiary
