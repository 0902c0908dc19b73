import Apiary.Host.Argument

/-!
Host functions on what a network carries beside its layers: goals, satisfaction, plasticity and memory; and
on the knowledge graph.
-/

namespace Apiary

def Heap.showsNetwork (h : Heap) (network : Nat) : Nat → Value → Bool
  | _, .network cell => cell = network
  | fuel + 1, .array cell => (h.array cell).any (showsNetwork h network fuel)
  | fuel + 1, .object cell =>
    (h.object cell).any fun (_, v) => Heap.isData v && showsNetwork h network fuel v
  | _, _ => false

namespace DeskAct

variable {τ : Type}

/-- Changes a network given as an argument; other values are passed over. -/
def changeNetwork (v : Value) (f : Network → DeskAct τ Network) : DeskAct τ Value := do
  match ← network? v with
  | none => pure .undefined
  | some (cell, n) =>
    let n ← f n
    setNetwork cell n
    pure .undefined

def setGoal (args : List Value) : DeskAct τ Value :=
  changeNetwork (argAt args 0) fun n => do
    let goal ← HostAct.json (argAt args 1)
    pure { n with goal := some goal }

def reward (args : List Value) : DeskAct τ Value :=
  changeNetwork (argAt args 0) fun n => do
    let x ← HostAct.single (argAt args 1)
    pure { n with satisfaction := n.satisfaction * 0.95 + x * 0.05 }

def selfEvaluate (args : List Value) : DeskAct τ Value := do
  match ← network? (argAt args 0) with
  | some (_, n) => pure (.ofSingle n.satisfaction)
  | none => pure .undefined

/-- Remembers a value as data. The network is taken apart meanwhile, so a value that shows it breaks the
run. -/
def remember (args : List Value) : DeskAct τ Value := do
  match ← network? (argAt args 0) with
  | none => pure .undefined
  | some (cell, n) =>
    let key ← HostAct.display (argAt args 1)
    let v := argAt args 2
    if ← HostAct.look fun h => h.showsNetwork cell h.depthBound v then throw (.reentry cell v)
    else
      let data ← HostAct.json v
      setNetwork cell (n.remember key data)
      pure .undefined

def retrieve (args : List Value) : DeskAct τ Value := do
  match ← network? (argAt args 0) with
  | none => pure .null
  | some (_, n) =>
    let key ← HostAct.display (argAt args 1)
    match n.remembered? key with
    | some data => HostAct.alloc (Heap.ofJson data)
    | none => pure .null

def forget (args : List Value) : DeskAct τ Value := do
  match ← network? (argAt args 0) with
  | none => pure .undefined
  | some (cell, n) =>
    if argAt args 1 = .string "prune" then
      let (count, n) := n.prune 0.1
      setNetwork cell n
      pure (.ofNat count)
    else
      setNetwork cell n.forget
      pure .undefined

def optimizeObjective (args : List Value) : DeskAct τ Value :=
  changeNetwork (argAt args 0) fun n =>
    pure { n with plasticity := n.plasticity * 0.9 + Single.atLeast 0.1 (1 - n.satisfaction) * 0.1 }

def distill (args : List Value) : DeskAct τ Value := do
  match ← network? (argAt args 0), ← network? (argAt args 1) with
  | some (_, source), some (cell, student) =>
    setNetwork cell { student with
      plasticity := Single.atLeast 0.1 (source.plasticity * 0.8)
      satisfaction := source.satisfaction }
    pure .undefined
  | _, _ => pure .undefined

def overclock (st : Station τ) (args : List Value) : DeskAct τ Value := do
  match ← network? (argAt args 0) with
  | none => pure .undefined
  | some (cell, n) =>
    setNetwork cell { n with plasticity := 1 }
    st.emit .error ("[WARN] Overclocking " ++ n.name ++ ".")
    pure .undefined

def createNode (args : List Value) : DeskAct τ Value := do
  let id ← HostAct.display (argAt args 0)
  let data ← HostAct.json (argAt args 1)
  modifyContext fun c => { c with graph := c.graph.addNode id data }
  pure .undefined

def link (args : List Value) : DeskAct τ Value := do
  let weight ← match argAt args 3 with
    | .undefined => pure 1
    | v => HostAct.number v
  let source ← HostAct.display (argAt args 0)
  let target ← HostAct.display (argAt args 1)
  let relation ← HostAct.display (argAt args 2)
  modifyContext fun c => { c with graph := c.graph.addEdge ⟨source, target, relation, weight⟩ }
  pure .undefined

def queryGraph (args : List Value) : DeskAct τ Value := do
  let relation ← HostAct.display (argAt args 1)
  let source ← HostAct.display (argAt args 0)
  newStrings ((← context).graph.query source relation)

end DeskAct

end Apiary
