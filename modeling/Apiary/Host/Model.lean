import Apiary.Host.Argument
import Apiary.Image.NetworkImage

/-!
Host functions on models: making, saving and loading them, training, and the populations made of them.
-/

namespace Apiary

def maxPopulation : Nat := 10000

namespace DeskAct

variable {τ : Type}

def makeNetwork (name : String) (c : NetworkConfig) : DeskAct τ Network := do
  let g ← draw Prng.split
  HostAct.ofShape (Network.new name c g)

def newNetwork (name : String) (c : NetworkConfig) : DeskAct τ Value := do
  let n ← makeNetwork name c
  HostAct.alloc (Heap.newNetwork n)

def newTensor (init : TensorInit) (args : List Value) : DeskAct τ Value := do
  let dims ← shape (argAt args 0)
  let t ← drawShape (Tensor.new dims init)
  HostAct.alloc (Heap.newTensor t)

def initOf (v : Value) : TensorInit :=
  match v with
  | .string name => (TensorInit.ofName? name).getD .zeros
  | _ => .zeros

def newLinear (config : Value) : DeskAct τ Value := do
  let inputs ← sizeOr 64 (← fieldOf config "in")
  let outputs ← sizeOr 64 (← fieldOf config "out")
  let l ← drawShape (Layer.new inputs outputs .random)
  HostAct.alloc (Heap.newLayer l)

def newMind (args : List Value) : DeskAct τ Value := do
  let name ← HostAct.display (argAt args 0)
  let config ← networkConfig (argAt args 1)
  let v ← newNetwork name config
  match v with
  | .network cell => modifyContext (·.register name cell)
  | _ => pure ()
  pure v

def orFail {α : Type} (what : String) (r : Except ImageError α) : DeskAct τ α :=
  match r with
  | .ok a => pure a
  | .error e => HostAct.fail (what ++ e.message)

def saveNetwork (st : Station τ) (n : Network) (path : String) : DeskAct τ Unit := do
  let image ← orFail "Failed to save model: " (NetworkImage.write n st.codec.pack)
  modifyContext (·.storeImage path image)
  let c ← context
  tell (st.sink.checkpoint ⟨UInt64.ofNat c.run, n.name, path, image⟩)

def saveModel (st : Station τ) (args : List Value) : DeskAct τ Value := do
  let path ← HostAct.display (argAt args 1)
  let name ← match ← network? (argAt args 0) with
    | some (_, n) => do
      saveNetwork st n path
      pure n.name
    | none => pure "Unknown"
  st.emit .success ("Model " ++ name ++ " saved to " ++ path)
  pure .undefined

def loadModel (st : Station τ) (args : List Value) : DeskAct τ Value := do
  let path ← HostAct.display (argAt args 0)
  match (← context).image? path with
  | none => pure .null
  | some image =>
    let n ← orFail "Failed to load model: " (NetworkImage.read st.codec image)
    HostAct.alloc (Heap.newNetwork n)

def splitMany : Nat → Prng → List Prng × Prng
  | 0, g => ([], g)
  | n + 1, g =>
    let (child, g) := g.split
    let (rest, g) := splitMany n g
    (child :: rest, g)

def makeAgents (c : NetworkConfig) : Nat → List Prng → DeskAct τ (List Network)
  | _, [] => pure []
  | i, g :: rest => do
    let n ← HostAct.ofShape (Network.new ("Agent_" ++ toString i) c g)
    let others ← makeAgents c (i + 1) rest
    pure (n :: others)

def allocNetworks : List Network → DeskAct τ (List Value)
  | [] => pure []
  | n :: rest => do
    let v ← HostAct.alloc (Heap.newNetwork n)
    let vs ← allocNetworks rest
    pure (v :: vs)

def newPopulation (args : List Value) : DeskAct τ Value := do
  let x ← HostAct.number (argAt args 0)
  let count := if x.isFinite && (0 : Double) < x then Double.toNatCapped 64 x else 0
  if maxPopulation < count then
    HostAct.fail ("Population size " ++ toString count ++ " exceeds the limit of "
      ++ toString maxPopulation)
  else
    let config ← networkConfig (argAt args 1)
    let generators ← draw (splitMany count)
    let agents ← makeAgents config 0 generators
    newArray (← allocNetworks agents)

def offspringConfig : NetworkConfig := { inputs := 10, outputs := 4 }

def mutateNetwork (args : List Value) : DeskAct τ Value := do
  match ← network? (argAt args 0) with
  | none => pure .undefined
  | some (cell, n) =>
    let rate ← HostAct.single (argAt args 1)
    setNetwork cell (n.mutate rate)
    pure .undefined

def givenTarget (task : Value) : DeskAct τ (List Single) := do
  let t ← fieldOf task "target"
  if t.truthy then
    let data ← fieldOf t "data"
    singles (if data.truthy then data else t)
  else
    match ← fieldOf task "difficulty" with
    | .undefined => pure (List.replicate Task.targets 0)
    | d => do pure (← drawExample (← HostAct.number d)).target

def taskExample (n : Network) (task : Value) : DeskAct τ Example := do
  let input ← fieldOf (← fieldOf task "input") "data"
  if input.isNullish then
    let e ← drawExample (← difficulty task)
    pure (e.fitted n.inputSize n.outputSize)
  else
    let xs ← singles input
    pure ⟨xs, ← givenTarget task⟩

def trainOn (cell : Nat) (n : Network) (task : Value) : DeskAct τ Value := do
  let e ← taskExample n task
  let (step, trained) ← HostAct.ofShape (n.train e.input e.target n.intensity)
  setNetwork cell trained
  let insight ← drawExample (← difficulty task)
  let insight ← newBuffer insight.input
  newObject [("loss", .ofSingle step.loss), ("accuracy", .ofSingle step.accuracy),
    ("insight_vector", insight)]

def trainTask (args : List Value) : DeskAct τ Value := do
  match ← network? (argAt args 0) with
  | none => pure .null
  | some (cell, n) => trainOn cell n (argAt args 1)

def autoExpand (st : Station τ) (args : List Value) : DeskAct τ Value := do
  match ← network? (argAt args 0) with
  | none => pure (.bool false)
  | some (cell, n) =>
    let now ← time st
    let (r, n) := n.autoExpand now
    setNetwork cell n
    pure (.bool (← HostAct.ofShape r))

def sparring (model : Value) (e : Example) : DeskAct τ (List Single × List Single) := do
  match model with
  | .network cell =>
    match ← HostAct.look (·.networks[cell]?) with
    | none => pure ([], [])
    | some n =>
      let e := e.fitted n.inputSize n.outputSize
      pure (← HostAct.ofShape (n.forward e.input), e.target)
  | .layer cell =>
    match ← HostAct.look (·.layers[cell]?) with
    | none => pure ([], [])
    | some l =>
      let e := e.fitted l.inputs l.outputs
      pure (← HostAct.ofShape (l.forward e.input), e.target)
  | _ => HostAct.fail "model.forward is not a function"

def spar (args : List Value) : DeskAct τ Value := do
  let e ← drawExample 0
  let (prediction, target) ← sparring (argAt args 1) e
  let retention := Single.atLeast 0 (1 - squaredError prediction target * 0.5)
  newObject [("win_rate", .number (if (0.8 : Single) < retention then 1 else 0)),
    ("retention", .ofSingle retention)]

end DeskAct

end Apiary
