import Apiary.Net.Layer
import Apiary.Json.Basic

/-!
Networks: a stack of layers that grows before its last one and is trained by trying a mutation and
keeping it unless the error rises. A network also carries a memory, a goal and a generator of its own.
-/

namespace Apiary

structure NetworkConfig where
  inputs : Nat := 10
  outputs : Nat := 4
  hidden : Nat := 16
  capacity : Double := 10000
  plasticity : Single := 0.5

structure Network where
  name : String
  layers : List Layer
  plasticity : Single
  satisfaction : Single
  capacity : Double
  memory : List (String × Json)
  goal : Option Json
  lastExpansion : Nat
  generator : Prng

structure TrainStep where
  loss : Single
  accuracy : Single
  accepted : Bool

def expansionCooldown : Nat := 5000

def trainScale : Single := 0.2

def squaredErrorFrom : Single → List Single → List Single → Single
  | sum, [], _ => sum
  | sum, p :: ps, ts =>
    let d := p - ts.headD 0
    squaredErrorFrom (sum + d * d) ps ts.tail

/-- The sum of squared differences; a missing target counts as zero. -/
def squaredError (prediction target : List Single) : Single :=
  squaredErrorFrom 0 prediction target

namespace Network

def new (name : String) (c : NetworkConfig) (g : Prng) : Except ShapeError Network := do
  let (first, g) ← Layer.new c.inputs c.hidden .random g
  let (second, g) ← Layer.new c.hidden c.outputs .random g
  pure ⟨name, [first, second], c.plasticity, 0.5, c.capacity, [], none, 0, g⟩

def ofLayers (name : String) (layers : List Layer) (g : Prng) : Network :=
  let c : NetworkConfig := {}
  ⟨name, layers, c.plasticity, 0.5, c.capacity, [], none, 0, g⟩

def depth (n : Network) : Nat := n.layers.length

def inputSize (n : Network) : Nat := (n.layers.head?.map Layer.inputs).getD 0

def outputSize (n : Network) : Nat := (n.layers.getLast?.map Layer.outputs).getD 0

def intensity (n : Network) : Single := n.plasticity * trainScale

def forwardThrough : List Layer → List Single → Except ShapeError (List Single)
  | [], x => .ok x
  | l :: rest, x => do forwardThrough rest (← l.forward x)

def forward (n : Network) (input : List Single) : Except ShapeError (List Single) :=
  forwardThrough n.layers input

def growthSizes? : List Layer → Option (Nat × Nat)
  | [] => none
  | [l] => some (l.inputs, l.inputs)
  | [l, last] => some (l.outputs, last.inputs)
  | _ :: rest => growthSizes? rest

def expand (now : Nat) (n : Network) : Except ShapeError Network :=
  match growthSizes? n.layers with
  | none => .ok n
  | some (inputs, outputs) => do
    let init := if inputs = outputs then .identity else .random
    let (layer, g) ← Layer.new inputs outputs init n.generator
    pure { n with
      layers := n.layers.dropLast ++ layer :: n.layers.getLast?.toList
      lastExpansion := now
      generator := g }

/-- Grows once the cooldown is over, when the network does badly though it is plastic, or by a rare
chance. Tells whether it grew; the generator may have moved even if growing fails. -/
def autoExpand (now : Nat) (n : Network) : Except ShapeError Bool × Network :=
  if now - n.lastExpansion ≤ expansionCooldown then (.ok false, n)
  else
    let struggling := n.satisfaction < 0.6 && (0.8 : Single) < n.plasticity
    let (u, g) := n.generator.unit32
    let n := { n with generator := g }
    if struggling || (0.99 : Single) < u then
      match n.expand now with
      | .ok grown => (.ok true, grown)
      | .error e => (.error e, n)
    else (.ok false, n)

def prune (threshold : Single) (n : Network) : Nat × Network :=
  let pruned := n.layers.map (Layer.prune threshold)
  ((pruned.map Prod.fst).foldl (· + ·) 0, { n with layers := pruned.map Prod.snd })

def mutate (rate : Single) (n : Network) : Network :=
  let (layers, g) := Prng.mapList (Layer.mutate rate) n.layers n.generator
  { n with layers := layers, generator := g }

def train (input target : List Single) (rate : Single) (n : Network) :
    Except ShapeError (TrainStep × Network) := do
  let before := squaredError (← n.forward input) target
  let snapshots := n.layers.map Layer.snapshot
  let mutated := n.mutate rate
  let after := squaredError (← mutated.forward input) target
  let accepted := !(before < after)
  let layers :=
    if accepted then mutated.layers else List.zipWith Layer.revert mutated.layers snapshots
  let loss := if accepted then after else before
  let accuracy := Single.atLeast 0 (1 - loss / Single.ofNat (max n.outputSize 1))
  pure (⟨loss, accuracy, accepted⟩,
    { mutated with
      layers := layers
      satisfaction := n.satisfaction * 0.9 + accuracy * 0.1 })

def remember (key : String) (value : Json) (n : Network) : Network :=
  { n with memory := setField key value n.memory }

def remembered? (key : String) (n : Network) : Option Json := n.memory.lookup key

def forget (n : Network) : Network := { n with memory := [] }

end Network

end Apiary
