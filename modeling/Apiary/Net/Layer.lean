import Apiary.Net.Tensor

/-!
Fully connected layers with a hyperbolic tangent. The weight from input `i` to output `o` is entry
`i * outputs + o`.
-/

namespace Apiary

structure Layer where
  inputs : Nat
  outputs : Nat
  weights : Tensor
  bias : Tensor
  deriving DecidableEq

structure Snapshot where
  weights : Array Single
  bias : Array Single
  deriving DecidableEq

namespace Layer

def new (inputs outputs : Nat) (init : TensorInit) (g : Prng) :
    Except ShapeError (Layer × Prng) := do
  let (weights, g) ← Tensor.new [inputs, outputs] init g
  let bias ← Tensor.zeros [outputs]
  pure (⟨inputs, outputs, weights, bias⟩, g)

def ofParts (weights bias : Tensor) : Except ShapeError Layer :=
  match weights.shape with
  | [inputs, outputs] =>
    if bias.data.size = outputs then .ok ⟨inputs, outputs, weights, bias⟩
    else .error (.mismatch outputs bias.data.size)
  | shape => .error (.invalidShape (shape.map Int.ofNat))

def accumulate (weights : Array Single) (stride : Nat) : Nat → Single → List Single → Single
  | _, sum, [] => sum
  | k, sum, x :: rest => accumulate weights stride (k + stride) (sum + x * weights.getD k 0) rest

def output (l : Layer) (input : List Single) (o : Nat) : Single :=
  (accumulate l.weights.data l.outputs o (l.bias.data.getD o 0) input).tanh

def forward (l : Layer) (input : List Single) : Except ShapeError (List Single) :=
  if input.length = l.inputs then .ok ((List.range l.outputs).map (l.output input))
  else .error (.mismatch l.inputs input.length)

def mutationChance : Single := 0.2

def mutateEntry (intensity x : Single) (g : Prng) : Single × Prng :=
  let (touched, g) := g.chance mutationChance
  if touched then
    let (u, g) := g.unit32
    ((u - 0.5) * intensity + x, g)
  else (x, g)

def mutateTensor (intensity : Single) (t : Tensor) (g : Prng) : Tensor × Prng :=
  let (data, g) := Prng.mapArray (mutateEntry intensity) t.data g
  ({ t with data := data }, g)

def mutate (intensity : Single) (l : Layer) (g : Prng) : Layer × Prng :=
  let (weights, g) := mutateTensor intensity l.weights g
  let (bias, g) := mutateTensor intensity l.bias g
  ({ l with weights := weights, bias := bias }, g)

def snapshot (l : Layer) : Snapshot := ⟨l.weights.data, l.bias.data⟩

def revert (l : Layer) (s : Snapshot) : Layer :=
  { l with
    weights := { l.weights with data := s.weights }
    bias := { l.bias with data := s.bias } }

def isSmall (threshold x : Single) : Bool := x.abs < threshold

/-- Zeroes the weights of a magnitude below the threshold; also counts them. -/
def prune (threshold : Single) (l : Layer) : Nat × Layer :=
  let data := l.weights.data
  ((data.filter (isSmall threshold)).size,
   { l with weights :=
      { l.weights with data := data.map fun x => if isSmall threshold x then 0 else x } })

end Layer

end Apiary
