import Apiary.Net.Prng

/-!
Numeric buffers of a fixed shape, and what can be wrong with a shape.
-/

namespace Apiary

inductive ShapeError
  | invalidShape (dims : List Int)
  | mismatch (expected got : Nat)
  | tooLarge (dims : List Nat)
  deriving DecidableEq, Repr

def maxElements : Nat := twoTo 26

def dimsText (dims : List String) : String := "[" ++ ", ".intercalate dims ++ "]"

/-- The signed word nearest to a number. -/
def clamp64 (d : Int) : Int := max (-(twoTo 63 : Int)) (min d (twoTo 63 - 1 : Nat))

def ShapeError.message : ShapeError → String
  | .invalidShape dims =>
    "Invalid tensor shape " ++ dimsText (dims.map toString) ++ ": every dimension must be positive"
  | .mismatch expected got =>
    "Dimension mismatch: expected " ++ toString expected ++ ", got " ++ toString got
  | .tooLarge dims =>
    "Tensor shape " ++ dimsText (dims.map toString) ++ " exceeds the limit of " ++ toString maxElements
      ++ " elements"

def checkedProduct : Nat → List Nat → Option Nat
  | product, [] => some product
  | product, d :: rest =>
    if product * d < twoTo 64 then checkedProduct (product * d) rest else none

def elementCount (shape : List Nat) : Except ShapeError Nat :=
  if shape.isEmpty || shape.contains 0 then .error (.invalidShape (shape.map fun d : Nat => clamp64 d))
  else
    match checkedProduct 1 shape with
    | some n => if n ≤ maxElements then .ok n else .error (.tooLarge shape)
    | none => .error (.tooLarge shape)

inductive TensorInit
  | zeros | random | identity
  deriving DecidableEq, Repr

def TensorInit.ofName? : String → Option TensorInit
  | "zeros" => some .zeros
  | "rand" => some .random
  | "random" => some .random
  | "identity" => some .identity
  | "eye" => some .identity
  | _ => none

def TensorInit.name : TensorInit → String
  | .zeros => "zeros"
  | .random => "random"
  | .identity => "identity"

structure Tensor where
  shape : List Nat
  data : Array Single
  deriving DecidableEq

namespace Tensor

def isSquare : List Nat → Bool
  | [m, n] => m = n
  | _ => false

def scale (shape : List Nat) : Single :=
  (2.0 / Single.ofNat (shape.headD 0)).sqrt

def drawEntries (scale : Single) : Nat → Array Single → Prng → Array Single × Prng
  | 0, drawn, g => (drawn, g)
  | n + 1, drawn, g =>
    let (u, g) := g.range32 (-1) 1
    drawEntries scale n (drawn.push (u * scale)) g

theorem size_drawEntries (scale : Single) :
    ∀ (n : Nat) (drawn : Array Single) (g : Prng),
      (drawEntries scale n drawn g).1.size = drawn.size + n
  | 0, _, _ => rfl
  | n + 1, drawn, g => by
    rw [drawEntries, size_drawEntries scale n]
    simp only [Array.size_push]
    omega

def identityEntries (n : Nat) : Array Single :=
  (Array.range (n * n)).map fun k => if k / n = k % n then 1 else 0

/-- The entries of a new tensor. An identity that is not square is filled at random. -/
def entries (shape : List Nat) (count : Nat) (init : TensorInit) (g : Prng) :
    Array Single × Prng :=
  match init with
  | .zeros => (Array.replicate count 0, g)
  | .random => drawEntries (scale shape) count #[] g
  | .identity =>
    if isSquare shape then (identityEntries (shape.headD 0), g)
    else drawEntries (scale shape) count #[] g

def new (shape : List Nat) (init : TensorInit) (g : Prng) : Except ShapeError (Tensor × Prng) := do
  let count ← elementCount shape
  let (data, g) := entries shape count init g
  pure (⟨shape, data⟩, g)

def zeros (shape : List Nat) : Except ShapeError Tensor := do
  let count ← elementCount shape
  pure ⟨shape, Array.replicate count 0⟩

def ofEntries (shape : List Nat) (data : Array Single) : Except ShapeError Tensor := do
  let count ← elementCount shape
  if data.size = count then pure ⟨shape, data⟩ else .error (.mismatch count data.size)

end Tensor

end Apiary
