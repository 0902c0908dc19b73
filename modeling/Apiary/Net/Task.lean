import Apiary.Net.Prng

/-!
Training tasks: pairs of ten inputs and four targets whose rule depends on the difficulty.
-/

namespace Apiary

inductive Tier
  | copy | negate | logic | xor | wave
  deriving DecidableEq, Repr

def Tier.name : Tier → String
  | copy => "Copy"
  | negate => "Negate"
  | logic => "Logic"
  | xor => "Xor"
  | wave => "Wave"

def Tier.ofDifficulty (d : Double) : Tier :=
  if d == 0 then .copy
  else if d == 1 then .negate
  else if d == 2 then .logic
  else if d == 3 then .xor
  else .wave

structure Example where
  input : List Single
  target : List Single

def resized (n : Nat) (xs : List Single) : List Single :=
  xs.take n ++ List.replicate (n - xs.length) 0

def Example.fitted (inputs targets : Nat) (e : Example) : Example :=
  ⟨resized inputs e.input, resized targets e.target⟩

def signOf (b : Bool) : Single := if b then 1 else -1

def tau : Single := ⟨0x40C90FDB⟩

namespace Task

def inputs : Nat := 10

def targets : Nat := 4

def padded (input target : List Single) : Example :=
  Example.fitted inputs targets ⟨input, target⟩

def signs : Nat → Prng → List Single × Prng
  | 0, g => ([], g)
  | n + 1, g =>
    let (s, g) := g.sign
    let (rest, g) := signs n g
    (s :: rest, g)

def twoSigns (f : Single → Single → List Single) (g : Prng) : Example × Prng :=
  let (a, g) := g.sign
  let (b, g) := g.sign
  (padded [a, b] (f a b), g)

def generate (difficulty : Double) (g : Prng) : Example × Prng :=
  match Tier.ofDifficulty difficulty with
  | .copy =>
    let (s, g) := signs 4 g
    (padded s s, g)
  | .negate =>
    let (s, g) := signs 4 g
    (padded s (s.map fun x => -x), g)
  | .logic =>
    twoSigns (fun a b => [signOf (0 < a && 0 < b), signOf (0 < a || 0 < b)]) g
  | .xor => twoSigns (fun a b => [signOf (a != b)]) g
  | .wave =>
    let (u, g) := g.unit32
    let phase := u * tau
    (padded [phase.sin, phase.cos] [(phase * 2).sin], g)

end Task

end Apiary
