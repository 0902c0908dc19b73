import Apiary.Number.Single

/-!
The random number generator: a 64-bit word stepped by three shifts, its output scrambled by one
multiplication. The state is never zero.
-/

namespace Apiary

structure Prng where
  state : UInt64
  deriving DecidableEq

namespace Prng

def goldenGamma : UInt64 := 0x9E3779B97F4A7C15

/-- A generator for a seed; the seed zero is replaced. -/
def ofSeed (seed : UInt64) : Prng := ⟨if seed = 0 then goldenGamma else seed⟩

def shiftStep (x : UInt64) : UInt64 :=
  let x := x ^^^ (x >>> 12)
  let x := x ^^^ (x <<< 25)
  x ^^^ (x >>> 27)

def step (g : Prng) : Prng := ⟨shiftStep g.state⟩

def next64 (g : Prng) : UInt64 × Prng := (g.step.state * 0x2545F4914F6CDD1D, g.step)

def mix (x : UInt64) : UInt64 :=
  let x := x + goldenGamma
  let x := (x ^^^ (x >>> 30)) * 0xBF58476D1CE4E5B9
  let x := (x ^^^ (x >>> 27)) * 0x94D049BB133111EB
  x ^^^ (x >>> 31)

def split (g : Prng) : Prng × Prng :=
  let (x, g) := g.next64
  (ofSeed (mix x), g)

def next32 (g : Prng) : UInt32 × Prng :=
  let (x, g) := g.next64
  ((x >>> 32).toUInt32, g)

def unit32 (g : Prng) : Single × Prng :=
  let (x, g) := g.next32
  (Single.ofFloat ((x >>> 8).toFloat32 / 16777216.0), g)

def unit64 (g : Prng) : Double × Prng :=
  let (x, g) := g.next64
  (Double.ofFloat ((x >>> 11).toFloat / 9007199254740992.0), g)

def range32 (low high : Single) (g : Prng) : Single × Prng :=
  let (u, g) := g.unit32
  (low + (high - low) * u, g)

/-- A whole number from `low` up to but not including `high`, by the remainder of a 32-bit draw. An
empty range gives `low` without a draw. The width is cut to 32 bits; there is no answer when those are
all zero. -/
def rangeNat? (low high : Nat) (g : Prng) : Option (Nat × Prng) :=
  if high ≤ low then some (low, g)
  else
    let span := (high - low) % twoTo 32
    if span = 0 then none
    else
      let (x, g) := g.next32
      some (low + x.toNat % span, g)

def chance (p : Single) (g : Prng) : Bool × Prng :=
  let (u, g) := g.unit32
  (u < p, g)

def sign (g : Prng) : Single × Prng :=
  let (u, g) := g.unit32
  (if (0.5 : Single) < u then 1 else -1, g)

def pi : Double := ⟨0x400921FB54442D18⟩

def normal (mean deviation : Double) (g : Prng) : Double × Prng :=
  let (u, g) := g.unit64
  let (v, g) := g.unit64
  let z := (-2.0 * Double.log (1.0 - u)).sqrt * Double.cos (2.0 * pi * v)
  (z * deviation + mean, g)

def mapList {α β : Type} (f : α → Prng → β × Prng) : List α → Prng → List β × Prng
  | [], g => ([], g)
  | a :: rest, g =>
    let (b, g) := f a g
    let (rest, g) := mapList f rest g
    (b :: rest, g)

def mapArray {α β : Type} (f : α → Prng → β × Prng) (xs : Array α) (g : Prng) : Array β × Prng :=
  xs.foldl (fun (ys, g) x => let (y, g) := f x g; (ys.push y, g)) (#[], g)

theorem size_mapArray {α β : Type} (f : α → Prng → β × Prng) (xs : Array α) (g : Prng) :
    (mapArray f xs g).1.size = xs.size := by
  unfold mapArray
  apply Array.foldl_induction (fun i (r : Array β × Prng) => r.1.size = i)
  · rfl
  · intro i r h
    simp [h]

end Prng

end Apiary
