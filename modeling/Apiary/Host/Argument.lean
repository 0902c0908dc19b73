import Apiary.Host.Desk
import Apiary.Script.Builtin
import Apiary.Net.Task

/-!
How host functions read their arguments: fields of objects with defaults, shapes, sizes and lists of
numbers.
-/

namespace Apiary.DeskAct

variable {τ : Type}

def argAt (args : List Value) (i : Nat) : Value := args.getD i .undefined

/-- A field of a plain object; other values have none. -/
def fieldOf (v : Value) (key : String) : DeskAct τ Value :=
  match v with
  | .object cell => HostAct.look fun h => ((h.object cell).lookup key).getD .undefined
  | _ => pure .undefined

def sizeOr (default : Nat) (v : Value) : DeskAct τ Nat := do
  let x ← HostAct.number v
  pure (if v.truthy && x.isFinite && (1 : Double) ≤ x then Double.toNatCapped 64 x else default)

def numberOr (default : Double) (v : Value) : DeskAct τ Double :=
  if v.truthy then HostAct.number v else pure default

def difficulty (task : Value) : DeskAct τ Double := do numberOr 0 (← fieldOf task "difficulty")

def networkConfig (v : Value) : DeskAct τ NetworkConfig := do
  let d : NetworkConfig := {}
  let inputs ← sizeOr d.inputs (← fieldOf v "in")
  let outputs ← sizeOr d.outputs (← fieldOf v "out")
  let hidden ← sizeOr d.hidden (← fieldOf v "hidden")
  let capacity ← numberOr d.capacity (← fieldOf v "capacity")
  let plasticity ← fieldOf v "plasticity"
  let plasticity ← if plasticity.truthy then HostAct.single plasticity else pure d.plasticity
  pure ⟨inputs, outputs, hidden, capacity, plasticity⟩

def numbers (v : Value) : DeskAct τ (List Double) :=
  match v with
  | .array cell => HostAct.convert [v] fun h => (h.array cell).toList.mapM h.number?
  | .floats b => HostAct.look fun h => (h.singles b).toList.map Single.widen
  | _ => pure []

def isDimension (x : Double) : Bool := x.isFinite && (1 : Double) ≤ x && Double.isWhole x

def shape (v : Value) : DeskAct τ (List Nat) := do
  let dims ← match v with
    | .number x => pure [x]
    | v => numbers v
  if !dims.isEmpty && dims.all isDimension then pure (dims.map (Double.toNatCapped 64))
  else
    HostAct.ofShape
      (.error (.invalidShape (dims.map fun x => if x.isFinite then clamp64 (Double.toInt x) else 0)))

/-- The numbers of an array, a buffer or a tensor; none otherwise. -/
def singles (v : Value) : DeskAct τ (List Single) := do
  pure ((← HostAct.convert [v] (·.numericItems? v)).getD [])

/-- The fields of a plain object; other values have none. -/
def fieldsOf (v : Value) : DeskAct τ (List (String × Value)) :=
  match v with
  | .object cell => HostAct.look fun h => h.object cell
  | _ => pure []

def network? (v : Value) : DeskAct τ (Option (Nat × Network)) :=
  match v with
  | .network cell => HostAct.look fun h => h.networks[cell]?.map fun n => (cell, n)
  | _ => pure none

def textOf? (v : Value) (key : String) : DeskAct τ (Option String) := do
  let f ← fieldOf v key
  if f.isNullish then pure none else some <$> HostAct.display f

def newObject (fields : List (String × Value)) : DeskAct τ Value :=
  HostAct.alloc (Heap.newObject fields)

def newArray (items : List Value) : DeskAct τ Value := HostAct.alloc (Heap.newArray items.toArray)

def newBuffer (xs : List Single) : DeskAct τ Value := HostAct.alloc (Heap.newBuffer xs.toArray)

def newStrings (texts : List String) : DeskAct τ Value := newArray (texts.map Value.string)

def setNetwork (cell : Nat) (n : Network) : DeskAct τ Unit := HostAct.update (·.setNetwork cell n)

def drawExample (difficulty : Double) : DeskAct τ Example := draw (Task.generate difficulty)

end Apiary.DeskAct
