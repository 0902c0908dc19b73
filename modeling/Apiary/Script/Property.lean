import Apiary.Script.Act

/-!
Reading and writing properties and elements of values.
-/

namespace Apiary

def maxArrayLength : Nat := twoTo 24

def positionOfName? (key : String) : Option Nat := unsigned? 10 (twoTo 64) key.toList

def resizedArray {α : Type} (a : Array α) (n : Nat) (fill : α) : Array α :=
  if n < a.size then a.extract 0 n else a ++ Array.replicate (n - a.size) fill

namespace Act

variable {σ : Type}

def newArray (items : Array Value) : Act σ Value := alloc (Heap.newArray items)

def itemAt (items : Array Value) (i : Nat) : Value := items.getD i .undefined

def singleAt (xs : Array Single) (i : Nat) : Value := (xs[i]?.map Value.ofSingle).getD .undefined

def charAt? (s : String) (i : Nat) : Option Char := s.toList[i]?

def sequenceProperty (length : Nat) (item : Nat → Value) (key : String) : Value :=
  if key = "length" then .ofNat length
  else ((positionOfName? key).map item).getD .undefined

def tensorProperty (cell : Nat) (key : String) : Act σ Value := do
  let t := (← look (·.tensors[cell]?)).getD ⟨[], #[]⟩
  match key with
  | "shape" => newArray (t.shape.map Value.ofNat).toArray
  | "data" => pure (.floats (.entries cell))
  | "size" => pure (.ofNat t.data.size)
  | "length" => pure (.ofNat t.data.size)
  | _ => pure .undefined

def layerProperty (l : Layer) (key : String) : Act σ Value := do
  match key with
  | "inSize" => pure (.ofNat l.inputs)
  | "outSize" => pure (.ofNat l.outputs)
  | "weights" => alloc (Heap.newTensor l.weights)
  | "bias" => alloc (Heap.newTensor l.bias)
  | _ => pure .undefined

def newLayers : List Layer → Act σ (List Value)
  | [] => pure []
  | l :: rest => do
    let v ← alloc (Heap.newLayer l)
    let vs ← newLayers rest
    pure (v :: vs)

def networkProperty (n : Network) (key : String) : Act σ Value := do
  match key with
  | "name" => pure (.string n.name)
  | "plasticity" => pure (.ofSingle n.plasticity)
  | "satisfaction" => pure (.ofSingle n.satisfaction)
  | "capacity" => pure (.number n.capacity)
  | "depth" => pure (.ofNat n.depth)
  | "layers" => newArray (← newLayers n.layers).toArray
  | "lastExpansion" => pure (.ofNat n.lastExpansion)
  | _ => pure .undefined

def cannotRead (what key : String) : String :=
  "Cannot read properties of " ++ what ++ " (reading '" ++ key ++ "')"

def cannotSet (what key : String) : String :=
  "Cannot set properties of " ++ what ++ " (setting '" ++ key ++ "')"

def getProperty (obj : Value) (key : String) : Act σ Value := do
  match obj with
  | .undefined => fail (cannotRead "undefined" key)
  | .null => fail (cannotRead "null" key)
  | .object cell => look fun h => ((h.object cell).lookup key).getD .undefined
  | .array cell => look fun h =>
    let items := h.array cell
    sequenceProperty items.size (itemAt items) key
  | .floats b => look fun h =>
    let xs := h.singles b
    sequenceProperty xs.size (singleAt xs) key
  | .string s =>
    pure (sequenceProperty s.length (fun i => ((charAt? s i).map Value.ofChar).getD .undefined) key)
  | .tensor cell => tensorProperty cell key
  | .layer cell =>
    match ← look (·.layers[cell]?) with
    | some l => layerProperty l key
    | none => pure .undefined
  | .network cell =>
    match ← look (·.networks[cell]?) with
    | some n => networkProperty n key
    | none => pure .undefined
  | .host f => pure (((f.member? key).map .host).getD .undefined)
  | _ => pure .undefined

def getIndex (obj key : Value) : Act σ Value := do
  match obj, key.index? with
  | .array cell, some i => look fun h => itemAt (h.array cell) i
  | .floats b, some i => look fun h => singleAt (h.singles b) i
  | obj, _ => getProperty obj (← display key)

def invalidLength : String := "Invalid array length"

def setItem (cell i : Nat) (value : Value) : Act σ Unit :=
  if maxArrayLength ≤ i then fail invalidLength
  else update (·.modifyArray cell fun items =>
    if i < items.size then items.setIfInBounds i value
    else (resizedArray items i .undefined).push value)

/-- A position that came as text is written through the nearest number. A number from `9 * 10 ^ 15` on is
no position but a name again, whose text is that of a position: such a write goes round forever, except
that the text of `2 ^ 64` is too large to be one. -/
def setNamedItem (cell i : Nat) (value : Value) : Act σ Unit :=
  let x := Double.ofNat i
  if x < 9.0e15 then setItem cell i value
  else if x < 18446744073709551616.0 then throw (.endless (.position i))
  else pure ()

def setLength (cell : Nat) (value : Value) : Act σ Unit :=
  match value.index? with
  | some n =>
    if n ≤ maxArrayLength then update (·.modifyArray cell (resizedArray · n .undefined))
    else fail invalidLength
  | none => fail invalidLength

def setNetworkProperty (cell : Nat) (key : String) (value : Value) : Act σ Unit := do
  match key with
  | "plasticity" =>
    let x ← single value
    update fun h => { h with networks := h.networks.modify cell ({ · with plasticity := x }) }
  | "satisfaction" =>
    let x ← single value
    update fun h => { h with networks := h.networks.modify cell ({ · with satisfaction := x }) }
  | "capacity" =>
    let x ← number value
    update fun h => { h with networks := h.networks.modify cell ({ · with capacity := x }) }
  | _ => pure ()

def setProperty (obj : Value) (key : String) (value : Value) : Act σ Unit := do
  match obj with
  | .undefined => fail (cannotSet "undefined" key)
  | .null => fail (cannotSet "null" key)
  | .object cell => update (·.modifyObject cell (setField key value))
  | .array cell =>
    if key = "length" then setLength cell value
    else
      match positionOfName? key with
      | some i => setNamedItem cell i value
      | none => pure ()
  | .floats b =>
    match positionOfName? key with
    | some i =>
      let x ← single value
      update (·.setSingle b i x)
    | none => pure ()
  | .network cell => setNetworkProperty cell key value
  | _ => pure ()

def setIndex (obj key value : Value) : Act σ Unit := do
  match obj, key.index? with
  | .array cell, some i => setItem cell i value
  | .floats b, some i =>
    let x ← single value
    update (·.setSingle b i x)
  | obj, _ => setProperty obj (← display key) value

end Act

end Apiary
