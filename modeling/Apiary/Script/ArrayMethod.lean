import Apiary.Script.Property
import Apiary.Script.TextMethod

/-!
The methods of arrays and float buffers. A method that calls back works on the items as they were when
it was called. Methods of a buffer that have no form of their own work on a copy of its numbers.
-/

namespace Apiary

abbrev Calling (σ : Type) := Value → List Value → Option Value → Act σ Value

namespace Act

variable {σ : Type}

def notAFunction (what : String) : String := what ++ " is not a function"

def invoke (call : Calling σ) (f : Value) (args : List Value) : Act σ Value := do
  if f.isCallable then call f args none else fail (notAFunction (← display f))

inductive Next (β : Type)
  | go (state : β)
  | done (value : Value)

def walk {β : Type} (round : β → Nat → Value → Act σ (Next β)) :
    Nat → β → List Value → Act σ (Next β)
  | _, state, [] => pure (.go state)
  | i, state, v :: rest => do
    match ← round state i v with
    | .done value => pure (.done value)
    | .go state => walk round (i + 1) state rest

def walkArray {β : Type} (call : Calling σ) (cell : Nat) (callback : Value)
    (round : β → Nat → Value → Value → Next β) (start : β) (finish : β → Act σ Value) :
    Act σ Value := do
  let items ← look (·.array cell)
  let step (state : β) (i : Nat) (v : Value) : Act σ (Next β) := do
    let r ← invoke call callback [v, .ofNat i, .array cell]
    pure (round state i v r)
  match ← walk step 0 start items.toList with
  | .done value => pure value
  | .go state => finish state

def mapMethod (call : Calling σ) (cell : Nat) (callback : Value) : Act σ Value :=
  walkArray call cell callback (fun out _ _ r => .go (out.push r)) #[] newArray

def filterMethod (call : Calling σ) (cell : Nat) (callback : Value) : Act σ Value :=
  walkArray call cell callback (fun out _ v r => .go (if r.truthy then out.push v else out)) #[]
    newArray

def searchMethod (call : Calling σ) (cell : Nat) (callback : Value) (wanted : Bool)
    (found : Nat → Value → Value) (missing : Value) : Act σ Value :=
  walkArray call cell callback
    (fun _ i v r => if r.truthy = wanted then .done (found i v) else .go ()) ()
    (fun _ => pure missing)

def forEachMethod (call : Calling σ) (cell : Nat) (callback : Value) : Act σ Value :=
  walkArray call cell callback (fun _ _ _ _ => .go ()) () (fun _ => pure .undefined)

def reduceFrom (call : Calling σ) (cell : Nat) (callback : Value) (i : Nat) (start : Value)
    (items : List Value) : Act σ Value := do
  let step (acc : Value) (i : Nat) (v : Value) : Act σ (Next Value) := do
    let r ← invoke call callback [acc, v, .ofNat i, .array cell]
    pure (.go r)
  match ← walk step i start items with
  | .done value => pure value
  | .go acc => pure acc

def reduceMethod (call : Calling σ) (cell : Nat) (args : List Value) : Act σ Value := do
  let items := (← look (·.array cell)).toList
  let callback := argAt args 0
  match args, items with
  | _ :: start :: _, items => reduceFrom call cell callback 0 start items
  | _, first :: rest => reduceFrom call cell callback 1 first rest
  | _, [] => fail "Reduce of empty array with no initial value"

/-- Merges two sorted lists, taking from the right only when its item comes first. `done` holds the
merged items in reverse. -/
def merge (rightFirst : Value → Value → Act σ Bool) :
    Nat → List Value → List Value → List Value → Act σ (List Value)
  | n + 1, done, a :: left, b :: right => do
    if ← rightFirst a b then merge rightFirst n (b :: done) (a :: left) right
    else merge rightFirst n (a :: done) left (b :: right)
  | _, done, left, right => pure (done.reverse ++ left ++ right)

def mergeSort (rightFirst : Value → Value → Act σ Bool) : Nat → List Value → Act σ (List Value)
  | 0, items => pure items
  | n + 1, items =>
    if items.length ≤ 1 then pure items
    else do
      let half := items.length / 2
      let left ← mergeSort rightFirst n (items.take half)
      let right ← mergeSort rightFirst n (items.drop half)
      merge rightFirst items.length [] left right

def comesBefore (call : Calling σ) (comparator a b : Value) : Act σ Bool := do
  if comparator.isCallable then
    let r ← invoke call comparator [a, b]
    pure (decide ((0 : Double) < (← number r)))
  else
    let s ← display a
    let t ← display b
    pure (decide (t < s))

def sortMethod (call : Calling σ) (cell : Nat) (comparator : Value) : Act σ Value := do
  let items := (← look (·.array cell)).toList
  let sorted ← mergeSort (comesBefore call comparator) items.length items
  update (·.setArray cell sorted.toArray)
  pure (.array cell)

def displayItems : List Value → Act σ (List String)
  | [] => pure []
  | v :: rest => do
    let s ← if v.isNullish then pure "" else display v
    let ss ← displayItems rest
    pure (s :: ss)

def sameValue (v w : Value) : Bool :=
  match v, w with
  | .number x, .number y => (x.isNaN && y.isNaN) || x == y
  | v, w => v.strictEq w

def popMethod (cell : Nat) : Act σ Value := do
  let last ← look fun h => (h.array cell).back?
  update (·.modifyArray cell Array.pop)
  pure (last.getD .undefined)

def shiftMethod (cell : Nat) : Act σ Value := do
  let first ← look fun h => (h.array cell)[0]?
  update (·.modifyArray cell fun items => items.extract 1 items.size)
  pure (first.getD .undefined)

def spread (h : Heap) (v : Value) : List Value :=
  match v with
  | .array cell => (h.array cell).toList
  | .floats b => (h.singles b).toList.map Value.ofSingle
  | v => [v]

def arraySize (cell : Nat) : Act σ Value := look fun h => .ofNat (h.array cell).size

def sliceArray (cell : Nat) (args : List Value) : Act σ Value := do
  let items := (← look (·.array cell)).toList
  let start ← positionArg (relativePosition items.length) 0 args 0
  let stop ← positionArg (relativePosition items.length) items.length args 1
  newArray (sliceList start stop items).toArray

def arrayMethod (call : Calling σ) (cell : Nat) (name : String) (args : List Value) :
    Act σ (Option Value) := do
  let callback := argAt args 0
  match name with
  | "push" =>
    update (·.modifyArray cell (· ++ args.toArray))
    some <$> arraySize cell
  | "pop" => some <$> popMethod cell
  | "shift" => some <$> shiftMethod cell
  | "unshift" =>
    update (·.modifyArray cell (args.toArray ++ ·))
    some <$> arraySize cell
  | "join" =>
    let sep ← displayArgOr "," args 0
    let texts ← displayItems (← look (·.array cell)).toList
    pure (some (.string (sep.intercalate texts)))
  | "toString" => some <$> .string <$> display (.array cell)
  | "includes" =>
    some <$> look fun h => .bool ((h.array cell).any (sameValue · callback))
  | "indexOf" =>
    some <$> look fun h => positionValue ((h.array cell).findIdx? (·.strictEq callback))
  | "slice" => some <$> sliceArray cell args
  | "concat" =>
    some <$> alloc fun h =>
      h.newArray (h.array cell ++ (args.flatMap (spread h)).toArray)
  | "reverse" =>
    update (·.modifyArray cell Array.reverse)
    pure (some (.array cell))
  | "fill" =>
    update (·.modifyArray cell fun items => Array.replicate items.size callback)
    pure (some (.array cell))
  | "map" => some <$> mapMethod call cell callback
  | "forEach" => some <$> forEachMethod call cell callback
  | "filter" => some <$> filterMethod call cell callback
  | "find" => some <$> searchMethod call cell callback true (fun _ v => v) .undefined
  | "findIndex" =>
    some <$> searchMethod call cell callback true (fun i _ => .ofNat i) (.number (-1))
  | "some" => some <$> searchMethod call cell callback true (fun _ _ => .bool true) (.bool false)
  | "every" => some <$> searchMethod call cell callback false (fun _ _ => .bool false) (.bool true)
  | "reduce" => some <$> reduceMethod call cell args
  | "sort" => some <$> sortMethod call cell callback
  | _ => pure none

def readsBuffer (h : Heap) (buffer : Nat) : Nat → Value → Bool
  | _, .floats (.own cell) => cell = buffer
  | fuel + 1, .array cell =>
    match (h.array cell).toList with
    | [v] => readsBuffer h buffer fuel v
    | _ => false
  | _, _ => false

def apart (buffer : Nat) (v : Value) : Act σ Unit := fun w =>
  if readsBuffer w.heap buffer w.heap.depthBound v then .error (.overlap buffer v) w else .ok () w

/-- Adds numbers to a buffer. The buffer is taken apart meanwhile, so an argument that has to read it
breaks the run. -/
def pushSingles (buffer : Nat) : List Value → Act σ Unit
  | [] => pure ()
  | v :: rest => do
    apart buffer v
    let x ← single v
    update (·.modifyBuffer buffer (·.push x))
    pushSingles buffer rest

def singlesSize (b : FloatBuffer) : Act σ Value := look fun h => .ofNat (h.singles b).size

def fillSingles (b : FloatBuffer) (x : Single) (h : Heap) : Heap :=
  match b with
  | .own cell => h.modifyBuffer cell fun data => Array.replicate data.size x
  | .entries cell =>
    { h with tensors := h.tensors.modify cell fun t =>
        { t with data := Array.replicate t.data.size x } }

def toBuffer (v : Value) : Act σ Value := do
  match ← convert [v] (·.numericItems? v) with
  | some xs => alloc (Heap.newBuffer xs.toArray)
  | none => pure v

def copiedMethod (call : Calling σ) (b : FloatBuffer) (name : String) (args : List Value) :
    Act σ (Option Value) := do
  let copy ← alloc fun h => (h.arrays.size,
    { h with arrays := h.arrays.push ((h.singles b).map Value.ofSingle) })
  match ← arrayMethod call copy name args with
  | none => pure none
  | some v =>
    if name = "slice" ∨ name = "map" ∨ name = "filter" then some <$> toBuffer v else pure (some v)

def floatsMethod (call : Calling σ) (b : FloatBuffer) (name : String) (args : List Value) :
    Act σ (Option Value) := do
  match name, b with
  | "push", .own cell =>
    pushSingles cell args
    some <$> singlesSize b
  | "pop", .own cell =>
    let last ← look fun h => (h.singles b).back?
    update (·.modifyBuffer cell Array.pop)
    pure (some ((last.map Value.ofSingle).getD .undefined))
  | "shift", .own cell =>
    let first ← look fun h => (h.singles b)[0]?
    update (·.modifyBuffer cell fun data => data.extract 1 data.size)
    pure (some ((first.map Value.ofSingle).getD .undefined))
  | "push", .entries _ => fail "Cannot resize a tensor's data buffer"
  | "pop", .entries _ => fail "Cannot resize a tensor's data buffer"
  | "shift", .entries _ => fail "Cannot resize a tensor's data buffer"
  | "fill", b =>
    let x ← single (argAt args 0)
    update (fillSingles b x)
    pure (some (.floats b))
  | name, b => copiedMethod call b name args

end Act

end Apiary
