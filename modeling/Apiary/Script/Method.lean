import Apiary.Script.Builtin

/-!
Method calls: which method a name stands for depends on what it is called on.
-/

namespace Apiary.Act

variable {σ : Type}

def forwardNetwork (cell : Nat) (args : List Value) : Act σ Value := do
  let input ← numericItems "forward" (argAt args 0)
  match ← look (·.networks[cell]?) with
  | none => pure .undefined
  | some n =>
    let out ← ofShape (n.forward input)
    alloc (Heap.newBuffer out.toArray)

def expandNetwork (host : Host σ) (cell : Nat) : Act σ Value := do
  let now ← clock host
  match ← look (·.networks[cell]?) with
  | none => pure .undefined
  | some n =>
    let grown ← ofShape (n.expand now)
    update (·.setNetwork cell grown)
    pure (.bool true)

def pruneNetwork (cell : Nat) (threshold : Single) : Act σ Value := do
  match ← look (·.networks[cell]?) with
  | none => pure .undefined
  | some n =>
    let (count, pruned) := n.prune threshold
    update (·.setNetwork cell pruned)
    pure (.ofNat count)

def mutateNetwork (cell : Nat) (rate : Single) : Act σ Value := do
  update fun h => { h with networks := h.networks.modify cell (·.mutate rate) }
  pure .undefined

def networkMethod (host : Host σ) (cell : Nat) (name : String) (args : List Value) :
    Act σ (Option Value) := do
  match name with
  | "forward" => some <$> forwardNetwork cell args
  | "expand" => some <$> expandNetwork host cell
  | "pruneWeights" =>
    let threshold ← single (argAt args 0)
    some <$> pruneNetwork cell threshold
  | "mutate" =>
    let rate ← single (argAt args 0)
    some <$> mutateNetwork cell rate
  | _ => pure none

def forwardLayer (cell : Nat) (args : List Value) : Act σ Value := do
  let input ← numericItems "forward" (argAt args 0)
  match ← look (·.layers[cell]?) with
  | none => pure .undefined
  | some l =>
    let out ← ofShape (l.forward input)
    alloc (Heap.newBuffer out.toArray)

def pruneLayer (cell : Nat) (threshold : Single) : Act σ Value := do
  match ← look (·.layers[cell]?) with
  | none => pure .undefined
  | some l =>
    let (count, pruned) := l.prune threshold
    update (·.setLayer cell pruned)
    pure (.ofNat count)

def layerMethod (cell : Nat) (name : String) (args : List Value) : Act σ (Option Value) := do
  match name with
  | "forward" => some <$> forwardLayer cell args
  | "prune" =>
    let threshold ← single (argAt args 0)
    some <$> pruneLayer cell threshold
  | _ => pure none

def callWithReceiver (call : Calling σ) (f : Value) (args : List Value) : Act σ Value :=
  call f args.tail args.head?

/-- The method of a value under a name, called; none when there is no such method. -/
def method? (host : Host σ) (call : Calling σ) (this : Value) (name : String)
    (args : List Value) : Act σ (Option Value) := do
  match this with
  | .object cell =>
    let f ← look fun h => ((h.object cell).lookup name).getD .undefined
    if f.isCallable then some <$> call f args (some this) else pure none
  | .host f =>
    match f.member? name with
    | some member => some <$> lift (host.call member args)
    | none => pure none
  | .number x => numberMethod x name args
  | .string s => stringMethod s name args
  | .array cell => arrayMethod call cell name args
  | .floats b => floatsMethod call b name args
  | .network cell => networkMethod host cell name args
  | .layer cell => layerMethod cell name args
  | .function .. =>
    if name = "call" then some <$> callWithReceiver call this args else pure none
  | .builtin _ =>
    if name = "call" then some <$> callWithReceiver call this args else pure none
  | _ => pure none

/-- Calls a method; `what` is how the error names what was called. -/
def callMethod (host : Host σ) (call : Calling σ) (this : Value) (name : String)
    (args : List Value) (what : String) : Act σ Value := do
  match this with
  | .undefined => fail (cannotRead "undefined" name)
  | .null => fail (cannotRead "null" name)
  | this =>
    match ← method? host call this name args with
    | some v => pure v
    | none => fail (notAFunction what)

end Apiary.Act
