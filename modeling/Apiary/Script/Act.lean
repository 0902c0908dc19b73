import Apiary.Script.Convert
import Apiary.Script.Environment

/-!
Running code: what a script acts on, what can cut it short, and the host that it runs in. Conversions
become steps that may not end. Names are looked up, assigned and declared in scopes.
-/

namespace Apiary

/-- Why an evaluation would not come to an end. -/
inductive Endless
  /-- A bound on the rounds of a loop or on the levels of calls is used up. -/
  | limit
  /-- One of the values, which were to be converted, holds a container that contains itself. -/
  | conversion (values : List Value)
  /-- An item was to be written at a position whose number is again the name of a position. -/
  | position (i : Nat)
  /-- Nobody answers a prompt. -/
  | waiting
  /-- A run that does not end has no outcome. -/
  | run

/-- Why an evaluation has no value. -/
inductive Interrupt
  /-- The host asked for an end. -/
  | stopped
  /-- A script error, with the value thrown when script code threw it. -/
  | error (message : String) (thrown : Option Value)
  /-- The host broke down; nothing more of the script runs. -/
  | fault
  /-- A buffer that is taken apart was to be read for the number of a value. -/
  | overlap (buffer : Nat) (value : Value)
  /-- A network that is taken apart was to be read for the data of a value. -/
  | reentry (network : Nat) (value : Value)
  /-- A sleep was to last beyond every clock. -/
  | oversleep (ms : Double)
  | endless (cause : Endless)

structure Store (σ : Type) where
  heap : Heap
  host : σ

structure World (σ : Type) extends Store σ where
  closures : Array Closure
  scopes : Scopes
  depth : Nat

abbrev HostAct (σ : Type) := EStateM Interrupt (Store σ)

abbrev Act (σ : Type) := EStateM Interrupt (World σ)

structure Host (σ : Type) where
  call : HostFunction → List Value → HostAct σ Value
  /-- Called at the start of every round of a loop; the place where a stop shows. -/
  checkpoint : EStateM Interrupt σ Unit
  random : σ → Double × σ
  clock : σ → Nat
  log : String → EStateM Interrupt σ Unit

def Interrupt.message (text : String) : Interrupt := .error text none

namespace HostAct

variable {σ α : Type}

def fail (text : String) : HostAct σ α := throw (.message text)

def heap : HostAct σ Heap := fun s => .ok s.heap s

/-- A conversion of some values; without an answer the act does not end. -/
def convert (values : List Value) (f : Heap → Option α) : HostAct σ α := fun s =>
  match f s.heap with
  | some a => .ok a s
  | none => .error (.endless (.conversion values)) s

def alloc (f : Heap → α × Heap) : HostAct σ α := fun ⟨heap, host⟩ =>
  let (a, heap) := f heap
  .ok a ⟨heap, host⟩

def update (f : Heap → Heap) : HostAct σ Unit := fun ⟨heap, host⟩ => .ok () ⟨f heap, host⟩

def look (f : Heap → α) : HostAct σ α := fun s => .ok (f s.heap) s

def number (v : Value) : HostAct σ Double := convert [v] (·.number? v)

def single (v : Value) : HostAct σ Single := do pure (Double.narrow (← number v))

def display (v : Value) : HostAct σ String := convert [v] (·.display? v)

def json (v : Value) : HostAct σ Json := convert [v] (·.json? v)

def ofShape (r : Except ShapeError α) : HostAct σ α :=
  match r with
  | .ok a => pure a
  | .error e => fail e.message

def own (a : EStateM Interrupt σ α) : HostAct σ α := fun ⟨heap, host⟩ =>
  match a host with
  | .ok x host => .ok x ⟨heap, host⟩
  | .error e host => .error e ⟨heap, host⟩

end HostAct

namespace Act

variable {σ α : Type}

def fail (text : String) : Act σ α := throw (.message text)

def lift (a : HostAct σ α) : Act σ α := fun ⟨store, closures, scopes, depth⟩ =>
  match a store with
  | .ok x store => .ok x ⟨store, closures, scopes, depth⟩
  | .error e store => .error e ⟨store, closures, scopes, depth⟩

def convert (values : List Value) (f : Heap → Option α) : Act σ α := fun w =>
  match f w.heap with
  | some a => .ok a w
  | none => .error (.endless (.conversion values)) w

def look (f : Heap → α) : Act σ α := fun w => .ok (f w.heap) w

def alloc (f : Heap → α × Heap) : Act σ α := fun ⟨⟨heap, host⟩, closures, scopes, depth⟩ =>
  let (a, heap) := f heap
  .ok a ⟨⟨heap, host⟩, closures, scopes, depth⟩

def update (f : Heap → Heap) : Act σ Unit := fun ⟨⟨heap, host⟩, closures, scopes, depth⟩ =>
  .ok () ⟨⟨f heap, host⟩, closures, scopes, depth⟩

def lookScopes (f : Scopes → α) : Act σ α := fun w => .ok (f w.scopes) w

def updateScopes (f : Scopes → Scopes) : Act σ Unit := fun ⟨store, closures, scopes, depth⟩ =>
  .ok () ⟨store, closures, f scopes, depth⟩

def newScope (f : Scopes → Scope) : Act σ Nat := fun ⟨store, closures, scopes, depth⟩ =>
  let s := f scopes
  .ok scopes.size ⟨store, closures, scopes.push s, depth⟩

def newClosure (c : Closure) : Act σ Value := fun ⟨store, closures, scopes, depth⟩ =>
  .ok (.function closures.size c.code.name) ⟨store, closures.push c, scopes, depth⟩

def closure? (cell : Nat) : Act σ (Option Closure) := fun w => .ok w.closures[cell]? w

def number (v : Value) : Act σ Double := convert [v] (·.number? v)

def single (v : Value) : Act σ Single := do pure (Double.narrow (← number v))

def display (v : Value) : Act σ String := convert [v] (·.display? v)

def checkpoint (host : Host σ) : Act σ Unit := lift (HostAct.own host.checkpoint)

def log (host : Host σ) (line : String) : Act σ Unit := lift (HostAct.own (host.log line))

def random (host : Host σ) : Act σ Double := lift fun ⟨heap, s⟩ =>
  let (x, s) := host.random s
  .ok x ⟨heap, s⟩

def clock (host : Host σ) : Act σ Nat := fun w => .ok (host.clock w.host) w

def attempt {α : Type} (a : Act σ α) : Act σ (Except Interrupt α) := fun w =>
  match a w with
  | .ok x w => .ok (.ok x) w
  | .error e w => .ok (.error e) w

def numericItems (what : String) (v : Value) : Act σ (List Single) := do
  match ← convert [v] (·.numericItems? v) with
  | some xs => pure xs
  | none => fail (what ++ " expects a numeric array")

def ofShape (r : Except ShapeError α) : Act σ α :=
  match r with
  | .ok a => pure a
  | .error e => fail e.message

def undefinedName (name : String) : String := name ++ " is not defined"

def lookup (name : String) (env : Env) : Act σ Value := do
  match ← lookScopes (·.lookup? name env) with
  | some v => pure v
  | none => fail (undefinedName name)

def assign (name : String) (value : Value) (env : Env) : Act σ Unit := do
  match ← lookScopes (·.binding? name env) with
  | none => fail (undefinedName name)
  | some (cell, b) =>
    if b.constant then fail "Assignment to constant variable."
    else updateScopes (·.declare cell name value false)

def declare (cell : Nat) (name : String) (value : Value) (constant : Bool) : Act σ Unit :=
  updateScopes (·.declare cell name value constant)

def enter (ofFunction : Bool) (env : Env) : Act σ Env := do
  let cell ← newScope fun _ => ⟨[], ofFunction⟩
  pure (cell :: env)

def fork (env : Env) : Act σ Env := do
  match env with
  | [] => enter false []
  | cell :: rest =>
    let copy ← newScope fun scopes => scopes[cell]?.getD ⟨[], false⟩
    pure (copy :: rest)

end Act

end Apiary
