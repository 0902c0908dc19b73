import Apiary.Script.Eval

/-!
Calls of function values, and runs of whole programs. The number of active calls is part of the state; a
call beyond the limit fails before any of its body runs.
-/

namespace Apiary

def maxCallDepth : Nat := 256

namespace Act

variable {σ : Type}

def nested {α : Type} (a : Act σ α) : Act σ α := fun ⟨store, closures, scopes, depth⟩ =>
  match a ⟨store, closures, scopes, depth + 1⟩ with
  | .ok x ⟨store, closures, scopes, depth⟩ => .ok x ⟨store, closures, scopes, depth - 1⟩
  | .error e ⟨store, closures, scopes, depth⟩ => .error e ⟨store, closures, scopes, depth - 1⟩

/-- Parameters take the arguments in order; those without one are undefined. -/
def bindParams (cell : Nat) : List String → List Value → Act σ Unit
  | [], _ => pure ()
  | name :: rest, args => do
    declare cell name (args.headD .undefined) false
    bindParams cell rest args.tail

def enterCall (f : Value) (c : Closure) (args : List Value) (this : Option Value) : Act σ Env := do
  let env ← enter true c.env
  let cell := innermost env
  if c.code.arrow then pure ()
  else
    match c.code.name with
    | some name => declare cell name f false
    | none => pure ()
    declare cell "this" (this.getD .undefined) false
  bindParams cell c.code.params args
  pure env

def active : Act σ Nat := fun w => .ok w.depth w

def callClosure (s : Surroundings σ) (f : Value) (c : Closure) (args : List Value)
    (this : Option Value) : Act σ Value := do
  if maxCallDepth ≤ (← active) then fail "Maximum call stack size exceeded"
  else
    let env ← enterCall f c args this
    nested (evalBody s env c.code.body)

def callValue (s : Surroundings σ) : Calling σ := fun f args this => do
  match f with
  | .function cell _ =>
    match ← closure? cell with
    | some c => callClosure s f c args this
    | none => pure .undefined
  | .host f => lift (s.host.call f args)
  | .builtin b => builtin s.host b args
  | v => fail (notAFunction (← display v))

/-- Calls nested to a number of levels. One level more than calls may be active is never used up. -/
def calling (host : Host σ) (rounds : Nat) : Nat → Calling σ
  | 0 => fun _ _ _ => throw (.endless .limit)
  | level + 1 => callValue ⟨host, calling host rounds level, rounds⟩

def surroundings (host : Host σ) (rounds : Nat) : Surroundings σ :=
  ⟨host, calling host rounds (maxCallDepth + 1), rounds⟩

def runProgram (host : Host σ) (rounds : Nat) (p : Program) : Act σ Unit := do
  hoist globalEnv p
  match ← evalStmts (surroundings host rounds) globalEnv p with
  | .break => fail "Illegal break or continue statement"
  | .continue => fail "Illegal break or continue statement"
  | _ => pure ()

end Act

inductive Ending
  | completed
  | stopped
  | failed (message : String) (thrown : Option Value)
  | broken
  | endless

def Ending.ofInterrupt : Interrupt → Ending
  | .stopped => stopped
  | .error message thrown => failed message thrown
  | .fault => broken
  | .overlap _ _ => broken
  | .reentry _ _ => broken
  | .oversleep _ => broken
  | .endless _ => endless

def Program.run {σ : Type} (p : Program) (host : Host σ) (rounds : Nat) (start : World σ) :
    Ending × World σ :=
  match Act.runProgram host rounds p start with
  | .ok () w => (.completed, w)
  | .error e w => (.ofInterrupt e, w)

end Apiary
