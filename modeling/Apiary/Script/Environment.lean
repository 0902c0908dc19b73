import Apiary.Script.Value

/-!
Scopes and the environments made of them. Code sees a name through the scopes of its environment, the
innermost first; the nearest binding counts.
-/

namespace Apiary

abbrev Env := List Nat

structure Closure where
  code : FunctionLiteral
  env : Env

structure Binding where
  value : Value
  constant : Bool

/-- The bindings of one scope. Declarations with `var` go to the nearest function scope. -/
structure Scope where
  bindings : List (String × Binding)
  ofFunction : Bool

namespace Scope

def binding? (s : Scope) (name : String) : Option Binding := s.bindings.lookup name

def has (s : Scope) (name : String) : Bool := (s.binding? name).isSome

def declare (name : String) (b : Binding) (s : Scope) : Scope :=
  { s with bindings := replaced name b s.bindings }
where
  /-- Changes the binding in place; a new one goes to the front. -/
  replaced (name : String) (b : Binding) (bindings : List (String × Binding)) :
      List (String × Binding) :=
    if (bindings.lookup name).isSome then setField name b bindings else (name, b) :: bindings

end Scope

abbrev Scopes := Array Scope

namespace Scopes

def binding? (scopes : Scopes) (name : String) : Env → Option (Nat × Binding)
  | [] => none
  | cell :: rest =>
    match scopes[cell]?.bind (·.binding? name) with
    | some b => some (cell, b)
    | none => binding? scopes name rest

def lookup? (scopes : Scopes) (name : String) (env : Env) : Option Value :=
  (scopes.binding? name env).map fun (_, b) => b.value

def declare (cell : Nat) (name : String) (value : Value) (constant : Bool) (scopes : Scopes) :
    Scopes :=
  scopes.modify cell (Scope.declare name ⟨value, constant⟩)

def functionScope (scopes : Scopes) : Env → Nat
  | [] => 0
  | [cell] => cell
  | cell :: rest =>
    if (scopes[cell]?.map (·.ofFunction)).getD false then cell else functionScope scopes rest

def hasOwn (scopes : Scopes) (cell : Nat) (name : String) : Bool :=
  (scopes[cell]?.map (·.has name)).getD false

def globalCell : Nat := 0

end Scopes

def innermost (env : Env) : Nat := env.headD 0

def globalEnv : Env := [Scopes.globalCell]

end Apiary
