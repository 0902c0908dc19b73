import Apiary.Script.Act

/-!
What a body declares before it runs: the names of its `var` declarations, outside of nested functions, and
the functions among its own statements.
-/

namespace Apiary

def Declarator.name : Declarator → String
  | mk name _ => name

def declaredNames (kind : DeclKind) (decls : List Declarator) : List String :=
  if kind = .var then decls.map Declarator.name else []

def ForStart.varNames : ForStart → List String
  | declare kind decls => declaredNames kind decls
  | _ => []

mutual

def Stmt.varNames : Stmt → List String
  | .declare kind decls => declaredNames kind decls
  | .block body => varNamesOf body
  | .ifElse _ yes no => yes.varNames ++ varNamesOfOption no
  | .while _ body => body.varNames
  | .doWhile body _ => body.varNames
  | .for start _ _ body => start.varNames ++ body.varNames
  | .forEach _ kind name _ body => (if kind = some .var then [name] else []) ++ body.varNames
  | .switch _ cases => varNamesOfCases cases
  | .try body handler last =>
    varNamesOf body ++ varNamesOfHandler handler ++ varNamesOfLast last
  | _ => []

def varNamesOf : List Stmt → List String
  | [] => []
  | s :: rest => s.varNames ++ varNamesOf rest

def varNamesOfOption : Option Stmt → List String
  | none => []
  | some s => s.varNames

def varNamesOfCases : List Case → List String
  | [] => []
  | .mk _ body :: rest => varNamesOf body ++ varNamesOfCases rest

def varNamesOfHandler : Option Handler → List String
  | none => []
  | some (.mk _ body) => varNamesOf body

def varNamesOfLast : Option (List Stmt) → List String
  | none => []
  | some body => varNamesOf body

end

namespace Act

variable {σ : Type}

def declareVars (cell : Nat) : List String → Act σ Unit
  | [] => pure ()
  | name :: rest => do
    if ← lookScopes (·.hasOwn cell name) then declareVars cell rest
    else
      declare cell name .undefined false
      declareVars cell rest

def declareFunctions (env : Env) : List Stmt → Act σ Unit
  | [] => pure ()
  | .function f :: rest => do
    match f.name with
    | some name =>
      let v ← newClosure ⟨f, env⟩
      declare (innermost env) name v false
      declareFunctions env rest
    | none => declareFunctions env rest
  | _ :: rest => declareFunctions env rest

def hoist (env : Env) (body : List Stmt) : Act σ Unit := do
  declareVars (innermost env) (varNamesOf body)
  declareFunctions env body

end Act

end Apiary
