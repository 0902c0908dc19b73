import Apiary.Script.Hoist
import Apiary.Script.Method
import Apiary.Script.Operator

/-!
Evaluation of expressions and statements. It follows the tree; only calls and loops go beyond it. Calls
nest to a fixed depth, and every loop may make a given number of rounds, after which the evaluation counts
as endless. Each round of a loop begins with a checkpoint of the host.
-/

namespace Apiary

inductive Completion
  | normal
  | break
  | continue
  | return (value : Value)

inductive Place
  | name (n : String)
  | property (object : Value) (key : String)
  | item (object key : Value)

inductive Callee
  | skipped
  | method (this : Value) (name : String)
  | item (this key : Value)
  | direct

structure Surroundings (σ : Type) where
  host : Host σ
  call : Calling σ
  rounds : Nat

def Expr.description : Expr → String
  | .name n => n
  | .member base property _ => base.description ++ "." ++ property
  | .index base _ => base.description ++ "[...]"
  | .call callee _ => callee.description ++ "(...)"
  | _ => "expression"

def Expr.name? : Expr → Option String
  | .name n => some n
  | _ => none

def ForStart.isFresh : ForStart → Bool
  | declare kind _ => kind ≠ .var
  | _ => false

namespace Act

variable {σ : Type}

def readPlace (env : Env) : Place → Act σ Value
  | .name n => lookup n env
  | .property object key => getProperty object key
  | .item object key => getIndex object key

def writePlace (env : Env) (value : Value) : Place → Act σ Unit
  | .name n => assign n value env
  | .property object key => setProperty object key value
  | .item object key => setIndex object key value

/-- Calls what a key selects. A string selects a method. -/
def callItem (s : Surroundings σ) (this key : Value) (args : List Value) (what : String) :
    Act σ Value := do
  match key with
  | .string name => callMethod s.host s.call this name args what
  | key =>
    let f ← getIndex this key
    if f.isCallable then s.call f args (some this) else fail (notAFunction what)

def applyBinary (op : BinaryOp) (v w : Value) : Act σ Value := convert [v, w] (op.result? v w)

def typeofName (name : String) (env : Env) : Act σ Value := do
  let v ← lookScopes (·.lookup? name env)
  pure (.string ((v.map Value.typeName).getD "undefined"))

def applyUnary (op : UnaryOp) (v : Value) : Act σ Value :=
  match op with
  | .not => pure (.bool !v.truthy)
  | .neg => do pure (.number (-(← number v)))
  | .plus => do pure (.number (← number v))
  | .bitNot => do pure (ofInt32 (~~~ toInt32 (← number v)))
  | .typeof => pure (.string v.typeName)
  | .void => pure .undefined

def decides (op : LogicalOp) (v : Value) : Bool :=
  match op with
  | .and => !v.truthy
  | .or => v.truthy
  | .nullish => !v.isNullish

def itemsOf (v : Value) (what : String) : Act σ (List Value) := do
  match v with
  | .array cell => look fun h => (h.array cell).toList
  | .floats b => look fun h => (h.singles b).toList.map Value.ofSingle
  | .string s => pure (s.toList.map Value.ofChar)
  | _ => fail (what ++ " is not iterable")

def keysIn (v : Value) : Act σ (List Value) :=
  match v with
  | .object cell => look fun h => (h.object cell).map fun (k, _) => .string k
  | .array cell => look fun h => indexTexts (h.array cell).size
  | .floats b => look fun h => indexTexts (h.singles b).size
  | .string s => pure (indexTexts s.length)
  | _ => pure []

def bindItem (kind : Option DeclKind) (name : String) (item : Value) (outer inner : Env) :
    Act σ Unit := do
  match kind with
  | some .let => declare (innermost inner) name item false
  | some .const => declare (innermost inner) name item true
  | some .var =>
    let cell ← lookScopes (·.functionScope outer)
    declare cell name item false
  | none => assign name item outer

/-- Declares one name. Without a value, a variable of the function keeps the one it has. -/
def declareOne (kind : DeclKind) (name : String) (value : Option Value) (env : Env) :
    Act σ Unit := do
  match kind with
  | .let => declare (innermost env) name (value.getD .undefined) false
  | .const => declare (innermost env) name (value.getD .undefined) true
  | .var =>
    let cell ← lookScopes (·.functionScope env)
    match value with
    | some v => declare cell name v false
    | none => declareVars cell [name]

/-- Whether a loop goes on after a round that ended so; else how the loop ends. -/
def afterRound : Completion → Option Completion
  | .normal => none
  | .continue => none
  | .break => some .normal
  | .return v => some (.return v)

def repeatRounds (host : Host σ) (round : Act σ (Option Completion)) : Nat → Act σ Completion
  | 0 => throw (.endless .limit)
  | n + 1 => do
    checkpoint host
    match ← round with
    | some c => pure c
    | none => repeatRounds host round n

def testFirst (test : Act σ Value) (body : Act σ Completion) :
    Act σ (Option Completion) := do
  let v ← test
  if v.truthy then afterRound <$> body else pure (some .normal)

def testLast (test : Act σ Value) (body : Act σ Completion) :
    Act σ (Option Completion) := do
  match afterRound (← body) with
  | some c => pure (some c)
  | none =>
    let v ← test
    pure (if v.truthy then none else some .normal)

def nextScope (fresh : Bool) (env : Env) : Act σ Env := if fresh then fork env else pure env

/-- Rounds with a scope of their own when `fresh`; the update runs in the scope of the next round. -/
def forRounds (host : Host σ) (fresh : Bool) (round : Env → Act σ (Option Completion))
    (step : Env → Act σ Unit) : Nat → Env → Act σ Completion
  | 0, _ => throw (.endless .limit)
  | n + 1, env => do
    checkpoint host
    match ← round env with
    | some c => pure c
    | none =>
      let env ← nextScope fresh env
      step env
      forRounds host fresh round step n env

def eachItem (host : Host σ) (bind : Value → Env → Act σ Unit) (body : Env → Act σ Completion)
    (env : Env) : List Value → Act σ Completion
  | [] => pure .normal
  | item :: rest => do
    checkpoint host
    let inner ← enter false env
    bind item inner
    match afterRound (← body inner) with
    | some c => pure c
    | none => eachItem host bind body env rest

def thrownMessage (v : Value) : Act σ String := do
  let message ← match v with
    | .object cell => look fun h => (h.object cell).lookup "message"
    | _ => pure none
  match message with
  | some (.string s) => pure s
  | _ => display v

def throwValue {α : Type} (v : Value) : Act σ α := do
  let message ← thrownMessage v
  throw (.error message (some v))

def caught (message : String) : Option Value → Act σ Value
  | some v => pure v
  | none => newError message

def ofOutcome {α : Type} : Except Interrupt α → Act σ α
  | .ok a => pure a
  | .error e => throw e

def isOver {α : Type} : Except Interrupt α → Bool
  | .ok _ => false
  | .error (.error _ _) => false
  | .error _ => true

/-- Runs the last part of a `try` unless the run is over. Unless it ends normally, its end counts. -/
def finishTry (outcome : Except Interrupt Completion) (last : Act σ Completion) :
    Act σ Completion := do
  if isOver outcome then ofOutcome outcome
  else
    match ← last with
    | .normal => ofOutcome outcome
    | other => pure other

def runTry (body : Act σ Completion) (handler : String → Option Value → Act σ Completion)
    (last : Act σ Completion) : Act σ Completion := do
  let outcome ← attempt body
  let outcome ← match outcome with
    | .error (.error message thrown) => attempt (handler message thrown)
    | outcome => pure outcome
  finishTry outcome last

def inBlock (env : Env) (body : List Stmt) (run : Env → Act σ Completion) : Act σ Completion := do
  let inner ← enter false env
  declareFunctions inner body
  run inner

def declareCaseFunctions (env : Env) : List Case → Act σ Unit
  | [] => pure ()
  | .mk _ body :: rest => do
    declareFunctions env body
    declareCaseFunctions env rest

def defaultCase? (cases : List Case) : Option Nat :=
  cases.findIdx? fun | .mk test _ => test.isNone

mutual

def evalExpr (s : Surroundings σ) (env : Env) : Expr → Act σ Value
  | .number x => pure (.number x)
  | .string t => pure (.string t)
  | .bool b => pure (.bool b)
  | .null => pure .null
  | .undefined => pure .undefined
  | .template pieces => .string <$> evalPieces s env "" pieces
  | .name n => lookup n env
  | .array items => do newArray (← evalAll s env items).toArray
  | .object fields => do
    let fields ← evalFields s env [] fields
    alloc (Heap.newObject fields)
  | .member object property optional => do
    let v ← evalExpr s env object
    if optional && v.isNullish then pure .undefined else getProperty v property
  | .index object key => do
    let v ← evalExpr s env object
    let k ← evalExpr s env key
    getIndex v k
  | .call callee args => do
    match ← evalReceiver s env callee with
    | .skipped => pure .undefined
    | .method this name => do
      let args ← evalAll s env args
      callMethod s.host s.call this name args callee.description
    | .item this key => do
      let args ← evalAll s env args
      callItem s this key args callee.description
    | .direct => do
      let f ← evalExpr s env callee
      if f.isCallable then
        let args ← evalAll s env args
        s.call f args none
      else fail (notAFunction callee.description)
  | .new callee args => do
    let f ← evalExpr s env callee
    let args ← evalAll s env args
    if f.isCallable then s.call f args none
    else fail (callee.description ++ " is not a constructor")
  | .function f => newClosure ⟨f, env⟩
  | .unary op operand =>
    match op, operand.name? with
    | .typeof, some n => typeofName n env
    | op, _ => do applyUnary op (← evalExpr s env operand)
  | .update increment before target => do
    let place ← evalPlace s env target
    let old ← number (← readPlace env place)
    let new := if increment then old + 1 else old - 1
    writePlace env (.number new) place
    pure (.number (if before then new else old))
  | .binary op left right => do
    let v ← evalExpr s env left
    let w ← evalExpr s env right
    applyBinary op v w
  | .logical op left right => do
    let v ← evalExpr s env left
    if decides op v then pure v else evalExpr s env right
  | .conditional test yes no => do
    let v ← evalExpr s env test
    if v.truthy then evalExpr s env yes else evalExpr s env no
  | .assign op target value => do
    let place ← evalPlace s env target
    match op with
    | none =>
      let v ← evalExpr s env value
      writePlace env v place
      pure v
    | some op =>
      let old ← readPlace env place
      let w ← evalExpr s env value
      let v ← applyBinary op old w
      writePlace env v place
      pure v
  | .sequence items => evalLast s env .undefined items
  | .await operand => evalExpr s env operand

def evalReceiver (s : Surroundings σ) (env : Env) : Expr → Act σ Callee
  | .member object property optional => do
    let v ← evalExpr s env object
    pure (if optional && v.isNullish then .skipped else .method v property)
  | .index object key => do
    let v ← evalExpr s env object
    let k ← evalExpr s env key
    pure (.item v k)
  | _ => pure .direct

def evalPlace (s : Surroundings σ) (env : Env) : Expr → Act σ Place
  | .name n => pure (.name n)
  | .member object property _ => do
    let v ← evalExpr s env object
    pure (.property v property)
  | .index object key => do
    let v ← evalExpr s env object
    let k ← evalExpr s env key
    pure (.item v k)
  | _ => fail "Invalid assignment target"

def evalAll (s : Surroundings σ) (env : Env) : List Expr → Act σ (List Value)
  | [] => pure []
  | e :: rest => do
    let v ← evalExpr s env e
    let vs ← evalAll s env rest
    pure (v :: vs)

def evalLast (s : Surroundings σ) (env : Env) (last : Value) : List Expr → Act σ Value
  | [] => pure last
  | e :: rest => do
    let v ← evalExpr s env e
    evalLast s env v rest

def evalPieces (s : Surroundings σ) (env : Env) (done : String) : List Piece → Act σ String
  | [] => pure done
  | .text t :: rest => evalPieces s env (done ++ t) rest
  | .hole e :: rest => do
    let t ← display (← evalExpr s env e)
    evalPieces s env (done ++ t) rest

def evalFields (s : Surroundings σ) (env : Env) (done : List (String × Value)) :
    List Field → Act σ (List (String × Value))
  | [] => pure done
  | .named key value :: rest => do
    let v ← evalExpr s env value
    evalFields s env (setField key v done) rest
  | .computed key value :: rest => do
    let k ← display (← evalExpr s env key)
    let v ← evalExpr s env value
    evalFields s env (setField k v done) rest

end

def evalDeclarators (s : Surroundings σ) (env : Env) (kind : DeclKind) :
    List Declarator → Act σ Unit
  | [] => pure ()
  | .mk name none :: rest => do
    declareOne kind name none env
    evalDeclarators s env kind rest
  | .mk name (some e) :: rest => do
    let v ← evalExpr s env e
    declareOne kind name (some v) env
    evalDeclarators s env kind rest

def evalForStart (s : Surroundings σ) (env : Env) : ForStart → Act σ Unit
  | .none => pure ()
  | .declare kind decls => evalDeclarators s env kind decls
  | .eval e => do
    let _ ← evalExpr s env e
    pure ()

def evalTest (s : Surroundings σ) (env : Env) : Option Expr → Act σ Value
  | none => pure (.bool true)
  | some e => evalExpr s env e

def evalStep (s : Surroundings σ) (env : Env) : Option Expr → Act σ Unit
  | none => pure ()
  | some e => do
    let _ ← evalExpr s env e
    pure ()

def matchingCase (s : Surroundings σ) (env : Env) (v : Value) :
    Nat → List Case → Act σ (Option Nat)
  | _, [] => pure none
  | i, .mk none _ :: rest => matchingCase s env v (i + 1) rest
  | i, .mk (some test) _ :: rest => do
    let w ← evalExpr s env test
    if w.strictEq v then pure (some i) else matchingCase s env v (i + 1) rest

mutual

def evalStmt (s : Surroundings σ) (env : Env) : Stmt → Act σ Completion
  | .empty => pure .normal
  | .function _ => pure .normal
  | .expr e => do
    let _ ← evalExpr s env e
    pure .normal
  | .declare kind decls => do
    evalDeclarators s env kind decls
    pure .normal
  | .block body => inBlock env body fun inner => evalStmts s inner body
  | .ifElse test yes no => do
    let v ← evalExpr s env test
    if v.truthy then evalStmt s env yes else evalElse s env no
  | .while test body =>
    repeatRounds s.host (testFirst (evalExpr s env test) (evalStmt s env body)) s.rounds
  | .doWhile body test =>
    repeatRounds s.host (testLast (evalExpr s env test) (evalStmt s env body)) s.rounds
  | .for start test update body => do
    let outer ← enter false env
    evalForStart s outer start
    let first ← nextScope start.isFresh outer
    forRounds s.host start.isFresh
      (fun env => testFirst (evalTest s env test) (evalStmt s env body))
      (fun env => evalStep s env update) s.rounds first
  | .forEach keys kind name source body => do
    let v ← evalExpr s env source
    let items ← if keys then keysIn v else itemsOf v source.description
    eachItem s.host (fun item inner => bindItem kind name item env inner)
      (fun inner => evalStmt s inner body) env items
  | .switch subject cases => do
    let v ← evalExpr s env subject
    let inner ← enter false env
    declareCaseFunctions inner cases
    let i ← matchingCase s inner v 0 cases
    match i.or (defaultCase? cases) with
    | none => pure .normal
    | some i => evalCases s inner i cases
  | .break => pure .break
  | .continue => pure .continue
  | .return none => pure (.return .undefined)
  | .return (some e) => do pure (.return (← evalExpr s env e))
  | .throw e => do throwValue (← evalExpr s env e)
  | .try body handler last =>
    runTry (inBlock env body fun inner => evalStmts s inner body)
      (fun message thrown => evalHandler s env message thrown handler) (evalFinally s env last)

def evalElse (s : Surroundings σ) (env : Env) : Option Stmt → Act σ Completion
  | none => pure .normal
  | some no => evalStmt s env no

def evalStmts (s : Surroundings σ) (env : Env) : List Stmt → Act σ Completion
  | [] => pure .normal
  | stmt :: rest => do
    match ← evalStmt s env stmt with
    | .normal => evalStmts s env rest
    | other => pure other

/-- The cases from a position on; a `break` ends them. -/
def evalCases (s : Surroundings σ) (env : Env) : Nat → List Case → Act σ Completion
  | _, [] => pure .normal
  | i + 1, _ :: rest => evalCases s env i rest
  | 0, .mk _ body :: rest => do
    match ← evalStmts s env body with
    | .normal => evalCases s env 0 rest
    | .break => pure .normal
    | other => pure other

def evalHandler (s : Surroundings σ) (env : Env) (message : String) (thrown : Option Value) :
    Option Handler → Act σ Completion
  | none => throw (.error message thrown)
  | some (.mk param body) => do
    let v ← caught message thrown
    let inner ← enter false env
    match param with
    | some name => declare (innermost inner) name v false
    | none => pure ()
    inBlock inner body fun inner => evalStmts s inner body

def evalFinally (s : Surroundings σ) (env : Env) : Option (List Stmt) → Act σ Completion
  | none => pure .normal
  | some body => inBlock env body fun inner => evalStmts s inner body

end

def evalBody (s : Surroundings σ) (env : Env) : FunctionBody → Act σ Value
  | .value e => evalExpr s env e
  | .block body => do
    hoist env body
    match ← evalStmts s env body with
    | .return v => pure v
    | _ => pure .undefined

end Act

end Apiary
