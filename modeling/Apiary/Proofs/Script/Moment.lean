import Mathlib.Logic.Relation
import Apiary.Proofs.Script.Record

/-!
The moments of an evaluation: a piece of code that is about to be evaluated, in an environment and in a world.
One moment is part of another when evaluating the code of the second comes to the first. Expressions are taken
whole, and so are the steps that evaluate no further code.
-/

namespace Apiary

/-- What the evaluation of a statement is made of. -/
inductive Fragment
  | expr (e : Expr)
  | declareOne (kind : DeclKind) (name : String) (value : Option Value)
  | declare (name : String) (value : Value)
  | bindItem (kind : Option DeclKind) (name : String) (item : Value) (inner : Env)
  | functions (body : List Stmt)
  | caseFunctions (cases : List Case)
  | declarators (kind : DeclKind) (decls : List Declarator)
  | stmt (stmt : Stmt)
  | stmts (body : List Stmt)
  | block (body : List Stmt)
  | round (testsFirst : Bool) (test : Option Expr) (body : Stmt)
  | rounds (testsFirst : Bool) (test : Expr) (body : Stmt) (n : Nat)
  | forRounds (fresh : Bool) (test update : Option Expr) (body : Stmt) (n : Nat)
  | items (kind : Option DeclKind) (name : String) (body : Stmt) (items : List Value)
  | matching (subject : Value) (i : Nat) (cases : List Case)
  | cases (i : Nat) (cases : List Case)
  | handler (message : String) (thrown : Option Value) (handler : Option Handler)

namespace Fragment

/-- The steps that no moment is part of. -/
def isStep : Fragment → Bool
  | expr _ => true
  | declareOne .. => true
  | declare .. => true
  | bindItem .. => true
  | functions _ => true
  | caseFunctions _ => true
  | _ => false

/-- Names that the fragment declares with `var`, outside of nested functions. -/
def varNames : Fragment → List String
  | .declareOne kind name _ => if kind = .var then [name] else []
  | .bindItem kind name _ _ => if kind = some .var then [name] else []
  | .declarators kind decls => declaredNames kind decls
  | .stmt s => s.varNames
  | .stmts body => varNamesOf body
  | .block body => varNamesOf body
  | .round _ _ body => body.varNames
  | .rounds _ _ body _ => body.varNames
  | .forRounds _ _ _ body _ => body.varNames
  | .items kind name body _ => (if kind = some .var then [name] else []) ++ body.varNames
  | .cases _ rest => varNamesOfCases rest
  | .handler _ _ h => varNamesOfHandler h
  | _ => []

end Fragment

structure Moment (σ : Type) where
  env : Env
  code : Fragment
  world : World σ

open Act

variable {σ : Type}

def Act.evalRound (s : Surroundings σ) (testsFirst : Bool) (test : Option Expr) (body : Stmt) (env : Env) :
    Act σ (Option Completion) :=
  if testsFirst then testFirst (evalTest s env test) (evalStmt s env body)
  else testLast (evalTest s env test) (evalStmt s env body)

def Act.evalBlock (s : Surroundings σ) (env : Env) (body : List Stmt) : Act σ Completion :=
  inBlock env body fun inner => evalStmts s inner body

def Act.evalForRounds (s : Surroundings σ) (fresh : Bool) (test update : Option Expr) (body : Stmt) (n : Nat)
    (env : Env) : Act σ Completion :=
  forRounds s.host fresh (fun env => evalRound s true test body env) (fun env => evalStep s env update) n env

def Act.evalItems (s : Surroundings σ) (kind : Option DeclKind) (name : String) (body : Stmt) (env : Env)
    (items : List Value) : Act σ Completion :=
  eachItem s.host (fun item inner => bindItem kind name item env inner) (fun inner => evalStmt s inner body) env items

namespace Moment

/-- The world that evaluating the code of a moment ends in, whatever its outcome. -/
def after (s : Surroundings σ) : Moment σ → World σ
  | ⟨env, .expr e, w⟩ => final (evalExpr s env e w)
  | ⟨env, .declareOne kind name value, w⟩ => final (Act.declareOne kind name value env w)
  | ⟨env, .declare name value, w⟩ => final (Act.declare (innermost env) name value false w)
  | ⟨env, .bindItem kind name item inner, w⟩ => final (Act.bindItem kind name item env inner w)
  | ⟨env, .functions body, w⟩ => final (declareFunctions env body w)
  | ⟨env, .caseFunctions cases, w⟩ => final (declareCaseFunctions env cases w)
  | ⟨env, .declarators kind decls, w⟩ => final (evalDeclarators s env kind decls w)
  | ⟨env, .stmt stmt, w⟩ => final (evalStmt s env stmt w)
  | ⟨env, .stmts body, w⟩ => final (evalStmts s env body w)
  | ⟨env, .block body, w⟩ => final (evalBlock s env body w)
  | ⟨env, .round testsFirst test body, w⟩ => final (evalRound s testsFirst test body env w)
  | ⟨env, .rounds testsFirst test body n, w⟩ =>
    final (repeatRounds s.host (evalRound s testsFirst (some test) body env) n w)
  | ⟨env, .forRounds fresh test update body n, w⟩ => final (evalForRounds s fresh test update body n env w)
  | ⟨env, .items kind name body items, w⟩ => final (evalItems s kind name body env items w)
  | ⟨env, .matching subject i cases, w⟩ => final (matchingCase s env subject i cases w)
  | ⟨env, .cases i cases, w⟩ => final (evalCases s env i cases w)
  | ⟨env, .handler message thrown handler, w⟩ => final (evalHandler s env message thrown handler w)

/-- The first moment comes to the second, with nothing in between that the second is a part of. -/
inductive Part (s : Surroundings σ) : Moment σ → Moment σ → Prop
  | effect {env w e} : Part s ⟨env, .stmt (.expr e), w⟩ ⟨env, .expr e, w⟩
  | declare {env w kind decls} : Part s ⟨env, .stmt (.declare kind decls), w⟩ ⟨env, .declarators kind decls, w⟩
  | bare {env w kind name rest} :
    Part s ⟨env, .declarators kind (.mk name none :: rest), w⟩ ⟨env, .declareOne kind name none, w⟩
  | afterBare {env w kind name rest w'} : Act.declareOne kind name none env w = .ok () w' →
    Part s ⟨env, .declarators kind (.mk name none :: rest), w⟩ ⟨env, .declarators kind rest, w'⟩
  | start {env w kind name e rest} :
    Part s ⟨env, .declarators kind (.mk name (some e) :: rest), w⟩ ⟨env, .expr e, w⟩
  | started {env w kind name e rest v w'} : evalExpr s env e w = .ok v w' →
    Part s ⟨env, .declarators kind (.mk name (some e) :: rest), w⟩ ⟨env, .declareOne kind name (some v), w'⟩
  | afterStarted {env w kind name e rest v w' w''} : evalExpr s env e w = .ok v w' →
    Act.declareOne kind name (some v) env w' = .ok () w'' →
    Part s ⟨env, .declarators kind (.mk name (some e) :: rest), w⟩ ⟨env, .declarators kind rest, w''⟩
  | block {env w body} : Part s ⟨env, .stmt (.block body), w⟩ ⟨env, .block body, w⟩
  | opened {env w body inner w'} : enter false env w = .ok inner w' →
    Part s ⟨env, .block body, w⟩ ⟨inner, .functions body, w'⟩
  | inside {env w body inner w' w''} : enter false env w = .ok inner w' →
    declareFunctions inner body w' = .ok () w'' → Part s ⟨env, .block body, w⟩ ⟨inner, .stmts body, w''⟩
  | head {env w stmt rest} : Part s ⟨env, .stmts (stmt :: rest), w⟩ ⟨env, .stmt stmt, w⟩
  | tail {env w stmt rest w'} : evalStmt s env stmt w = .ok .normal w' →
    Part s ⟨env, .stmts (stmt :: rest), w⟩ ⟨env, .stmts rest, w'⟩
  | condition {env w test yes no} : Part s ⟨env, .stmt (.ifElse test yes no), w⟩ ⟨env, .expr test, w⟩
  | yes {env w test yes no v w'} : evalExpr s env test w = .ok v w' → v.truthy = true →
    Part s ⟨env, .stmt (.ifElse test yes no), w⟩ ⟨env, .stmt yes, w'⟩
  | no {env w test yes no v w'} : evalExpr s env test w = .ok v w' → v.truthy = false →
    Part s ⟨env, .stmt (.ifElse test yes (some no)), w⟩ ⟨env, .stmt no, w'⟩
  | while {env w test body} : Part s ⟨env, .stmt (.while test body), w⟩ ⟨env, .rounds true test body s.rounds, w⟩
  | doWhile {env w test body} :
    Part s ⟨env, .stmt (.doWhile body test), w⟩ ⟨env, .rounds false test body s.rounds, w⟩
  | oneRound {env w testsFirst test body n w'} : checkpoint s.host w = .ok () w' →
    Part s ⟨env, .rounds testsFirst test body (n + 1), w⟩ ⟨env, .round testsFirst (some test) body, w'⟩
  | moreRounds {env w testsFirst test body n w' w''} : checkpoint s.host w = .ok () w' →
    evalRound s testsFirst (some test) body env w' = .ok none w'' →
    Part s ⟨env, .rounds testsFirst test body (n + 1), w⟩ ⟨env, .rounds testsFirst test body n, w''⟩
  | testFirst {env w test body} : Part s ⟨env, .round true (some test) body, w⟩ ⟨env, .expr test, w⟩
  | bodyNext {env w test body v w'} : evalTest s env test w = .ok v w' → v.truthy = true →
    Part s ⟨env, .round true test body, w⟩ ⟨env, .stmt body, w'⟩
  | bodyFirst {env w test body} : Part s ⟨env, .round false test body, w⟩ ⟨env, .stmt body, w⟩
  | testNext {env w test body c w'} : evalStmt s env body w = .ok c w' → afterRound c = none →
    Part s ⟨env, .round false (some test) body, w⟩ ⟨env, .expr test, w'⟩
  | forDeclare {env w kind decls test update body outer w'} : enter false env w = .ok outer w' →
    Part s ⟨env, .stmt (.for (.declare kind decls) test update body), w⟩ ⟨outer, .declarators kind decls, w'⟩
  | forEval {env w e test update body outer w'} : enter false env w = .ok outer w' →
    Part s ⟨env, .stmt (.for (.eval e) test update body), w⟩ ⟨outer, .expr e, w'⟩
  | forStarted {env w start test update body outer w' w'' first w₃} : enter false env w = .ok outer w' →
    evalForStart s outer start w' = .ok () w'' → nextScope start.isFresh outer w'' = .ok first w₃ →
    Part s ⟨env, .stmt (.for start test update body), w⟩
      ⟨first, .forRounds start.isFresh test update body s.rounds, w₃⟩
  | forRound {env w fresh test update body n w'} : checkpoint s.host w = .ok () w' →
    Part s ⟨env, .forRounds fresh test update body (n + 1), w⟩ ⟨env, .round true test body, w'⟩
  | forUpdate {env w fresh test update body n w' w'' next w₃} : checkpoint s.host w = .ok () w' →
    evalRound s true test body env w' = .ok none w'' → nextScope fresh env w'' = .ok next w₃ →
    Part s ⟨env, .forRounds fresh test (some update) body (n + 1), w⟩ ⟨next, .expr update, w₃⟩
  | forMore {env w fresh test update body n w' w'' next w₃ w₄} : checkpoint s.host w = .ok () w' →
    evalRound s true test body env w' = .ok none w'' → nextScope fresh env w'' = .ok next w₃ →
    evalStep s next update w₃ = .ok () w₄ →
    Part s ⟨env, .forRounds fresh test update body (n + 1), w⟩ ⟨next, .forRounds fresh test update body n, w₄⟩
  | source {env w keys kind name source body} :
    Part s ⟨env, .stmt (.forEach keys kind name source body), w⟩ ⟨env, .expr source, w⟩
  | items {env w keys kind name source body v w' items w''} : evalExpr s env source w = .ok v w' →
    (if keys then keysIn v else itemsOf v source.description : Act σ (List Value)) w' = .ok items w'' →
    Part s ⟨env, .stmt (.forEach keys kind name source body), w⟩ ⟨env, .items kind name body items, w''⟩
  | bindItem {env w kind name body item rest w' inner w''} : checkpoint s.host w = .ok () w' →
    enter false env w' = .ok inner w'' →
    Part s ⟨env, .items kind name body (item :: rest), w⟩ ⟨env, .bindItem kind name item inner, w''⟩
  | withItem {env w kind name body item rest w' inner w'' w₃} : checkpoint s.host w = .ok () w' →
    enter false env w' = .ok inner w'' → Act.bindItem kind name item env inner w'' = .ok () w₃ →
    Part s ⟨env, .items kind name body (item :: rest), w⟩ ⟨inner, .stmt body, w₃⟩
  | moreItems {env w kind name body item rest w' inner w'' w₃ c w₄} : checkpoint s.host w = .ok () w' →
    enter false env w' = .ok inner w'' → Act.bindItem kind name item env inner w'' = .ok () w₃ →
    evalStmt s inner body w₃ = .ok c w₄ → afterRound c = none →
    Part s ⟨env, .items kind name body (item :: rest), w⟩ ⟨env, .items kind name body rest, w₄⟩
  | subject {env w subject cases} : Part s ⟨env, .stmt (.switch subject cases), w⟩ ⟨env, .expr subject, w⟩
  | switchFunctions {env w subject cases v w' inner w''} : evalExpr s env subject w = .ok v w' →
    enter false env w' = .ok inner w'' →
    Part s ⟨env, .stmt (.switch subject cases), w⟩ ⟨inner, .caseFunctions cases, w''⟩
  | switchTests {env w subject cases v w' inner w'' w₃} : evalExpr s env subject w = .ok v w' →
    enter false env w' = .ok inner w'' → declareCaseFunctions inner cases w'' = .ok () w₃ →
    Part s ⟨env, .stmt (.switch subject cases), w⟩ ⟨inner, .matching v 0 cases, w₃⟩
  | switchCases {env w subject cases v w' inner w'' w₃ i w₄ j} : evalExpr s env subject w = .ok v w' →
    enter false env w' = .ok inner w'' → declareCaseFunctions inner cases w'' = .ok () w₃ →
    matchingCase s inner v 0 cases w₃ = .ok i w₄ → i.or (defaultCase? cases) = some j →
    Part s ⟨env, .stmt (.switch subject cases), w⟩ ⟨inner, .cases j cases, w₄⟩
  | passDefault {env w v i body rest} :
    Part s ⟨env, .matching v i (.mk none body :: rest), w⟩ ⟨env, .matching v (i + 1) rest, w⟩
  | caseTest {env w v i test body rest} :
    Part s ⟨env, .matching v i (.mk (some test) body :: rest), w⟩ ⟨env, .expr test, w⟩
  | passCase {env w v i test body rest u w'} : evalExpr s env test w = .ok u w' → u.strictEq v = false →
    Part s ⟨env, .matching v i (.mk (some test) body :: rest), w⟩ ⟨env, .matching v (i + 1) rest, w'⟩
  | laterCase {env w i c rest} : Part s ⟨env, .cases (i + 1) (c :: rest), w⟩ ⟨env, .cases i rest, w⟩
  | caseBody {env w test body rest} : Part s ⟨env, .cases 0 (.mk test body :: rest), w⟩ ⟨env, .stmts body, w⟩
  | nextCase {env w test body rest w'} : evalStmts s env body w = .ok .normal w' →
    Part s ⟨env, .cases 0 (.mk test body :: rest), w⟩ ⟨env, .cases 0 rest, w'⟩
  | return {env w e} : Part s ⟨env, .stmt (.return (some e)), w⟩ ⟨env, .expr e, w⟩
  | throw {env w e} : Part s ⟨env, .stmt (.throw e), w⟩ ⟨env, .expr e, w⟩
  | try {env w body handler last} : Part s ⟨env, .stmt (.try body handler last), w⟩ ⟨env, .block body, w⟩
  | catch {env w body handler last message thrown w'} :
    evalBlock s env body w = .error (.error message thrown) w' →
    Part s ⟨env, .stmt (.try body handler last), w⟩ ⟨env, .handler message thrown handler, w'⟩
  | finally {env w body handler last c w'} : evalBlock s env body w = .ok c w' →
    Part s ⟨env, .stmt (.try body handler (some last)), w⟩ ⟨env, .block last, w'⟩
  | finallyCaught {env w body handler last message thrown w' r w''} :
    evalBlock s env body w = .error (.error message thrown) w' →
    attempt (evalHandler s env message thrown handler) w' = .ok r w'' → isOver r = false →
    Part s ⟨env, .stmt (.try body handler (some last)), w⟩ ⟨env, .block last, w''⟩
  | parameter {env w message thrown name body v w' inner w''} : caught message thrown w = .ok v w' →
    enter false env w' = .ok inner w'' →
    Part s ⟨env, .handler message thrown (some (.mk (some name) body)), w⟩ ⟨inner, .declare name v, w''⟩
  | handle {env w message thrown body v w' inner w''} : caught message thrown w = .ok v w' →
    enter false env w' = .ok inner w'' →
    Part s ⟨env, .handler message thrown (some (.mk none body)), w⟩ ⟨inner, .block body, w''⟩
  | handleNamed {env w message thrown name body v w' inner w'' w₃} : caught message thrown w = .ok v w' →
    enter false env w' = .ok inner w'' → Act.declare (innermost inner) name v false w'' = .ok () w₃ →
    Part s ⟨env, .handler message thrown (some (.mk (some name) body)), w⟩ ⟨inner, .block body, w₃⟩

/-- The first moment comes to the second. -/
abbrev Reaches (s : Surroundings σ) : Moment σ → Moment σ → Prop := Relation.ReflTransGen (Part s)

end Moment

end Apiary
