import Apiary.Script.Parse

/-!
The grammar of scripts. Rules that refer back to an earlier rule do so only after taking a token, so a
table of the recursive rules is built level by level, one level per token at most.

Binary operators climb by precedence. A semicolon may be left out before a line break, a closing brace
or the end.
-/

namespace Apiary

inductive Operator
  | binary (op : BinaryOp)
  | logical (op : LogicalOp)
  deriving DecidableEq

def Operator.apply : Operator → Expr → Expr → Expr
  | .binary op, l, r => .binary op l r
  | .logical op, l, r => .logical op l r

def Mark.operator? : Mark → Option (Nat × Operator)
  | .nullish => some (1, .logical .nullish)
  | .orOr => some (2, .logical .or)
  | .andAnd => some (3, .logical .and)
  | .bar => some (4, .binary .bitOr)
  | .caret => some (5, .binary .bitXor)
  | .ampersand => some (6, .binary .bitAnd)
  | .looseEq => some (7, .binary .looseEq)
  | .looseNe => some (7, .binary .looseNe)
  | .strictEq => some (7, .binary .strictEq)
  | .strictNe => some (7, .binary .strictNe)
  | .less => some (8, .binary .lt)
  | .lessEq => some (8, .binary .le)
  | .greater => some (8, .binary .gt)
  | .greaterEq => some (8, .binary .ge)
  | .shl => some (9, .binary .shl)
  | .shr => some (9, .binary .shr)
  | .ushr => some (9, .binary .ushr)
  | .plus => some (10, .binary .add)
  | .minus => some (10, .binary .sub)
  | .star => some (11, .binary .mul)
  | .slash => some (11, .binary .div)
  | .percent => some (11, .binary .rem)
  | .power => some (12, .binary .pow)
  | _ => none

def powerPrecedence : Nat := 12

def rightLeast (p : Nat) : Nat := if p = powerPrecedence then p else p + 1

/-- The operation an assignment mark performs; none for a plain assignment. -/
def Mark.assignment? : Mark → Option (Option BinaryOp)
  | .assign => some none
  | .addAssign => some (some .add)
  | .subAssign => some (some .sub)
  | .mulAssign => some (some .mul)
  | .divAssign => some (some .div)
  | .remAssign => some (some .rem)
  | .powAssign => some (some .pow)
  | .shlAssign => some (some .shl)
  | .shrAssign => some (some .shr)
  | .ushrAssign => some (some .ushr)
  | _ => none

def Tokens.operator? (ts : Tokens) : Option (Nat × Operator) :=
  match ts.head? with
  | some (.mark m) => m.operator?
  | _ => none

def Tokens.assignment? (ts : Tokens) : Option (Option BinaryOp) :=
  match ts.head? with
  | some (.mark m) => m.assignment?
  | _ => none

def Tokens.unaryOp? (ts : Tokens) : Option UnaryOp :=
  match ts.head? with
  | some (.mark .bang) => some .not
  | some (.mark .minus) => some .neg
  | some (.mark .plus) => some .plus
  | some (.mark .tilde) => some .bitNot
  | some (.name n) =>
    if n = "typeof" then some .typeof else if n = "void" then some .void else none
  | _ => none

def Tokens.update? (ts : Tokens) : Option Bool :=
  match ts.head? with
  | some (.mark .increment) => some true
  | some (.mark .decrement) => some false
  | _ => none

/-- Whether the parenthesis that closes the group is followed by an arrow; `depth` groups are open. -/
def arrowAfterGroup : Nat → List Token → Bool
  | _, [] => false
  | depth, t :: rest =>
    match t.lexeme with
    | .mark .parenOpen => arrowAfterGroup (depth + 1) rest
    | .mark .parenClose =>
      if depth ≤ 1 then
        match rest.head?.map Token.lexeme with
        | some (.mark .arrow) => true
        | _ => false
      else arrowAfterGroup (depth - 1) rest
    | _ => arrowAfterGroup depth rest

def Tokens.arrowAhead (ts : Tokens) : Bool :=
  match ts.head? with
  | some (.name n) => !isReserved n && ts.advance.isMark .arrow
  | some (.mark .parenOpen) => arrowAfterGroup 0 ts.ahead
  | _ => false

def Tokens.asyncArrowAhead (ts : Tokens) : Bool :=
  ts.isWord "async" && (ts.advance.isMark .parenOpen || ts.advance.isName) && ts.advance.arrowAhead

def Tokens.asyncFunctionAhead (ts : Tokens) : Bool :=
  ts.isWord "async" && ts.advance.isWord "function"

def Tokens.declKind? (ts : Tokens) : Option DeclKind :=
  match ts.head? with
  | some (.name n) =>
    if n = "var" then some .var
    else if n = "let" then some .let
    else if n = "const" then some .const
    else none
  | _ => none

/-- The rules that others refer back to. `fuel` bounds the tokens still to be read. -/
structure Rules where
  fuel : Nat
  expression : Parse Expr
  assignment : Parse Expr
  binary : Nat → Parse Expr
  unary : Parse Expr
  statement : Parse Stmt

namespace Rules

open Parse

def block (r : Rules) : Parse (List Stmt) := do
  expect .braceOpen
  let body ← listUntil (·.isMark .braceClose) r.statement r.fuel
  advance
  pure body

/-- A parameter; a default value is read and ignored. -/
def param (r : Rules) : Parse String := do
  let name ← identifier
  if ← eat .assign then
    let _ ← r.assignment
    pure name
  else pure name

def params (r : Rules) : Parse (List String) := do
  expect .parenOpen
  let names ← commaList .parenClose r.param r.fuel
  expect .parenClose
  pure names

def functionRest (r : Rules) (named : Bool) : Parse FunctionLiteral := do
  let _ ← eat .star
  let name ←
    if ← look Tokens.isName then some <$> identifier
    else if named then unexpected
    else pure none
  let params ← r.params
  let body ← r.block
  pure (.mk name params false (.block body))

def arrowFunction (r : Rules) : Parse Expr := do
  let params ← if ← look (·.isMark .parenOpen) then r.params else (do pure [← identifier])
  expect .arrow
  let body ← if ← look (·.isMark .braceOpen) then .block <$> r.block else .value <$> r.assignment
  pure (.function (.mk none params true body))

def arguments (r : Rules) : Parse (List Expr) := do
  expect .parenOpen
  let args ← commaList .parenClose r.assignment r.fuel
  expect .parenClose
  pure args

def hole (r : Rules) (source : String) (start : Position) : Except SourceError Expr := do
  let tokens ← tokenizeAt source start
  let (e, rest) ← r.expression tokens
  if rest.atEnd then pure e else .error ⟨rest.surprise, rest.position⟩

def pieces (r : Rules) : List TemplatePart → Except SourceError (List Piece)
  | [] => .ok []
  | .text s :: rest => do
    let rest ← r.pieces rest
    pure (.text s :: rest)
  | .hole source start :: rest => do
    let e ← r.hole source start
    let rest ← r.pieces rest
    pure (.hole e :: rest)

def lift {α : Type} (r : Except SourceError α) : Parse α := fun ts =>
  match r with
  | .error e => .error e
  | .ok a => .ok (a, ts)

def fieldKey (r : Rules) : Parse (String ⊕ Expr) := do
  match ← look Tokens.head? with
  | some (.name n) => advance; pure (.inl n)
  | some (.string s) => advance; pure (.inl s)
  | some (.number x) => advance; pure (.inl (numberText x))
  | some (.mark .bracketOpen) =>
    advance
    let e ← r.assignment
    expect .bracketClose
    pure (.inr e)
  | _ => unexpected

def makeField (key : String ⊕ Expr) (value : Expr) : Field :=
  match key with
  | .inl k => .named k value
  | .inr k => .computed k value

def field (r : Rules) : Parse Field := do
  let key ← r.fieldKey
  if ← eat .colon then
    let value ← r.assignment
    pure (makeField key value)
  else if ← look (·.isMark .parenOpen) then
    let params ← r.params
    let body ← r.block
    pure (makeField key (.function (.mk key.getLeft? params false (.block body))))
  else
    match key with
    | .inl n => pure (.named n (.name n))
    | .inr _ => unexpected

def primaryName (r : Rules) (n : String) : Parse Expr := do
  if n = "true" then advance; pure (.bool true)
  else if n = "false" then advance; pure (.bool false)
  else if n = "null" then advance; pure .null
  else if n = "undefined" then advance; pure .undefined
  else if n = "function" then advance; .function <$> r.functionRest false
  else if ← look Tokens.asyncFunctionAhead then
    advance
    advance
    .function <$> r.functionRest false
  else .name <$> identifier

def primary (r : Rules) : Parse Expr := do
  match ← look Tokens.head? with
  | some (.number x) => advance; pure (.number x)
  | some (.string s) => advance; pure (.string s)
  | some (.template parts) =>
    advance
    let pieces ← lift (r.pieces parts)
    pure (.template pieces)
  | some (.name n) => r.primaryName n
  | some (.mark .parenOpen) =>
    advance
    let e ← r.expression
    expect .parenClose
    pure e
  | some (.mark .bracketOpen) =>
    advance
    let items ← commaList .bracketClose r.assignment r.fuel
    expect .bracketClose
    pure (.array items)
  | some (.mark .braceOpen) =>
    advance
    let fields ← commaList .braceClose r.field r.fuel
    expect .braceClose
    pure (.object fields)
  | _ => unexpected

def memberOnly : Nat → Expr → Parse Expr
  | 0, _ => fail .tooLong
  | n + 1, e => do
    if ← eat .dot then
      let property ← propertyName
      memberOnly n (.member e property false)
    else pure e

def newOrPrimary (r : Rules) : Parse Expr := do
  if ← eatWord "new" then
    let callee ← r.primary
    let callee ← memberOnly r.fuel callee
    if ← look (·.isMark .parenOpen) then
      let args ← r.arguments
      pure (.new callee args)
    else pure (.new callee [])
  else r.primary

def accesses (r : Rules) : Nat → Expr → Parse Expr
  | 0, _ => fail .tooLong
  | n + 1, e => do
    if ← eat .dot then
      let property ← propertyName
      r.accesses n (.member e property false)
    else if ← eat .optionalDot then
      let property ← propertyName
      r.accesses n (.member e property true)
    else if ← eat .bracketOpen then
      let index ← r.expression
      expect .bracketClose
      r.accesses n (.index e index)
    else if ← look (·.isMark .parenOpen) then
      let args ← r.arguments
      r.accesses n (.call e args)
    else pure e

def postfixed (r : Rules) : Parse Expr := do
  let e ← r.newOrPrimary
  let e ← r.accesses r.fuel e
  match ← look (fun ts => if ts.newline then none else ts.update?) with
  | some increment =>
    if e.isPlace then
      advance
      pure (.update increment false e)
    else fail .invalidUpdateTarget
  | none => pure e

def unaryRule (r : Rules) : Parse Expr := do
  match ← look Tokens.unaryOp? with
  | some op =>
    advance
    let e ← r.unary
    pure (.unary op e)
  | none =>
    if ← eatWord "await" then
      let e ← r.unary
      pure (.await e)
    else
      match ← look Tokens.update? with
      | some increment =>
        advance
        let e ← r.unary
        if e.isPlace then pure (.update increment true e) else fail .invalidUpdateTarget
      | none => r.postfixed

def operators (r : Rules) (least : Nat) : Nat → Expr → Parse Expr
  | 0, _ => fail .tooLong
  | n + 1, left => do
    match ← look Tokens.operator? with
    | none => pure left
    | some (precedence, op) =>
      if precedence < least then pure left
      else
        advance
        let right ← r.binary (rightLeast precedence)
        r.operators least n (op.apply left right)

def binaryRule (r : Rules) (least : Nat) : Parse Expr := do
  let left ← r.unaryRule
  r.operators least r.fuel left

def conditional (r : Rules) : Parse Expr := do
  let test ← r.binaryRule 1
  if ← eat .question then
    let yes ← r.assignment
    expect .colon
    let no ← r.assignment
    pure (.conditional test yes no)
  else pure test

def plainAssignment (r : Rules) : Parse Expr := do
  let target ← r.conditional
  match ← look Tokens.assignment? with
  | none => pure target
  | some op =>
    if target.isPlace then
      advance
      let value ← r.assignment
      pure (.assign op target value)
    else fail .invalidAssignmentTarget

def assignmentRule (r : Rules) : Parse Expr := do
  if ← look Tokens.asyncArrowAhead then
    advance
    r.arrowFunction
  else if ← look Tokens.arrowAhead then r.arrowFunction
  else r.plainAssignment

def sequenceRest (r : Rules) : Nat → Parse (List Expr)
  | 0 => fail .tooLong
  | n + 1 => do
    if ← eat .comma then
      let e ← r.assignmentRule
      let rest ← r.sequenceRest n
      pure (e :: rest)
    else pure []

def expressionRule (r : Rules) : Parse Expr := do
  let first ← r.assignmentRule
  match ← r.sequenceRest r.fuel with
  | [] => pure first
  | rest => pure (.sequence (first :: rest))

def declarator (r : Rules) : Parse Declarator := do
  let name ← identifier
  if ← eat .assign then
    let e ← r.assignmentRule
    pure (.mk name (some e))
  else pure (.mk name none)

def declarators (r : Rules) : Nat → Parse (List Declarator)
  | 0 => fail .tooLong
  | n + 1 => do
    let d ← r.declarator
    if ← eat .comma then
      let rest ← r.declarators n
      pure (d :: rest)
    else pure [d]

def condition (r : Rules) : Parse Expr := do
  expect .parenOpen
  let e ← r.expressionRule
  expect .parenClose
  pure e

def ifStatement (r : Rules) : Parse Stmt := do
  let test ← r.condition
  let yes ← r.statement
  if ← eatWord "else" then
    let no ← r.statement
    pure (.ifElse test yes (some no))
  else pure (.ifElse test yes none)

def doStatement (r : Rules) : Parse Stmt := do
  let body ← r.statement
  expectWord "while"
  let test ← r.condition
  let _ ← eat .semicolon
  pure (.doWhile body test)

def eachKeys? (ts : Tokens) : Option Bool :=
  let name := if ts.declKind?.isSome then ts.advance else ts
  if ¬ name.isName then none
  else if name.advance.isWord "of" then some false
  else if name.advance.isWord "in" then some true
  else none

def forEach (r : Rules) (keys : Bool) : Parse Stmt := do
  let kind ← look Tokens.declKind?
  if kind.isSome then advance
  let name ← identifier
  advance
  let source ← r.assignment
  expect .parenClose
  let body ← r.statement
  pure (.forEach keys kind name source body)

def forStart (r : Rules) : Parse ForStart := do
  if ← look (·.isMark .semicolon) then pure .none
  else
    match ← look Tokens.declKind? with
    | some kind =>
      advance
      let decls ← r.declarators r.fuel
      pure (.declare kind decls)
    | none =>
      let e ← r.expressionRule
      pure (.eval e)

def expressionBefore (r : Rules) (m : Mark) : Parse (Option Expr) := do
  if ← look (·.isMark m) then pure none
  else
    let e ← r.expressionRule
    pure (some e)

def forStatement (r : Rules) : Parse Stmt := do
  expect .parenOpen
  match ← look eachKeys? with
  | some keys => r.forEach keys
  | none =>
    let start ← r.forStart
    expect .semicolon
    let test ← r.expressionBefore .semicolon
    expect .semicolon
    let update ← r.expressionBefore .parenClose
    expect .parenClose
    let body ← r.statement
    pure (.for start test update body)

def startsCase (ts : Tokens) : Bool :=
  ts.isMark .braceClose || ts.isWord "case" || ts.isWord "default"

def caseBody (r : Rules) : Parse (List Stmt) := do
  expect .colon
  listUntil startsCase r.statement r.fuel

def cases (r : Rules) : Nat → Bool → Parse (List Case)
  | 0, _ => fail .tooLong
  | n + 1, seenDefault => do
    if ← eat .braceClose then pure []
    else if ← eatWord "case" then
      let test ← r.expressionRule
      let body ← r.caseBody
      let rest ← r.cases n seenDefault
      pure (.mk (some test) body :: rest)
    else if seenDefault then unexpected
    else
      expectWord "default"
      let body ← r.caseBody
      let rest ← r.cases n true
      pure (.mk none body :: rest)

def switchStatement (r : Rules) : Parse Stmt := do
  let subject ← r.condition
  expect .braceOpen
  let cases ← r.cases r.fuel false
  pure (.switch subject cases)

def handler (r : Rules) : Parse Handler := do
  if ← eat .parenOpen then
    let name ← identifier
    expect .parenClose
    let body ← r.block
    pure (.mk (some name) body)
  else
    let body ← r.block
    pure (.mk none body)

def tryStatement (r : Rules) : Parse Stmt := do
  let body ← r.block
  let handler ← if ← eatWord "catch" then some <$> r.handler else pure none
  let last ← if ← eatWord "finally" then some <$> r.block else pure none
  if handler.isNone && last.isNone then unexpected
  else pure (.try body handler last)

def returnStatement (r : Rules) : Parse Stmt := do
  if ← look (fun ts => ts.isMark .semicolon || endsStatement ts) then
    semicolon
    pure (.return none)
  else
    let e ← r.expressionRule
    semicolon
    pure (.return (some e))

def declaration (r : Rules) (kind : DeclKind) : Parse Stmt := do
  let decls ← r.declarators r.fuel
  semicolon
  pure (.declare kind decls)

/-- The rule for a statement that opens with a reserved word; the word is already taken. -/
def wordRule? (r : Rules) (word : String) : Option (Parse Stmt) :=
  match word with
  | "var" => some (r.declaration .var)
  | "let" => some (r.declaration .let)
  | "const" => some (r.declaration .const)
  | "if" => some r.ifStatement
  | "while" => some (do
    let test ← r.condition
    let body ← r.statement
    pure (.while test body))
  | "do" => some r.doStatement
  | "for" => some r.forStatement
  | "break" => some (do
    semicolon
    pure .break)
  | "continue" => some (do
    semicolon
    pure .continue)
  | "function" => some (.function <$> r.functionRest true)
  | "return" => some r.returnStatement
  | "throw" => some (do
    let e ← r.expressionRule
    semicolon
    pure (.throw e))
  | "try" => some r.tryStatement
  | "switch" => some r.switchStatement
  | _ => none

def expressionStatement (r : Rules) : Parse Stmt := do
  let e ← r.expressionRule
  semicolon
  pure (.expr e)

def statementRule (r : Rules) : Parse Stmt := do
  match ← look Tokens.head? with
  | some (.mark .semicolon) => advance; pure .empty
  | some (.mark .braceOpen) => .block <$> r.block
  | some (.name word) =>
    match r.wordRule? word with
    | some rule => do
      advance
      rule
    | none =>
      if ← look Tokens.asyncFunctionAhead then
        advance
        advance
        .function <$> r.functionRest true
      else r.expressionStatement
  | _ => r.expressionStatement

def level : Nat → Rules
  | 0 => ⟨0, fail .tooLong, fail .tooLong, fun _ => fail .tooLong, fail .tooLong, fail .tooLong⟩
  | n + 1 =>
    ⟨n + 1,
     fun ts => (level n).expressionRule ts,
     fun ts => (level n).assignmentRule ts,
     fun least ts => (level n).binaryRule least ts,
     fun ts => (level n).unaryRule ts,
     fun ts => (level n).statementRule ts⟩

def program (r : Rules) : Nat → Parse Program
  | 0 => fail .tooLong
  | n + 1 => do
    if ← look Tokens.atEnd then pure []
    else
      let s ← r.statement
      let rest ← r.program n
      pure (s :: rest)

end Rules

def parse (source : String) : Except SourceError Program := do
  let tokens ← tokenize source
  let fuel := source.length + 2
  let (body, _) ← (Rules.level fuel).program fuel tokens
  pure body

end Apiary
