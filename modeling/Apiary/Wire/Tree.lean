import Apiary.Json.Basic
import Apiary.Number.Text
import Apiary.Script.Tree

/-!
Syntax trees as data: every node is an array with the name of its form in front.
-/

namespace Apiary

namespace Json

def node (form : String) (parts : List Json) : Json := .arr (.str form :: parts)

def ofName (name : Option String) : Json := ofOption (name.map .str)

end Json

def DeclKind.toJson : DeclKind → Json
  | var => .str "var"
  | .let => .str "let"
  | const => .str "const"

def BinaryOp.toJson : BinaryOp → Json
  | add => .str "Add"
  | sub => .str "Sub"
  | mul => .str "Mul"
  | div => .str "Div"
  | rem => .str "Rem"
  | pow => .str "Pow"
  | lt => .str "Lt"
  | le => .str "LtEq"
  | gt => .str "Gt"
  | ge => .str "GtEq"
  | looseEq => .str "Eq"
  | looseNe => .str "NotEq"
  | strictEq => .str "StrictEq"
  | strictNe => .str "StrictNotEq"
  | bitAnd => .str "BitAnd"
  | bitOr => .str "BitOr"
  | bitXor => .str "BitXor"
  | shl => .str "Shl"
  | shr => .str "Shr"
  | ushr => .str "UShr"

def LogicalOp.toJson : LogicalOp → Json
  | and => .str "And"
  | or => .str "Or"
  | nullish => .str "Nullish"

def UnaryOp.toJson : UnaryOp → Json
  | not => .str "Not"
  | neg => .str "Neg"
  | plus => .str "Plus"
  | bitNot => .str "BitNot"
  | typeof => .str "Typeof"
  | void => .str "Void"

mutual

def Expr.toJson : Expr → Json
  | .number x => .node "num" [.str (numberText x)]
  | .string s => .node "str" [.str s]
  | .template pieces => .node "tpl" [.arr (piecesJson pieces)]
  | .bool b => .node "bool" [.bool b]
  | .null => .node "null" []
  | .undefined => .node "undefined" []
  | .name n => .node "id" [.str n]
  | .array items => .node "array" [.arr (exprsJson items)]
  | .object fields => .node "object" [.arr (fieldsJson fields)]
  | .member e name optional => .node "member" [e.toJson, .str name, .bool optional]
  | .index e i => .node "index" [e.toJson, i.toJson]
  | .call f args => .node "call" [f.toJson, .arr (exprsJson args)]
  | .new f args => .node "new" [f.toJson, .arr (exprsJson args)]
  | .function f => .node "function" [f.toJson]
  | .unary op e => .node "unary" [op.toJson, e.toJson]
  | .update increment before e => .node "update" [.bool increment, .bool before, e.toJson]
  | .binary op l r => .node "binary" [op.toJson, l.toJson, r.toJson]
  | .logical op l r => .node "logical" [op.toJson, l.toJson, r.toJson]
  | .conditional t a b => .node "cond" [t.toJson, a.toJson, b.toJson]
  | .assign op t v => .node "assign" [Json.ofOption (op.map (·.toJson)), t.toJson, v.toJson]
  | .sequence items => .node "seq" [.arr (exprsJson items)]
  | .await e => .node "await" [e.toJson]

def exprsJson : List Expr → List Json
  | [] => []
  | e :: rest => e.toJson :: exprsJson rest

def exprJson? : Option Expr → Json
  | none => .null
  | some e => e.toJson

def Piece.toJson : Piece → Json
  | .text s => .node "text" [.str s]
  | .hole e => .node "expr" [e.toJson]

def piecesJson : List Piece → List Json
  | [] => []
  | p :: rest => p.toJson :: piecesJson rest

def Field.toJson : Field → Json
  | .named key e => .node "named" [.str key, e.toJson]
  | .computed key e => .node "computed" [key.toJson, e.toJson]

def fieldsJson : List Field → List Json
  | [] => []
  | f :: rest => f.toJson :: fieldsJson rest

def FunctionLiteral.toJson : FunctionLiteral → Json
  | .mk name params arrow body =>
    .arr [Json.ofName name, .arr (params.map .str), .bool arrow, body.toJson]

def FunctionBody.toJson : FunctionBody → Json
  | .block body => .node "block" [.arr (stmtsJson body)]
  | .value e => .node "expr" [e.toJson]

def declsJson : List Declarator → List Json
  | [] => []
  | .mk name init :: rest => .arr [.str name, exprJson? init] :: declsJson rest

def ForStart.toJson : ForStart → Json
  | .none => .null
  | .declare kind decls => .arr [kind.toJson, .arr (declsJson decls)]
  | .eval e => .node "expr" [e.toJson]

def casesJson : List Case → List Json
  | [] => []
  | .mk test body :: rest => .arr [exprJson? test, .arr (stmtsJson body)] :: casesJson rest

def handlerJson? : Option Handler → Json
  | none => .null
  | some (.mk param body) => .arr [Json.ofName param, .arr (stmtsJson body)]

def blockJson? : Option (List Stmt) → Json
  | none => .null
  | some body => .arr (stmtsJson body)

def Stmt.toJson : Stmt → Json
  | .declare kind decls => .arr [kind.toJson, .arr (declsJson decls)]
  | .expr e => .node "expr" [e.toJson]
  | .block body => .node "block" [.arr (stmtsJson body)]
  | .ifElse t a b => .node "if" [t.toJson, a.toJson, stmtJson? b]
  | .while t b => .node "while" [t.toJson, b.toJson]
  | .doWhile b t => .node "do" [b.toJson, t.toJson]
  | .for s t u b => .node "for" [s.toJson, exprJson? t, exprJson? u, b.toJson]
  | .forEach keys kind name e b =>
    .node (if keys then "forin" else "forof")
      [Json.ofOption (kind.map (·.toJson)), .str name, e.toJson, b.toJson]
  | .switch e cases => .node "switch" [e.toJson, .arr (casesJson cases)]
  | .break => .node "break" []
  | .continue => .node "continue" []
  | .function f => .node "function" [f.toJson]
  | .return e => .node "return" [exprJson? e]
  | .throw e => .node "throw" [e.toJson]
  | .try body handler last =>
    .node "try" [.arr (stmtsJson body), handlerJson? handler, blockJson? last]
  | .empty => .node "empty" []

def stmtJson? : Option Stmt → Json
  | none => .null
  | some s => s.toJson

def stmtsJson : List Stmt → List Json
  | [] => []
  | s :: rest => s.toJson :: stmtsJson rest

end

end Apiary
