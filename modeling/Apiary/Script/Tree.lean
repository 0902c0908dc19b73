import Apiary.Number.Double

/-!
Scripts as trees: expressions, statements and function literals.
-/

namespace Apiary

inductive DeclKind
  | var | let | const
  deriving DecidableEq, Repr

inductive BinaryOp
  | add | sub | mul | div | rem | pow
  | lt | le | gt | ge
  | looseEq | looseNe | strictEq | strictNe
  | bitAnd | bitOr | bitXor | shl | shr | ushr
  deriving DecidableEq, Repr

inductive LogicalOp
  | and | or | nullish
  deriving DecidableEq, Repr

inductive UnaryOp
  | not | neg | plus | bitNot | typeof | void
  deriving DecidableEq, Repr

mutual

inductive Expr
  | number (x : Double)
  | string (s : String)
  | template (pieces : List Piece)
  | bool (b : Bool)
  | null
  | undefined
  | name (n : String)
  | array (items : List Expr)
  | object (fields : List Field)
  | member (object : Expr) (property : String) (optional : Bool)
  | index (object index : Expr)
  | call (callee : Expr) (args : List Expr)
  | new (callee : Expr) (args : List Expr)
  | function (f : FunctionLiteral)
  | unary (op : UnaryOp) (operand : Expr)
  /-- `++` and `--`; the value is the new number when the sign stands `before` the target. -/
  | update (increment before : Bool) (target : Expr)
  | binary (op : BinaryOp) (left right : Expr)
  | logical (op : LogicalOp) (left right : Expr)
  | conditional (test yes no : Expr)
  | assign (op : Option BinaryOp) (target value : Expr)
  | sequence (items : List Expr)
  | await (operand : Expr)

inductive Piece
  | text (s : String)
  | hole (e : Expr)

inductive Field
  | named (key : String) (value : Expr)
  | computed (key value : Expr)

inductive FunctionLiteral
  | mk (name : Option String) (params : List String) (arrow : Bool) (body : FunctionBody)

inductive FunctionBody
  | block (body : List Stmt)
  | value (e : Expr)

inductive Declarator
  | mk (name : String) (init : Option Expr)

inductive ForStart
  | none
  | declare (kind : DeclKind) (decls : List Declarator)
  | eval (e : Expr)

inductive Case
  | mk (test : Option Expr) (body : List Stmt)

inductive Handler
  | mk (param : Option String) (body : List Stmt)

inductive Stmt
  | declare (kind : DeclKind) (decls : List Declarator)
  | expr (e : Expr)
  | block (body : List Stmt)
  | ifElse (test : Expr) (yes : Stmt) (no : Option Stmt)
  | while (test : Expr) (body : Stmt)
  | doWhile (body : Stmt) (test : Expr)
  | for (start : ForStart) (test update : Option Expr) (body : Stmt)
  | forEach (keys : Bool) (kind : Option DeclKind) (name : String) (source : Expr) (body : Stmt)
  | switch (subject : Expr) (cases : List Case)
  | break
  | continue
  | function (f : FunctionLiteral)
  | return (value : Option Expr)
  | throw (value : Expr)
  | try (body : List Stmt) (handler : Option Handler) (last : Option (List Stmt))
  | empty

end

instance : Inhabited Expr := ⟨.undefined⟩

instance : Inhabited Stmt := ⟨.empty⟩

namespace FunctionLiteral

def name : FunctionLiteral → Option String
  | mk name _ _ _ => name

def params : FunctionLiteral → List String
  | mk _ params _ _ => params

def arrow : FunctionLiteral → Bool
  | mk _ _ arrow _ => arrow

def body : FunctionLiteral → FunctionBody
  | mk _ _ _ body => body

end FunctionLiteral

abbrev Program := List Stmt

def Expr.isPlace : Expr → Bool
  | name _ => true
  | member .. => true
  | index .. => true
  | _ => false

end Apiary
