import Apiary.Script.Tree

/-!
Trees of the form that parsing gives them, everywhere: in the bodies of functions and in the holes of templates
as well.
-/

namespace Apiary

def Piece.textFirst : List Piece → Bool
  | .text _ :: _ => true
  | _ => false

/-- No text is empty, and no two texts stand side by side. -/
def Piece.Tidy : List Piece → Prop
  | [] => True
  | .text s :: rest => s ≠ "" ∧ textFirst rest = false ∧ Tidy rest
  | .hole _ :: rest => Tidy rest

def Case.isDefault : Case → Bool
  | mk test _ => test.isNone

mutual

def Expr.WellFormed : Expr → Prop
  | .number _ | .string _ | .bool _ | .null | .undefined | .name _ => True
  | .template pieces => Piece.Tidy pieces ∧ Piece.AllWellFormed pieces
  | .array items => Expr.AllWellFormed items
  | .object fields => Field.AllWellFormed fields
  | .member object _ _ => object.WellFormed
  | .index object key => object.WellFormed ∧ key.WellFormed
  | .call callee args | .new callee args => callee.WellFormed ∧ Expr.AllWellFormed args
  | .function f => f.WellFormed
  | .unary _ operand | .await operand => operand.WellFormed
  | .update _ _ target => target.isPlace = true ∧ target.WellFormed
  | .binary _ left right | .logical _ left right => left.WellFormed ∧ right.WellFormed
  | .conditional test yes no => test.WellFormed ∧ yes.WellFormed ∧ no.WellFormed
  | .assign _ target value => target.isPlace = true ∧ target.WellFormed ∧ value.WellFormed
  | .sequence items => 2 ≤ items.length ∧ Expr.AllWellFormed items

def Expr.AllWellFormed : List Expr → Prop
  | [] => True
  | e :: rest => e.WellFormed ∧ Expr.AllWellFormed rest

def Expr.OptionWellFormed : Option Expr → Prop
  | none => True
  | some e => e.WellFormed

def Piece.AllWellFormed : List Piece → Prop
  | [] => True
  | .text _ :: rest => Piece.AllWellFormed rest
  | .hole e :: rest => e.WellFormed ∧ Piece.AllWellFormed rest

def Field.AllWellFormed : List Field → Prop
  | [] => True
  | .named _ value :: rest => value.WellFormed ∧ Field.AllWellFormed rest
  | .computed key value :: rest => key.WellFormed ∧ value.WellFormed ∧ Field.AllWellFormed rest

def FunctionLiteral.WellFormed : FunctionLiteral → Prop
  | .mk name _ arrow body => (arrow = true → name = none) ∧ body.WellFormed

def FunctionBody.WellFormed : FunctionBody → Prop
  | .block body => Stmt.AllWellFormed body
  | .value e => e.WellFormed

def Declarator.AllWellFormed : List Declarator → Prop
  | [] => True
  | .mk _ init :: rest => Expr.OptionWellFormed init ∧ Declarator.AllWellFormed rest

def ForStart.WellFormed : ForStart → Prop
  | .none => True
  | .declare _ decls => decls ≠ [] ∧ Declarator.AllWellFormed decls
  | .eval e => e.WellFormed

def Case.AllWellFormed : List Case → Prop
  | [] => True
  | .mk test body :: rest => Expr.OptionWellFormed test ∧ Stmt.AllWellFormed body ∧ Case.AllWellFormed rest

def Handler.OptionWellFormed : Option Handler → Prop
  | none => True
  | some (.mk _ body) => Stmt.AllWellFormed body

def Stmt.WellFormed : Stmt → Prop
  | .empty | .break | .continue => True
  | .declare _ decls => decls ≠ [] ∧ Declarator.AllWellFormed decls
  | .expr e | .throw e => e.WellFormed
  | .return value => Expr.OptionWellFormed value
  | .block body => Stmt.AllWellFormed body
  | .ifElse test yes no => test.WellFormed ∧ yes.WellFormed ∧ Stmt.OptionWellFormed no
  | .while test body | .doWhile body test => test.WellFormed ∧ body.WellFormed
  | .for start test update body =>
    start.WellFormed ∧ Expr.OptionWellFormed test ∧ Expr.OptionWellFormed update ∧ body.WellFormed
  | .forEach _ _ _ source body => source.WellFormed ∧ body.WellFormed
  | .switch subject cases =>
    subject.WellFormed ∧ cases.countP Case.isDefault ≤ 1 ∧ Case.AllWellFormed cases
  | .function f => f.name.isSome = true ∧ f.WellFormed
  | .try body handler last =>
    (handler.isSome = true ∨ last.isSome = true) ∧ Stmt.AllWellFormed body ∧ Handler.OptionWellFormed handler ∧
      Stmt.OptionAllWellFormed last

def Stmt.AllWellFormed : List Stmt → Prop
  | [] => True
  | s :: rest => s.WellFormed ∧ Stmt.AllWellFormed rest

def Stmt.OptionWellFormed : Option Stmt → Prop
  | none => True
  | some s => s.WellFormed

def Stmt.OptionAllWellFormed : Option (List Stmt) → Prop
  | none => True
  | some body => Stmt.AllWellFormed body

end

theorem FunctionLiteral.WellFormed.body {f : FunctionLiteral} (h : f.WellFormed) : f.body.WellFormed := by
  cases f
  exact h.2

end Apiary
