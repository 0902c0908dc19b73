import Apiary.Proofs.Script.Termwise

/-!
Expressions, by recursion on the tree: all that one expression evaluates, calls apart, is evaluated in its own
environment.
-/

-- A use in a recursive call does not count for this linter.
set_option linter.unusedSectionVars false

namespace Apiary.Act.Termwise

variable {σ : Type} {careful : Prop} {host host' : Host σ} {rounds rounds' : Nat} {env : Env} {R : Link σ}
  {call call' : Calling σ} (hR : Termwise careful host host' env R) (hc : SameCalls R call call')

include hR

theorem lookup (name : String) : R (lookup name env) (Act.lookup name env) := by
  refine hR.bind (hR.lookScopes _) fun v => ?_
  cases v with
  | none => exact hR.plain (.fail (ne_badTarget_of_tail (by decide)))
  | some v => exact hR.plain (.ret v)

theorem readPlace (place : Place) : R (readPlace env place) (Act.readPlace env place) := by
  cases place with
  | name n => exact hR.lookup n
  | property object key => exact hR.plain (.getProperty object key)
  | item object key => exact hR.plain (.getIndex object key)

theorem writePlace (value : Value) (place : Place) :
    R (writePlace env value place) (Act.writePlace env value place) := by
  cases place with
  | name n => exact hR.assign n value
  | property object key => exact hR.plain (.setProperty object key value)
  | item object key => exact hR.plain (.setIndex object key value)

theorem typeofName (name : String) : R (typeofName name env) (Act.typeofName name env) :=
  hR.bind (hR.lookScopes _) fun _ => hR.plain (.ret _)

include hc

theorem callItem (this key : Value) (args : List Value) (what : String) :
    R (callItem ⟨host, call, rounds⟩ this key args what)
      (callItem ⟨host', call', rounds'⟩ this key args what) := by
  unfold Act.callItem
  cases key with
  | string name => exact hR.callMethod hc this name args what
  | _ =>
    refine hR.bind (hR.plain (.getIndex this _)) fun f => ?_
    split
    · exact hc f args (some this)
    · exact hR.plain (.fail (ne_badTarget_of_tail (by decide)))

mutual

theorem evalExpr : ∀ e : Expr, (careful → e.WellFormed) →
    R (evalExpr ⟨host, call, rounds⟩ env e) (evalExpr ⟨host', call', rounds'⟩ env e)
  | .number _, _ | .string _, _ | .bool _, _ | .null, _ | .undefined, _ => by
    simp only [Act.evalExpr]
    exact hR.plain (.ret _)
  | .template pieces, he => by
    simp only [Act.evalExpr]
    exact hR.map _ (evalPieces "" pieces fun h => (he h).2)
  | .name n, _ => by
    simp only [Act.evalExpr]
    exact hR.lookup n
  | .array items, he => by
    simp only [Act.evalExpr]
    exact hR.bind (evalAll items he) fun vs => hR.plain (.newArray _)
  | .object fields, he => by
    simp only [Act.evalExpr]
    exact hR.bind (evalFields [] fields he) fun fs => hR.plain (.alloc _ fun _ => by simp)
  | .member object property optional, he => by
    simp only [Act.evalExpr]
    refine hR.bind (evalExpr object he) fun v => ?_
    split
    · exact hR.plain (.ret _)
    · exact hR.plain (.getProperty v property)
  | .index object key, he => by
    simp only [Act.evalExpr]
    exact hR.bind (evalExpr object fun h => (he h).1) fun v =>
      hR.bind (evalExpr key fun h => (he h).2) fun k => hR.plain (.getIndex v k)
  | .call callee args, he => by
    simp only [Act.evalExpr]
    refine hR.bind (evalReceiver callee fun h => (he h).1) fun target => ?_
    have hargs := evalAll args fun h => (he h).2
    cases target with
    | skipped => exact hR.plain (.ret _)
    | method this name => exact hR.bind hargs fun vs => hR.callMethod hc this name vs _
    | item this key => exact hR.bind hargs fun vs => hR.callItem hc this key vs _
    | direct =>
      refine hR.bind (evalExpr callee fun h => (he h).1) fun f => ?_
      split
      · exact hR.bind hargs fun vs => hc f vs none
      · exact hR.plain (.fail (ne_badTarget_of_tail (by decide)))
  | .new callee args, he => by
    simp only [Act.evalExpr]
    refine hR.bind (evalExpr callee fun h => (he h).1) fun f => ?_
    refine hR.bind (evalAll args fun h => (he h).2) fun vs => ?_
    split
    · exact hc f vs none
    · exact hR.plain (.fail (ne_badTarget_of_tail (by decide)))
  | .function f, he => by
    simp only [Act.evalExpr]
    exact hR.newClosure he
  | .unary op operand, he => by
    simp only [Act.evalExpr]
    split
    · exact hR.typeofName _
    · exact hR.bind (evalExpr operand he) fun v => hR.plain (.applyUnary _ v)
  | .update increment before target, he => by
    simp only [Act.evalExpr]
    refine hR.bind (evalPlace target he) fun place => ?_
    exact hR.bind (hR.readPlace place) fun old => hR.bind (hR.plain (.number old)) fun _ =>
      hR.bind (hR.writePlace _ place) fun _ => hR.plain (.ret _)
  | .binary op left right, he => by
    simp only [Act.evalExpr]
    exact hR.bind (evalExpr left fun h => (he h).1) fun v =>
      hR.bind (evalExpr right fun h => (he h).2) fun w => hR.plain (.applyBinary op v w)
  | .logical op left right, he => by
    simp only [Act.evalExpr]
    refine hR.bind (evalExpr left fun h => (he h).1) fun v => ?_
    split
    · exact hR.plain (.ret v)
    · exact evalExpr right fun h => (he h).2
  | .conditional test yes no, he => by
    simp only [Act.evalExpr]
    refine hR.bind (evalExpr test fun h => (he h).1) fun v => ?_
    split
    · exact evalExpr yes fun h => (he h).2.1
    · exact evalExpr no fun h => (he h).2.2
  | .assign op target value, he => by
    simp only [Act.evalExpr]
    refine hR.bind (evalPlace target fun h => ⟨(he h).1, (he h).2.1⟩) fun place => ?_
    have hvalue := evalExpr value fun h => (he h).2.2
    cases op with
    | none =>
      exact hR.bind hvalue fun v => hR.bind (hR.writePlace v place) fun _ => hR.plain (.ret v)
    | some op =>
      refine hR.bind (hR.readPlace place) fun old => hR.bind hvalue fun w => ?_
      exact hR.bind (hR.plain (.applyBinary op old w)) fun v =>
        hR.bind (hR.writePlace v place) fun _ => hR.plain (.ret v)
  | .sequence items, he => by
    simp only [Act.evalExpr]
    exact evalLast .undefined items fun h => (he h).2
  | .await operand, he => by
    simp only [Act.evalExpr]
    exact evalExpr operand he

theorem evalReceiver : ∀ e : Expr, (careful → e.WellFormed) →
    R (evalReceiver ⟨host, call, rounds⟩ env e) (evalReceiver ⟨host', call', rounds'⟩ env e)
  | .member object property optional, he => by
    simp only [Act.evalReceiver]
    exact hR.bind (evalExpr object he) fun v => hR.plain (.ret _)
  | .index object key, he => by
    simp only [Act.evalReceiver]
    exact hR.bind (evalExpr object fun h => (he h).1) fun v =>
      hR.bind (evalExpr key fun h => (he h).2) fun k => hR.plain (.ret _)
  | .number _, _ | .string _, _ | .template _, _ | .bool _, _ | .null, _ | .undefined, _ | .name _, _
  | .array _, _ | .object _, _ | .call _ _, _ | .new _ _, _ | .function _, _ | .unary _ _, _
  | .update _ _ _, _ | .binary _ _ _, _ | .logical _ _ _, _ | .conditional _ _ _, _ | .assign _ _ _, _
  | .sequence _, _ | .await _, _ => by
    simp only [Act.evalReceiver]
    exact hR.plain (.ret _)

theorem evalPlace : ∀ e : Expr,
    (careful → e.isPlace = true ∧ e.WellFormed) → R (evalPlace ⟨host, call, rounds⟩ env e) (evalPlace ⟨host', call', rounds'⟩ env e)
  | .name n, _ => by
    simp only [Act.evalPlace]
    exact hR.plain (.ret _)
  | .member object property _, he => by
    simp only [Act.evalPlace]
    exact hR.bind (evalExpr object fun h => (he h).2) fun v => hR.plain (.ret _)
  | .index object key, he => by
    simp only [Act.evalPlace]
    exact hR.bind (evalExpr object fun h => (he h).2.1) fun v =>
      hR.bind (evalExpr key fun h => (he h).2.2) fun k => hR.plain (.ret _)
  -- A careful relation never meets what is no place here.
  | .number _, he | .string _, he | .template _, he | .bool _, he | .null, he | .undefined, he
  | .array _, he | .object _, he | .call _ _, he | .new _ _, he | .function _, he | .unary _ _, he
  | .update _ _ _, he | .binary _ _ _, he | .logical _ _ _, he | .conditional _ _ _, he
  | .assign _ _ _, he | .sequence _, he | .await _, he => by
    simp only [Act.evalPlace]
    exact hR.raise fun h => absurd (he h).1 Bool.false_ne_true

theorem evalAll : ∀ es : List Expr, (careful → Expr.AllWellFormed es) →
    R (evalAll ⟨host, call, rounds⟩ env es) (evalAll ⟨host', call', rounds'⟩ env es)
  | [], _ => by
    simp only [Act.evalAll]
    exact hR.plain (.ret _)
  | e :: rest, he => by
    simp only [Act.evalAll]
    exact hR.bind (evalExpr e fun h => (he h).1) fun v =>
      hR.bind (evalAll rest fun h => (he h).2) fun vs => hR.plain (.ret _)

theorem evalLast (last : Value) : ∀ es : List Expr, (careful → Expr.AllWellFormed es) →
    R (evalLast ⟨host, call, rounds⟩ env last es) (evalLast ⟨host', call', rounds'⟩ env last es)
  | [], _ => by
    simp only [Act.evalLast]
    exact hR.plain (.ret last)
  | e :: rest, he => by
    simp only [Act.evalLast]
    exact hR.bind (evalExpr e fun h => (he h).1) fun v => evalLast v rest fun h => (he h).2

theorem evalPieces (done : String) : ∀ pieces : List Piece,
    (careful → Piece.AllWellFormed pieces) → R (evalPieces ⟨host, call, rounds⟩ env done pieces)
      (evalPieces ⟨host', call', rounds'⟩ env done pieces)
  | [], _ => by
    simp only [Act.evalPieces]
    exact hR.plain (.ret done)
  | .text t :: rest, he => by
    simp only [Act.evalPieces]
    exact evalPieces (done ++ t) rest he
  | .hole e :: rest, he => by
    simp only [Act.evalPieces]
    exact hR.bind (evalExpr e fun h => (he h).1) fun v =>
      hR.bind (hR.plain (.display v)) fun t => evalPieces (done ++ t) rest fun h => (he h).2

theorem evalFields (done : List (String × Value)) : ∀ fields : List Field,
    (careful → Field.AllWellFormed fields) → R (evalFields ⟨host, call, rounds⟩ env done fields)
      (evalFields ⟨host', call', rounds'⟩ env done fields)
  | [], _ => by
    simp only [Act.evalFields]
    exact hR.plain (.ret done)
  | .named key value :: rest, he => by
    simp only [Act.evalFields]
    exact hR.bind (evalExpr value fun h => (he h).1) fun v =>
      evalFields (setField key v done) rest fun h => (he h).2
  | .computed key value :: rest, he => by
    simp only [Act.evalFields]
    exact hR.bind (evalExpr key fun h => (he h).1) fun v =>
      hR.bind (hR.plain (.display v)) fun k =>
        hR.bind (evalExpr value fun h => (he h).2.1) fun v =>
          evalFields (setField k v done) rest fun h => (he h).2.2

end

end Apiary.Act.Termwise
