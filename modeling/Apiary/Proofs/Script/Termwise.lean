import Apiary.Proofs.Script.Simple.Code
import Apiary.Proofs.Script.WellFormed

/-!
Relations between the acts of two runs of the same code that the evaluation of an expression keeps, in one
environment and with given calls: those that its single steps keep. A relation that is careful is kept by
well-formed code only, and asks for less: no step raises the error of an assignment to what is no place, and all
functions are well formed.
-/

namespace Apiary.Act

variable {σ : Type}

abbrev Link (σ : Type) := ∀ ⦃α : Type⦄, Act σ α → Act σ α → Prop

structure Termwise (careful : Prop) (host host' : Host σ) (env : Env) (R : Link σ) : Prop where
  plain {α : Type} {a : Act σ α} : Plain a → R a a
  raise {α : Type} {message : String} {thrown : Option Value} :
    (careful → Interrupt.error message thrown ≠ .badTarget) →
      R (throw (.error message thrown) : Act σ α) (throw (.error message thrown))
  lookScopes {α : Type} (f : Scopes → α) : R (lookScopes f) (lookScopes f)
  assign (name : String) (value : Value) : R (assign name value env) (assign name value env)
  newClosure {f : FunctionLiteral} : (careful → f.WellFormed) → R (newClosure ⟨f, env⟩) (newClosure ⟨f, env⟩)
  bind {α β : Type} {a b : Act σ α} {f g : α → Act σ β} : R a b → (∀ x, R (f x) (g x)) →
    R (a >>= f) (b >>= g)
  call (f : HostFunction) (args : List Value) : R (lift (host.call f args)) (lift (host'.call f args))
  log (line : String) : R (log host line) (log host' line)
  random : R (random host) (random host')
  clock : R (clock host) (clock host')

def SameCalls (R : Link σ) (call call' : Calling σ) : Prop :=
  ∀ f args this, R (call f args this) (call' f args this)

namespace Termwise

variable {careful : Prop} {host host' : Host σ} {env : Env} {R : Link σ} {call call' : Calling σ}
  (hR : Termwise careful host host' env R)

include hR

theorem map {α β : Type} {a b : Act σ α} (f : α → β) (h : R a b) : R (f <$> a) (f <$> b) := by
  rw [map_eq_pure_bind, map_eq_pure_bind]
  exact hR.bind h fun x => hR.plain (.ret (f x))

theorem invoke (hc : SameCalls R call call') (f : Value) (args : List Value) :
    R (invoke call f args) (invoke call' f args) := by
  unfold Act.invoke
  split
  · exact hc f args none
  · exact hR.plain ((Plain.display f).bind fun _ => .fail (ne_badTarget_of_tail (by decide)))

theorem walk {β : Type} {round round' : β → Nat → Value → Act σ (Next β)}
    (hround : ∀ state i v, R (round state i v) (round' state i v)) (i : Nat) (state : β)
    (items : List Value) : R (walk round i state items) (walk round' i state items) := by
  induction items generalizing i state with
  | nil => exact hR.plain (.ret _)
  | cons v rest ih =>
    refine hR.bind (hround state i v) fun next => ?_
    cases next with
    | done value => exact hR.plain (.ret _)
    | go state => exact ih (i + 1) state

theorem walkArray (hc : SameCalls R call call') {β : Type} (cell : Nat) (callback : Value)
    (round : β → Nat → Value → Value → Next β) (start : β) {finish : β → Act σ Value}
    (hf : ∀ state, Plain (finish state)) :
    R (walkArray call cell callback round start finish)
      (walkArray call' cell callback round start finish) := by
  refine hR.bind (hR.plain (.look _)) fun items => ?_
  refine hR.bind (hR.walk (fun state i v => ?_) 0 start items.toList) fun next => ?_
  · exact hR.bind (hR.invoke hc _ _) fun r => hR.plain (.ret _)
  · cases next with
    | done value => exact hR.plain (.ret value)
    | go state => exact hR.plain (hf state)

theorem searchMethod (hc : SameCalls R call call') (cell : Nat) (callback : Value) (wanted : Bool)
    (found : Nat → Value → Value) (missing : Value) :
    R (searchMethod call cell callback wanted found missing)
      (searchMethod call' cell callback wanted found missing) :=
  hR.walkArray hc cell callback _ _ fun _ => .ret missing

theorem reduceFrom (hc : SameCalls R call call') (cell : Nat) (callback : Value) (i : Nat)
    (start : Value) (items : List Value) :
    R (reduceFrom call cell callback i start items)
      (reduceFrom call' cell callback i start items) := by
  refine hR.bind (hR.walk (fun acc i v => ?_) i start items) fun next => ?_
  · exact hR.bind (hR.invoke hc _ _) fun r => hR.plain (.ret _)
  · cases next with
    | done value => exact hR.plain (.ret value)
    | go acc => exact hR.plain (.ret acc)

theorem reduceMethod (hc : SameCalls R call call') (cell : Nat) (args : List Value) :
    R (reduceMethod call cell args) (reduceMethod call' cell args) := by
  refine hR.bind (hR.plain (.look _)) fun items => ?_
  dsimp only
  split
  · exact hR.reduceFrom hc _ _ _ _ _
  · exact hR.reduceFrom hc _ _ _ _ _
  · exact hR.plain (.fail (by decide))

theorem merge {rightFirst rightFirst' : Value → Value → Act σ Bool}
    (hr : ∀ a b, R (rightFirst a b) (rightFirst' a b)) (n : Nat)
    (done left right : List Value) :
    R (merge rightFirst n done left right) (merge rightFirst' n done left right) := by
  induction n generalizing done left right with
  | zero => exact hR.plain (.ret _)
  | succ n ih =>
    cases left with
    | nil => exact hR.plain (.ret _)
    | cons a left =>
      cases right with
      | nil => exact hR.plain (.ret _)
      | cons b right =>
        refine hR.bind (hr a b) fun first => ?_
        cases first with
        | true => exact ih _ _ _
        | false => exact ih _ _ _

theorem mergeSort {rightFirst rightFirst' : Value → Value → Act σ Bool}
    (hr : ∀ a b, R (rightFirst a b) (rightFirst' a b)) (n : Nat) (items : List Value) :
    R (mergeSort rightFirst n items) (mergeSort rightFirst' n items) := by
  induction n generalizing items with
  | zero => exact hR.plain (.ret items)
  | succ n ih =>
    unfold Act.mergeSort
    split
    · exact hR.plain (.ret items)
    · exact hR.bind (ih _) fun left => hR.bind (ih _) fun right => hR.merge hr _ _ _ _

theorem comesBefore (hc : SameCalls R call call') (comparator a b : Value) :
    R (comesBefore call comparator a b) (comesBefore call' comparator a b) := by
  unfold Act.comesBefore
  split
  · exact hR.bind (hR.invoke hc _ _) fun r => hR.plain ((Plain.number r).bind fun _ => .ret _)
  · exact hR.plain ((Plain.display a).bind fun _ => (Plain.display b).bind fun _ => .ret _)

theorem sortMethod (hc : SameCalls R call call') (cell : Nat) (comparator : Value) :
    R (sortMethod call cell comparator) (sortMethod call' cell comparator) := by
  refine hR.bind (hR.plain (.look _)) fun items => ?_
  refine hR.bind (hR.mergeSort (hR.comesBefore hc comparator) _ _) fun sorted => ?_
  exact hR.plain ((Plain.update _ fun _ => by simp).bind fun _ => .ret _)

theorem arrayMethod (hc : SameCalls R call call') (cell : Nat) (name : String)
    (args : List Value) :
    R (arrayMethod call cell name args) (arrayMethod call' cell name args) := by
  unfold Act.arrayMethod
  dsimp only
  split
  case h_1 | h_4 => exact hR.plain ((Plain.update _ fun _ => by simp).bind fun _ => (Plain.look _).map _)
  case h_2 => exact hR.plain ((Plain.popMethod cell).map _)
  case h_3 => exact hR.plain ((Plain.shiftMethod cell).map _)
  case h_5 =>
    exact hR.plain ((Plain.displayArgOr _ _ _).bind fun _ => (Plain.look _).bind fun _ =>
      (Plain.displayItems _).bind fun _ => .ret _)
  case h_6 => exact hR.plain (((Plain.display _).map _).map _)
  case h_7 | h_8 => exact hR.plain ((Plain.look _).map _)
  case h_9 => exact hR.plain ((Plain.sliceArray cell args).map _)
  case h_10 => exact hR.plain ((Plain.alloc _ fun _ => by simp).map _)
  case h_11 | h_12 => exact hR.plain ((Plain.update _ fun _ => by simp).bind fun _ => .ret _)
  case h_13 => exact hR.map _ (hR.walkArray hc _ _ _ _ fun out => Plain.newArray out)
  case h_14 => exact hR.map _ (hR.walkArray hc _ _ _ _ fun _ => .ret _)
  case h_15 => exact hR.map _ (hR.walkArray hc _ _ _ _ fun out => Plain.newArray out)
  case h_16 | h_17 | h_18 | h_19 => exact hR.map _ (hR.searchMethod hc _ _ _ _ _)
  case h_20 => exact hR.map _ (hR.reduceMethod hc _ _)
  case h_21 => exact hR.map _ (hR.sortMethod hc _ _)
  case h_22 => exact hR.plain (.ret none)

theorem copiedMethod (hc : SameCalls R call call') (b : FloatBuffer) (name : String)
    (args : List Value) :
    R (copiedMethod call b name args) (copiedMethod call' b name args) := by
  refine hR.bind (hR.plain (.alloc _ fun _ => by simp)) fun copy => ?_
  refine hR.bind (hR.arrayMethod hc copy name args) fun result => ?_
  cases result with
  | none => exact hR.plain (.ret none)
  | some v =>
    dsimp only
    split
    · exact hR.plain ((Plain.toBuffer v).map _)
    · exact hR.plain (.ret _)

theorem floatsMethod (hc : SameCalls R call call') (b : FloatBuffer) (name : String)
    (args : List Value) :
    R (floatsMethod call b name args) (floatsMethod call' b name args) := by
  unfold Act.floatsMethod
  split
  · exact hR.plain ((Plain.pushSingles _ _).bind fun _ => (Plain.look _).map _)
  · exact hR.plain ((Plain.look _).bind fun _ => (Plain.update _ fun _ => by simp).bind fun _ => .ret _)
  · exact hR.plain ((Plain.look _).bind fun _ => (Plain.update _ fun _ => by simp).bind fun _ => .ret _)
  · exact hR.plain (.fail (by decide))
  · exact hR.plain (.fail (by decide))
  · exact hR.plain (.fail (by decide))
  · exact hR.plain ((Plain.single _).bind fun _ => (Plain.update _ fun _ => by simp).bind fun _ => .ret _)
  · exact hR.copiedMethod hc b _ args

theorem otherBuiltin (b : Builtin) (x : Double) (args : List Value) :
    R (otherBuiltin host b x args) (otherBuiltin host' b x args) := by
  unfold Act.otherBuiltin
  split
  case h_1 | h_2 => exact hR.plain ((Plain.extreme _ _ _).map _)
  case h_3 => exact hR.map _ hR.random
  case h_4 =>
    split
    · exact hR.plain (.ret _)
    · exact hR.plain ((Plain.display _).map _)
  case h_7 => exact hR.plain (.parseIntArgs args)
  case h_8 => exact hR.plain ((Plain.display _).bind fun _ => .ret _)
  case h_11 => exact hR.plain (.stringify args)
  case h_12 => exact hR.plain (.parseJson args)
  case h_13 | h_14 => exact hR.plain (.alloc _ fun _ => by simp)
  case h_16 =>
    exact hR.bind (hR.plain (.inspectAll args)) fun texts =>
      hR.bind (hR.log _) fun _ => hR.plain (.ret _)
  case h_17 => exact hR.plain (.errorArgs args)
  all_goals exact hR.plain (.ret _)

theorem builtin (b : Builtin) (args : List Value) :
    R (builtin host b args) (builtin host' b args) := by
  refine hR.bind (hR.plain (.number _)) fun x => ?_
  split
  · exact hR.plain (.ret _)
  · exact hR.plain ((Plain.number _).bind fun _ => .ret _)
  · exact hR.otherBuiltin b x args

theorem expandNetwork (cell : Nat) :
    R (expandNetwork host cell) (expandNetwork host' cell) := by
  refine hR.bind hR.clock fun now => hR.plain ?_
  refine (Plain.look _).bind fun n => ?_
  cases n with
  | none => exact .ret _
  | some n => exact (Plain.ofShape _).bind fun grown => (Plain.update _ fun _ => by simp).bind fun _ => .ret _

theorem networkMethod (cell : Nat) (name : String) (args : List Value) :
    R (networkMethod host cell name args) (networkMethod host' cell name args) := by
  unfold Act.networkMethod
  split
  · exact hR.plain ((Plain.forwardNetwork cell args).map _)
  · exact hR.map _ (hR.expandNetwork cell)
  · exact hR.plain ((Plain.single _).bind fun _ => (Plain.pruneNetwork _ _).map _)
  · exact hR.plain ((Plain.single _).bind fun _ => (Plain.mutateNetwork _ _).map _)
  · exact hR.plain (.ret none)

theorem method? (hc : SameCalls R call call') (this : Value) (name : String) (args : List Value) :
    R (method? host call this name args) (method? host' call' this name args) := by
  unfold Act.method?
  cases this with
  | object cell =>
    refine hR.bind (hR.plain (.look _)) fun f => ?_
    split
    · exact hR.map _ (hc _ _ _)
    · exact hR.plain (.ret none)
  | host f =>
    dsimp only
    cases f.member? name with
    | none => exact hR.plain (.ret none)
    | some member => exact hR.map _ (hR.call member args)
  | number x => exact hR.plain (.numberMethod x name args)
  | string s => exact hR.plain (.stringMethod s name args)
  | array cell => exact hR.arrayMethod hc cell name args
  | floats b => exact hR.floatsMethod hc b name args
  | network cell => exact hR.networkMethod cell name args
  | layer cell => exact hR.plain (.layerMethod cell name args)
  | function cell code =>
    dsimp only
    split
    · exact hR.map _ (hc _ _ _)
    · exact hR.plain (.ret none)
  | builtin b =>
    dsimp only
    split
    · exact hR.map _ (hc _ _ _)
    · exact hR.plain (.ret none)
  | _ => exact hR.plain (.ret none)

theorem callMethod (hc : SameCalls R call call') (this : Value) (name : String)
    (args : List Value) (what : String) :
    R (callMethod host call this name args what)
      (callMethod host' call' this name args what) := by
  unfold Act.callMethod
  cases this with
  | undefined => exact hR.plain (.fail (ne_badTarget_of_tail (by decide)))
  | null => exact hR.plain (.fail (ne_badTarget_of_tail (by decide)))
  | _ =>
    refine hR.bind (hR.method? hc _ name args) fun v => ?_
    cases v with
    | none => exact hR.plain (.fail (ne_badTarget_of_tail (by decide)))
    | some v => exact hR.plain (.ret v)

end Termwise

end Apiary.Act
