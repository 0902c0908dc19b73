import Apiary.Proofs.Script.Lasting

/-!
Where code declares names, and in which scopes: those that it opened itself, the innermost one that it was given,
and the one of the function. Whatever code runs, scopes grow.
-/

namespace Apiary

open Act Scopes

variable {σ : Type} {Q : Scopes → Scopes → Prop}

def functionNames (body : List Stmt) : List String :=
  body.filterMap fun
    | .function f => f.name
    | _ => none

def caseFunctionNames (cases : List Case) : List String :=
  cases.flatMap fun | .mk _ body => functionNames body

/-- A step that declares a name anew in a scope. A bare `var` does not, since it changes no name that is there. -/
def Moment.Declares (p : Moment σ) (cell : Nat) (name : String) : Prop :=
  match p.code with
  | .declareOne .var n value => value.isSome ∧ cell = p.world.scopes.functionScope p.env ∧ n = name
  | .declareOne _ n _ => cell = innermost p.env ∧ n = name
  | .declare n _ => cell = innermost p.env ∧ n = name
  | .bindItem (some .var) n _ _ => cell = p.world.scopes.functionScope p.env ∧ n = name
  | .bindItem (some _) n _ inner => cell = innermost inner ∧ n = name
  | .functions body => cell = innermost p.env ∧ name ∈ functionNames body
  | .caseFunctions cases => cell = innermost p.env ∧ name ∈ caseFunctionNames cases
  | _ => False

namespace Act

theorem bindParams_ok (cell : Nat) (params : List String) (args : List Value) (w : World σ) :
    ∃ w', bindParams cell params args w = .ok () w' ∧ Grows w.scopes w'.scopes := by
  induction params generalizing args w with
  | nil => exact ⟨w, rfl, lasting_grows.refl _⟩
  | cons name rest ih =>
    obtain ⟨w', hw, hg⟩ := ih args.tail
      { w with scopes := w.scopes.declare cell name (args.headD .undefined) false }
    exact ⟨w', hw, (grows_declare _ _ _ _ _).trans hg⟩

theorem enterCall_ok (f : Value) (c : Closure) (args : List Value) (this : Option Value) (w : World σ) :
    ∃ w', enterCall f c args this w = .ok (w.scopes.size :: c.env) w' ∧
      Grows (w.scopes.push ⟨[], true⟩) w'.scopes := by
  have hparams (v : World σ) : ∃ w', (do
      bindParams (innermost (w.scopes.size :: c.env)) c.code.params args
      pure (w.scopes.size :: c.env) : Act σ Env) v = .ok (w.scopes.size :: c.env) w' ∧
        Grows v.scopes w'.scopes := by
    obtain ⟨w', hw, hg⟩ := bindParams_ok (innermost (w.scopes.size :: c.env)) c.code.params args v
    exact ⟨w', by simp only [Bind.bind, EStateM.bind, hw]; rfl, hg⟩
  let opened : World σ := { w with scopes := w.scopes.push ⟨[], true⟩ }
  simp only [enterCall]
  cases c.code.arrow with
  | true => exact hparams opened
  | false =>
    let this' := this.getD .undefined
    cases c.code.name with
    | none =>
      obtain ⟨w', hw, hg⟩ := hparams { opened with scopes := opened.scopes.declare w.scopes.size "this" this' false }
      exact ⟨w', hw, (grows_declare _ _ _ _ _).trans hg⟩
    | some name =>
      let named := opened.scopes.declare w.scopes.size name f false
      obtain ⟨w', hw, hg⟩ := hparams { opened with scopes := named.declare w.scopes.size "this" this' false }
      exact ⟨w', hw, (grows_declare _ _ _ _ _).trans ((grows_declare _ _ _ _ _).trans hg)⟩

theorem enterCall_inv {f : Value} {c : Closure} {args : List Value} {this : Option Value} {env : Env} {w w' : World σ}
    (h : enterCall f c args this w = .ok env w') :
    env = w.scopes.size :: c.env ∧ Grows (w.scopes.push ⟨[], true⟩) w'.scopes := by
  obtain ⟨v, hv, hg⟩ := enterCall_ok f c args this w
  cases h.symm.trans hv
  exact ⟨rfl, hg⟩

end Act

namespace Scopes.Lasting

variable (hQ : Lasting Q)

include hQ

theorem declareVars {cell : Nat} {names : List String}
    (h : ∀ S name v, S.own cell name = none → Q S (S.declare cell name v false)) :
    Respects Q (Act.declareVars cell names : Act σ Unit) := by
  induction names with
  | nil => exact fun _ => hQ.refl _
  | cons name rest ih =>
    intro w
    simp only [Act.declareVars]
    refine hQ.bind (hQ.refl _) fun known w' hw => ?_
    cases hw
    split
    · exact ih w
    · next hn =>
      have hnone : w.scopes.own cell name = none := by simpa [hasOwn_eq] using hn
      exact hQ.bind (h _ name _ hnone) fun _ w' _ => ih w'

theorem declareFunctions {env : Env} {body : List Stmt}
    (h : ∀ S name v, name ∈ functionNames body → Q S (S.declare (innermost env) name v false)) :
    Respects Q (Act.declareFunctions env body : Act σ Unit) := by
  induction body with
  | nil => exact fun _ => hQ.refl _
  | cons stmt rest ih =>
    have hrest : Respects Q (Act.declareFunctions env rest : Act σ Unit) := ih fun S name v hn => by
      refine h S name v ?_
      cases stmt with
      | function f =>
        simp only [functionNames, List.filterMap_cons]
        cases f.name with
        | none => exact hn
        | some _ => exact List.mem_cons_of_mem _ hn
      | _ => exact hn
    cases stmt with
    | function f =>
      simp only [Act.declareFunctions]
      cases hf : f.name with
      | none => exact hrest
      | some name =>
        refine hQ.respects_bind (hQ.newClosure _) fun v => hQ.respects_bind (fun w => ?_) fun _ => hrest
        exact h _ name v (by simp [functionNames, hf])
    | _ => exact hrest

theorem declareCaseFunctions {env : Env} {cases : List Case}
    (h : ∀ S name v, name ∈ caseFunctionNames cases → Q S (S.declare (innermost env) name v false)) :
    Respects Q (Act.declareCaseFunctions env cases : Act σ Unit) := by
  induction cases with
  | nil => exact fun _ => hQ.refl _
  | cons c rest ih =>
    obtain ⟨test, body⟩ := c
    simp only [Act.declareCaseFunctions]
    refine hQ.respects_bind (hQ.declareFunctions fun S name v hn => ?_) fun _ => ih fun S name v hn => ?_
    · exact h S name v (List.mem_append_left _ hn)
    · exact h S name v (List.mem_append_right _ hn)

theorem bindParams {cell : Nat} {params : List String} {args : List Value}
    (h : ∀ S name v, Q S (S.declare cell name v false)) :
    Respects Q (Act.bindParams cell params args : Act σ Unit) := by
  induction params generalizing args with
  | nil => exact fun _ => hQ.refl _
  | cons name rest ih => exact hQ.respects_bind (fun w => h _ name _) fun _ => ih

theorem assign {name : String} {value : Value} {env : Env}
    (h : ∀ S cell b v, cell ∈ env → S.own cell name = some b → b.constant = false →
      Q S (S.declare cell name v false)) : Respects Q (Act.assign name value env : Act σ Unit) := by
  intro w
  obtain heq | ⟨cell, b, hb, hc, heq⟩ := scopes_assign name value env w
  · rw [heq]
    exact hQ.refl _
  · rw [heq]
    obtain ⟨hcell, hown⟩ := mem_of_binding? hb
    exact h _ cell b value hcell hown hc

/-- A step keeps a relation when its declarations do, and when the changes of variables and the names that it adds
do in the scopes that it sees. -/
theorem moment {s : Surroundings σ} {p : Moment σ} (hp : p.code.isStep = true)
    (hexpr : ∀ e, p.code = .expr e → Respects Q (evalExpr s p.env e))
    (hvariable : ∀ S cell name v, (∀ b, S.own cell name = some b → b.constant = false) →
      (p.env ≠ [] → cell ∈ p.env) → Q S (S.declare cell name v false))
    (hdeclare : ∀ S cell name v constant, p.Declares cell name → Q S (S.declare cell name v constant)) :
    Q p.world.scopes (p.after s).scopes := by
  obtain ⟨env, code, w⟩ := p
  cases code with
  | expr e => exact hexpr e rfl w
  | declareOne kind name value =>
    cases kind with
    | «let» => exact hdeclare _ _ name _ _ ⟨rfl, rfl⟩
    | const => exact hdeclare _ _ name _ _ ⟨rfl, rfl⟩
    | var =>
      cases value with
      | some v => exact hdeclare _ _ name v _ ⟨rfl, rfl, rfl⟩
      | none =>
        refine hQ.declareVars (fun S name v hn => hvariable S _ name v (fun b hb => ?_) ?_) w
        · rw [hn] at hb
          cases hb
        · exact functionScope_mem _
  | declare name v => exact hdeclare _ _ name v _ ⟨rfl, rfl⟩
  | bindItem kind name item inner =>
    cases kind with
    | none =>
      refine hQ.assign (fun S cell b v hcell hb hc => hvariable S cell name v (fun b' hb' => ?_) fun _ => hcell) w
      rw [hb] at hb'
      cases hb'
      exact hc
    | some kind =>
      cases kind with
      | «let» => exact hdeclare _ _ name item _ ⟨rfl, rfl⟩
      | const => exact hdeclare _ _ name item _ ⟨rfl, rfl⟩
      | var => exact hdeclare _ _ name item _ ⟨rfl, rfl⟩
  | functions body => exact hQ.declareFunctions (fun S name v hn => hdeclare S _ name v _ ⟨rfl, hn⟩) w
  | caseFunctions cases => exact hQ.declareCaseFunctions (fun S name v hn => hdeclare S _ name v _ ⟨rfl, hn⟩) w
  | _ => cases hp

theorem enterCall {f : Value} {c : Closure} {args : List Value} {this : Option Value} {w : World σ}
    (h : ∀ S name v, Q S (S.declare w.scopes.size name v false)) :
    Q w.scopes (final (Act.enterCall f c args this w)).scopes := by
  simp only [Act.enterCall]
  refine hQ.bind (hQ.enter true c.env w) fun env w' hw => ?_
  obtain ⟨rfl, -⟩ := enter_ok hw
  have hdeclare (name : String) (v : Value) :
      Respects Q (Act.declare (innermost (w.scopes.size :: c.env)) name v false : Act σ Unit) :=
    fun w' => h w'.scopes name v
  have hparams : Respects Q (do
      Act.bindParams (innermost (w.scopes.size :: c.env)) c.code.params args
      pure (w.scopes.size :: c.env) : Act σ Env) :=
    hQ.respects_bind (hQ.bindParams h) fun _ _ => hQ.refl _
  split
  · exact hparams w'
  · cases c.code.name with
    | none => exact hQ.respects_bind (hdeclare _ _) (fun _ => hparams) w'
    | some name => exact hQ.respects_bind (hdeclare _ _) (fun _ => hQ.respects_bind (hdeclare _ _) fun _ => hparams) w'

theorem builtin (host : Host σ) (b : Builtin) (args : List Value) : Respects Q (Act.builtin host b args) := by
  have hR : Termwise False host host [] (Respecting Q) :=
    hQ.termwise host fun _ _ => hQ.assign fun _ _ _ _ hcell => absurd hcell List.not_mem_nil
  have h : Respecting Q (Act.builtin host b args) (Act.builtin host b args) := hR.builtin b args
  exact h

theorem evalBody {s : Surroundings σ} {cell : Nat} {env : Env} {w : World σ} (body : FunctionBody)
    (hexpr : ∀ e, Respects Q (evalExpr s (cell :: env) e)) (hdeclare : ∀ S name v, Q S (S.declare cell name v false))
    (hbody : ∀ body w', Q w.scopes w'.scopes → Moment.Settled Q s ⟨cell :: env, .stmts body, w'⟩) :
    Q w.scopes (final (Act.evalBody s (cell :: env) body w)).scopes := by
  cases body with
  | value e => exact hexpr e w
  | block body =>
    have hhoist : Respects Q (hoist (cell :: env) body : Act σ Unit) :=
      hQ.respects_bind (hQ.declareVars fun S name v _ => hdeclare S name v) fun _ =>
        hQ.declareFunctions fun S name v _ => hdeclare S name v
    refine hQ.bind (hhoist w) fun _ w' hw => ?_
    refine hQ.bind ((hbody body w' (hhoist.of_ok hw)).after hQ) fun c w'' _ => ?_
    cases c <;> exact hQ.refl _

theorem callClosure {s : Surroundings σ} {f : Value} {c : Closure} {args : List Value} {this : Option Value}
    {w : World σ} (hdeclare : ∀ S name v, Q S (S.declare w.scopes.size name v false))
    (hbody : ∀ w' : World σ, Grows (w.scopes.push ⟨[], true⟩) w'.scopes →
      Q w'.scopes (final (Act.evalBody s (w.scopes.size :: c.env) c.code.body w')).scopes) :
    Q w.scopes (final (Act.callClosure s f c args this w)).scopes := by
  simp only [Act.callClosure]
  refine hQ.bind (hQ.refl _) fun d w' hw => ?_
  cases hw
  split
  · exact hQ.refl _
  · refine hQ.bind (hQ.enterCall hdeclare) fun env w' hw => ?_
    obtain ⟨rfl, hg⟩ := enterCall_inv hw
    rw [scopes_nested]
    exact hbody { w' with depth := w'.depth + 1 } hg

/-- A call keeps a relation when the function of the script does that it is a call of. -/
theorem callValue {s : Surroundings σ} {f : Value} {args : List Value} {this : Option Value} {w : World σ}
    (h : ∀ cell c code, f = .function cell code → w.closures[cell]? = some c →
      Q w.scopes (final (Act.callClosure s f c args this w)).scopes) :
    Q w.scopes (final (Act.callValue s f args this w)).scopes := by
  have hother : Plain (do fail (notAFunction (← display f)) : Act σ Value) :=
    (Plain.display f).bind fun _ => .fail (ne_badTarget_of_tail (by decide))
  unfold Act.callValue
  cases f with
  | function cell code =>
    refine hQ.bind (hQ.refl _) fun found w' hw => ?_
    cases hw
    cases hc : w.closures[cell]? with
    | none => exact hQ.refl _
    | some c => exact h cell c code rfl hc
  | host f => exact hQ.lift _ w
  | builtin b => exact hQ.builtin s.host b args w
  | _ => exact hQ.plain hother w

end Scopes.Lasting

namespace Act

theorem declareVars_grows (cell : Nat) (names : List String) : Respects Grows (declareVars cell names : Act σ Unit) :=
  lasting_grows.declareVars fun S name v _ => grows_declare S cell name v false

theorem declareFunctions_grows (env : Env) (body : List Stmt) :
    Respects Grows (declareFunctions env body : Act σ Unit) :=
  lasting_grows.declareFunctions fun S name v _ => grows_declare S (innermost env) name v false

theorem hoist_grows (env : Env) (body : List Stmt) : Respects Grows (hoist env body : Act σ Unit) :=
  lasting_grows.respects_bind (declareVars_grows _ _) fun _ => declareFunctions_grows env body

end Act

end Apiary
