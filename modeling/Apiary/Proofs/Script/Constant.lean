import Apiary.Script.Globals
import Apiary.Proofs.Script.Ending
import Apiary.Proofs.Script.Steady

/-!
A constant is one until its name is declared again in its scope. Code that would change it otherwise, by any form of
assignment, fails instead.
-/

namespace Apiary

open Act Scopes

variable {σ : Type}

namespace Act

def constantTarget : Interrupt := .message "Assignment to constant variable."

def ConstantIn (env : Env) (name : String) (w : World σ) : Prop :=
  ∃ cell v, w.scopes.binding? name env = some (cell, ⟨v, true⟩)

theorem assign_constant {env : Env} {name : String} {w : World σ} (h : ConstantIn env name w) (u : Value) :
    assign name u env w = .error constantTarget w := by
  obtain ⟨cell, v, hb⟩ := h
  simp only [assign, Bind.bind, EStateM.bind, lookScopes, hb]
  rfl

theorem declareOne_const {env : Env} {w : World σ} (h : innermost env < w.scopes.size) (name : String)
    (value : Option Value) : ∃ w', declareOne .const name value env w = .ok () w' ∧
      w'.scopes.own (innermost env) name = some ⟨value.getD .undefined, true⟩ :=
  ⟨_, rfl, own_declare_self _ _ name _ true h⟩

end Act

/-- Assignments to a name whose nearest binding is a constant, in all their forms: none of them goes through. -/
structure Surroundings.Guards (s : Surroundings σ) (env : Env) (name : String) : Prop where
  plain {e : Expr} {w w' : World σ} {u : Value} : evalExpr s env e w = .ok u w' → ConstantIn env name w' →
    evalExpr s env (.assign none (.name name) e) w = .error constantTarget w'
  compound {op : BinaryOp} {e : Expr} {w w' w'' : World σ} {old u v : Value} : lookup name env w = .ok old w →
    evalExpr s env e w = .ok u w' → applyBinary op old u w' = .ok v w'' → ConstantIn env name w'' →
    evalExpr s env (.assign (some op) (.name name) e) w = .error constantTarget w''
  update {increment before : Bool} {w w' : World σ} {old : Value} {x : Double} : lookup name env w = .ok old w →
    number old w = .ok x w' → ConstantIn env name w' →
    evalExpr s env (.update increment before (.name name)) w = .error constantTarget w'
  item {u : Value} {inner : Env} {w : World σ} : ConstantIn env name w →
    bindItem none name u env inner w = .error constantTarget w

theorem Surroundings.guards (s : Surroundings σ) (env : Env) (name : String) : s.Guards env name where
  plain he hc := by
    simp only [evalExpr, evalPlace, writePlace, Bind.bind, EStateM.bind, pure, EStateM.pure, he, assign_constant hc]
  compound hl he ho hc := by
    simp only [evalExpr, evalPlace, readPlace, writePlace, Bind.bind, EStateM.bind, pure, EStateM.pure, hl, he, ho,
      assign_constant hc]
  update hl hx hc := by
    simp only [evalExpr, evalPlace, readPlace, writePlace, Bind.bind, EStateM.bind, pure, EStateM.pure, hl, hx,
      assign_constant hc]
  item hc := assign_constant hc _

structure Surroundings.Constants (s : Surroundings σ) : Prop where
  /-- Calls and expressions leave them all, however they end. -/
  call {cell : Nat} {name : String} {v : Value} (f : Value) (args : List Value) (this : Option Value) {w : World σ} :
    w.scopes.own cell name = some ⟨v, true⟩ → (final (s.call f args this w)).scopes.own cell name = some ⟨v, true⟩
  expr {cell : Nat} {name : String} {v : Value} (env : Env) (e : Expr) {w : World σ} :
    w.scopes.own cell name = some ⟨v, true⟩ → (final (evalExpr s env e w)).scopes.own cell name = some ⟨v, true⟩
  /-- So does any piece of code, at each moment that it comes to, if it declares the name in that scope only so that the
  constant has the value again. -/
  code {cell : Nat} {name : String} {v : Value} {p : Moment σ} :
    (∀ q, p.Reaches s q → q.Declares cell name → (q.after s).scopes.own cell name = some ⟨v, true⟩) →
    p.world.scopes.own cell name = some ⟨v, true⟩ →
      (p.after s).scopes.own cell name = some ⟨v, true⟩ ∧
        ∀ q, p.Reaches s q → q.world.scopes.own cell name = some ⟨v, true⟩
  /-- A constant that code declares itself is still there when the code ends. -/
  ends {cell : Nat} {name : String} {v : Value} {p q : Moment σ} :
    (∀ q, p.Reaches s q → q.Declares cell name → (q.after s).scopes.own cell name = some ⟨v, true⟩) →
    p.Reaches s q → (q.after s).scopes.own cell name = some ⟨v, true⟩ →
      (p.after s).scopes.own cell name = some ⟨v, true⟩
  guards (env : Env) (name : String) : s.Guards env name

def Scopes.Retains (cell : Nat) (name : String) (v : Value) (S T : Scopes) : Prop :=
  S.own cell name = some ⟨v, true⟩ → T.own cell name = some ⟨v, true⟩

theorem Scopes.lasting_retains (cell : Nat) (name : String) (v : Value) : Lasting (Retains cell name v) where
  refl _ := id
  trans h h' := h' ∘ h
  push S s ho := by rw [own_push S s (lt_of_own ho), ho]

theorem Moment.settled_retains {s : Surroundings σ} {p : Moment σ} {cell : Nat} {name : String} {v : Value}
    (hs : s.Steady)
    (h : ∀ q, p.Reaches s q → q.Declares cell name → (q.after s).scopes.own cell name = some ⟨v, true⟩) :
    p.Settled (Retains cell name v) s := by
  intro q hq hstep ho
  by_cases hd : q.Declares cell name
  · exact h q hq hd
  · exact (q.step_keeps hs hstep).constant hd ho

/-- A declaration with `const` binds its name to a constant, which stays as it is until a declaration of the name in the
same scope is run: no call, no expression and no other code changes it, and an assignment to it fails. -/
theorem constant_until_declared_again (host : Host σ) (rounds level : Nat) :
    (⟨host, calling host rounds level, rounds⟩ : Surroundings σ).Constants ∧
    ∀ env name value (w : World σ), innermost env < w.scopes.size →
      ∃ w', declareOne .const name value env w = .ok () w' ∧
        w'.scopes.own (innermost env) name = some ⟨value.getD .undefined, true⟩ := by
  have hs := calling_steady host rounds level
  refine ⟨?_, fun env name value w h => declareOne_const h name value⟩
  exact {
    call := fun f args this w hw => (hs f args this w).constant not_false hw
    expr := fun env e w hw => (hs.expr env e w).constant not_false hw
    code := fun h hp =>
      have hsettled := Moment.settled_retains hs h
      ⟨hsettled.after (lasting_retains _ _ _) hp, fun q hq => hsettled.reached (lasting_retains _ _ _) hq hp⟩
    ends := fun h hq hend => (Moment.settled_retains hs h).ends_reached (lasting_retains _ _ _) hq hend
    guards := Surroundings.guards _ }

theorem Moment.Reaches.not_declares {s : Surroundings σ} {env : Env} {e : Expr} {w : World σ} {q : Moment σ}
    (h : Moment.Reaches s ⟨env, .stmt (.expr e), w⟩ q) {cell : Nat} {name : String} : ¬ q.Declares cell name := by
  rcases h.cases_head with rfl | ⟨r, hpart, hr⟩
  · exact not_false
  · cases hpart
    rcases hr.cases_head with rfl | ⟨r, hpart, -⟩
    · exact not_false
    · cases hpart

def World.withConstant : World Nat :=
  { World.startWithHost 0 with scopes := #[⟨[("c", ⟨.string "a", true⟩)], true⟩] }

def assignToConstant : Expr := .assign none (.name "c") (.string "b")

/-- An assignment to a constant fails, and leaves it. -/
theorem constant_kept_by_assignment :
    World.withConstant.scopes.own 0 "c" = some ⟨.string "a", true⟩ ∧
    evalExpr (surroundings .countdown 1) globalEnv assignToConstant World.withConstant =
      .error constantTarget World.withConstant ∧
    (final (evalStmt (surroundings .countdown 1) globalEnv (.expr assignToConstant) World.withConstant)).scopes.own
      0 "c" = some ⟨.string "a", true⟩ := by
  have h := (constant_until_declared_again .countdown 1 (maxCallDepth + 1)).1
  have hown : World.withConstant.scopes.own 0 "c" = some ⟨.string "a", true⟩ := rfl
  refine ⟨hown, (h.guards globalEnv "c").plain rfl ⟨0, .string "a", rfl⟩, ?_⟩
  exact (h.code (p := ⟨globalEnv, .stmt (.expr assignToConstant), World.withConstant⟩)
    (fun q hq hd => absurd hd hq.not_declares) hown).1

def declaredTwice : Program :=
  [.declare .const [.mk "c" (some (.string "a"))], .declare .var [.mk "c" (some (.string "b"))]]

/-- A second declaration in the same scope takes the constant away, without an error. -/
theorem declaredTwice_replaces : ∃ w w' : World Nat,
    declareOne .const "c" (some (.string "a")) globalEnv (World.startWithHost 0) = .ok () w ∧
    w.scopes.own 0 "c" = some ⟨.string "a", true⟩ ∧
    evalStmt (surroundings .countdown 1) globalEnv (.declare .var [.mk "c" (some (.string "b"))]) w = .ok .normal w' ∧
    w'.scopes.own 0 "c" = some ⟨.string "b", false⟩ ∧
    ∃ v, runProgram .countdown 1 declaredTwice (World.startWithHost 0) = .ok () v ∧
      v.scopes.own 0 "c" = some ⟨.string "b", false⟩ :=
  ⟨_, _, rfl, rfl, rfl, rfl, _, rfl, rfl⟩

end Apiary
