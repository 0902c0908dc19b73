import Apiary.Script.Globals
import Apiary.Proofs.Script.Level
import Apiary.Proofs.Script.Steady

/-!
The number of active calls. Whatever runs leaves as many active as it found, makes its calls where as many are
active, and a call is refused where no more may be.
-/

namespace Apiary

open Scopes

variable {σ : Type} {host : Host σ} {rounds d : Nat}

namespace Act

abbrev Same (d : Nat) : Link σ := Level (fun _ => False) d

theorem Level.same {α : Type} {a b : Act σ α} {w : World σ} (h : Same d a b) (hd : w.depth = d) : b w = a w :=
  (h w hd).1.resolve_right fun ⟨_, _, he, _⟩ => he

theorem same_stepwise (host : Host σ) (rounds : Nat) :
    Stepwise False host host rounds rounds fun d _ => Same (σ := σ) d :=
  Level.stepwise (fun _ => False.elim) host rounds

theorem same_calling (host : Host σ) (rounds level d : Nat) :
    SameCalls (Same d) (Act.calling host rounds level) (Act.calling host rounds level) :=
  Level.calling (fun _ => False.elim) host rounds level d

/-- One more level of calls. -/
def deeper (host : Host σ) (rounds : Nat) (call : Calling σ) : Calling σ := callValue ⟨host, call, rounds⟩

/-- What stands for the calls beyond the limit does not matter: none is made. -/
theorem Level.beyond (base : Calling σ) {level : Nat} (hd : d + level = maxCallDepth) :
    SameCalls (Same d) (Act.calling host rounds (level + 1)) ((deeper host rounds)^[level + 1] base) := by
  induction level generalizing d with
  -- At the last level the limit is reached, where no call is made.
  | zero => exact (same_stepwise host rounds).callValue fun hlt => absurd hd (by omega)
  | succ level ih =>
    rw [Function.iterate_succ_apply']
    exact (same_stepwise host rounds).callValue fun _ => ih (by omega)

def refused : Interrupt := .message "Maximum call stack size exceeded"

theorem callClosure_refused {s : Surroundings σ} {w : World σ} (h : maxCallDepth ≤ w.depth) (f : Value) (c : Closure)
    (args : List Value) (this : Option Value) : callClosure s f c args this w = .error refused w := by
  simp only [callClosure, Bind.bind, EStateM.bind, active, if_pos h]
  rfl

theorem callClosure_runs {s : Surroundings σ} {w : World σ} (h : w.depth < maxCallDepth) (f : Value) (c : Closure)
    (args : List Value) (this : Option Value) : ∃ v, v.depth = w.depth ∧
      Grows (w.scopes.push ⟨[], true⟩) v.scopes ∧
      callClosure s f c args this w = nested (evalBody s (w.scopes.size :: c.env) c.code.body) v := by
  obtain ⟨v, hv, hg⟩ := enterCall_ok f c args this w
  refine ⟨v, ((Simple.enterCall f c args this).inside.ok hv).2, hg, ?_⟩
  simp only [callClosure, Bind.bind, EStateM.bind, active, if_neg (Nat.not_le.mpr h), hv]

theorem callClosure_refused_iff (level : Nat) (f : Value) (c : Closure) (args : List Value) (this : Option Value)
    {w : World σ} (h : w.depth ≤ maxCallDepth) :
    callClosure ⟨host, calling host rounds level, rounds⟩ f c args this w = .error refused w ↔
      w.depth = maxCallDepth := by
  refine ⟨fun heq => Nat.le_antisymm h (Nat.not_lt.mp fun hlt => ?_), fun hd => callClosure_refused hd.ge f c args this⟩
  obtain ⟨v, -, hg, hrun⟩ := callClosure_runs hlt f c args this
  -- The call that runs leaves one scope more than it found.
  have hbody := (calling_steady host rounds level).grow.body w.scopes.size c.env c.code.body
    { v with depth := v.depth + 1 }
  have hend : w.scopes.size <
      (final (callClosure ⟨host, calling host rounds level, rounds⟩ f c args this w)).scopes.size := by
    rw [hrun, scopes_nested]
    exact Nat.lt_of_lt_of_le hg.opened.1 hbody.size_le
  rw [heq] at hend
  exact Nat.lt_irrefl _ hend

end Act

open Act

/-- Whatever runs leaves as many calls active as it found, however it ends. -/
structure Surroundings.RestoresDepth (s : Surroundings σ) : Prop where
  expr (env : Env) (e : Expr) (w : World σ) : (final (evalExpr s env e w)).depth = w.depth
  stmt (env : Env) (stmt : Stmt) (w : World σ) : (final (evalStmt s env stmt w)).depth = w.depth
  call (f : Value) (args : List Value) (this : Option Value) (w : World σ) :
    (final (s.call f args this w)).depth = w.depth
  callback (f : Value) (args : List Value) (w : World σ) : (final (invoke s.call f args w)).depth = w.depth
  method (this : Value) (name : String) (args : List Value) (what : String) (w : World σ) :
    (final (callMethod s.host s.call this name args what w)).depth = w.depth

/-- Calls of functions of the script: they are made with as many active as there are where the code runs, and all of
them run with one more active, but for those that are refused. -/
structure Surroundings.LimitsDepth (s : Surroundings σ) : Prop where
  /-- Calls with another number of active ones do not matter: code makes none. -/
  made (env : Env) (stmt : Stmt) (w : World σ) (call : Calling σ) :
    (∀ f args this v, v.depth = w.depth → call f args this v = s.call f args this v) →
      evalStmt { s with call } env stmt w = evalStmt s env stmt w
  refused_iff (f : Value) (c : Closure) (args : List Value) (this : Option Value) {w : World σ} :
    w.depth ≤ maxCallDepth → (callClosure s f c args this w = .error refused w ↔ w.depth = maxCallDepth)
  runs (f : Value) (c : Closure) (args : List Value) (this : Option Value) {w : World σ} :
    w.depth < maxCallDepth → ∃ v, v.depth = w.depth ∧
      callClosure s f c args this w = nested (evalBody s (w.scopes.size :: c.env) c.code.body) v
  /-- After a statement, which may have caught refusals, calls are refused as they were before. -/
  again (f : Value) (c : Closure) (args : List Value) (this : Option Value) {w : World σ} (env : Env) (stmt : Stmt) :
    w.depth ≤ maxCallDepth → (callClosure s f c args this (final (evalStmt s env stmt w)) =
      .error refused (final (evalStmt s env stmt w)) ↔ callClosure s f c args this w = .error refused w)

theorem Act.calling_restoresDepth (host : Host σ) (rounds level : Nat) :
    (⟨host, calling host rounds level, rounds⟩ : Surroundings σ).RestoresDepth where
  expr env e w := ((same_stepwise host rounds).evalExpr (same_calling host rounds level _) env e False.elim w rfl).2
  stmt env stmt w :=
    ((same_stepwise host rounds).evalStmt (same_calling host rounds level _) env stmt False.elim w rfl).2
  call f args this w := (same_calling host rounds level _ f args this w rfl).2
  callback f args w :=
    (((same_stepwise host rounds).termwise w.depth 0 []).invoke (same_calling host rounds level _) f args w rfl).2
  method this name args what w :=
    (((same_stepwise host rounds).termwise w.depth 0 []).callMethod (same_calling host rounds level _) this name args
      what w rfl).2

theorem Act.calling_limitsDepth (host : Host σ) (rounds level : Nat) :
    (⟨host, calling host rounds level, rounds⟩ : Surroundings σ).LimitsDepth where
  made env stmt w call hcall := by
    have hsame : SameCalls (Same w.depth) (calling host rounds level) call := fun f args this v hv =>
      ⟨.inl (hcall f args this v hv), (same_calling host rounds level _ f args this v hv).2⟩
    exact ((same_stepwise host rounds).evalStmt hsame env stmt False.elim).same rfl
  refused_iff f c args this _ h := callClosure_refused_iff level f c args this h
  runs f c args this w h := by
    obtain ⟨v, hd, -, hrun⟩ := callClosure_runs h f c args this
    exact ⟨v, hd, hrun⟩
  again f c args this w env stmt h := by
    have hend := (calling_restoresDepth host rounds level).stmt env stmt w
    rw [callClosure_refused_iff level f c args this (hend.trans_le h), hend,
      callClosure_refused_iff level f c args this h]

/-- The number of active calls is restored by everything that runs, whole programs included, and never passes the
limit: calls beyond it can be anything at all, for none is made. A call is refused exactly where the limit is reached,
with nothing of it done. So code that goes on after a refusal can nest as many calls as before. -/
theorem call_depth_restored (host : Host σ) (rounds : Nat) :
    (∀ level, (⟨host, calling host rounds level, rounds⟩ : Surroundings σ).RestoresDepth) ∧
    (∀ level, (⟨host, calling host rounds level, rounds⟩ : Surroundings σ).LimitsDepth) ∧
    (∀ program (w : World σ), w.depth = 0 → (final (runProgram host rounds program w)).depth = 0) ∧
    ∀ (base : Calling σ) (level : Nat) (w : World σ), w.depth + level = maxCallDepth → ∀ f args this,
      (deeper host rounds)^[level + 1] base f args this w = calling host rounds (level + 1) f args this w := by
  refine ⟨calling_restoresDepth host rounds, calling_limitsDepth host rounds, fun program w hd => ?_,
    fun base level w hd f args this => ?_⟩
  · exact ((same_stepwise host rounds).runProgram False.elim w hd).2
  · exact (Level.beyond base hd f args this).same rfl

def World.startAtDepth (depth : Nat) : World Nat := { World.startWithHost 0 with depth }

def idleClosure : Closure := ⟨.mk none [] true (.value .undefined), globalEnv⟩

/-- A call is refused where no more calls may be active, and not where one more may. -/
theorem call_refused_at_limit :
    callClosure (surroundings .countdown 1) .undefined idleClosure [] none (World.startAtDepth 256) =
      .error refused (World.startAtDepth 256) ∧
    callClosure (surroundings .countdown 1) .undefined idleClosure [] none (World.startAtDepth 255) ≠
      .error refused (World.startAtDepth 255) := by
  have h := (call_depth_restored .countdown 1).2.1 (maxCallDepth + 1)
  refine ⟨(h.refused_iff _ _ _ _ (by decide)).mpr rfl, fun heq => ?_⟩
  exact absurd ((h.refused_iff _ _ _ _ (by decide)).mp heq) (by decide)

end Apiary
