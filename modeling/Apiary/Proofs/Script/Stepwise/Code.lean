import Apiary.Proofs.Script.Stepwise

/-!
Expressions and statements under a coherent relation, by recursion on the tree. All code of one call is met
at one number of active calls; only the function that calls is another matter. For calls and whole programs
the induction is on the levels of calls that are left: the levels and the active calls add up to the limit,
so the last level is met by a call that fails.
-/

-- A use in a recursive call does not count for this linter.
set_option linter.unusedSectionVars false

namespace Apiary.Act.Stepwise

variable {σ : Type} {careful : Prop} {host host' : Host σ} {rounds rounds' : Nat} {R : Relation σ} {d : Nat}
  {call call' : Calling σ} (hR : Stepwise careful host host' rounds rounds' R)
  (hc : SameCalls (R d 0) call call')

include hR hc

theorem evalExpr (env : Env) (e : Expr) (he : careful → e.WellFormed) :
    R d 0 (evalExpr ⟨host, call, rounds⟩ env e) (Act.evalExpr ⟨host', call', rounds'⟩ env e) :=
  (hR.termwise d 0 env).evalExpr hc e he

theorem evalDeclarators (env : Env) (kind : DeclKind) {decls : List Declarator}
    (hd : careful → Declarator.AllWellFormed decls) :
    R d 0 (evalDeclarators ⟨host, call, rounds⟩ env kind decls)
      (Act.evalDeclarators ⟨host', call', rounds'⟩ env kind decls) := by
  induction decls with
  | nil => exact hR.simple (.ret ())
  | cons decl rest ih =>
    obtain ⟨name, init⟩ := decl
    have hrest := ih fun h => (hd h).2
    cases init with
    | none => exact hR.bind (hR.simple (.declareOne kind name none env)) fun _ => hrest
    | some e =>
      exact hR.bind (hR.evalExpr hc env e fun h => (hd h).1) fun v =>
        hR.bind (hR.simple (.declareOne kind name (some v) env)) fun _ => hrest

theorem evalForStart (env : Env) {start : ForStart} (hs : careful → start.WellFormed) :
    R d 0 (evalForStart ⟨host, call, rounds⟩ env start)
      (Act.evalForStart ⟨host', call', rounds'⟩ env start) := by
  cases start with
  | none => exact hR.simple (.ret ())
  | declare kind decls => exact hR.evalDeclarators hc env kind fun h => (hs h).2
  | eval e => exact hR.bind (hR.evalExpr hc env e hs) fun _ => hR.simple (.ret ())

theorem evalTest (env : Env) {test : Option Expr} (ht : careful → Expr.OptionWellFormed test) :
    R d 0 (evalTest ⟨host, call, rounds⟩ env test) (Act.evalTest ⟨host', call', rounds'⟩ env test) := by
  cases test with
  | none => exact hR.simple (.ret _)
  | some e => exact hR.evalExpr hc env e ht

theorem evalStep (env : Env) {step : Option Expr} (hs : careful → Expr.OptionWellFormed step) :
    R d 0 (evalStep ⟨host, call, rounds⟩ env step) (Act.evalStep ⟨host', call', rounds'⟩ env step) := by
  cases step with
  | none => exact hR.simple (.ret ())
  | some e => exact hR.bind (hR.evalExpr hc env e hs) fun _ => hR.simple (.ret ())

theorem matchingCase (env : Env) (v : Value) (i : Nat) {cases : List Case}
    (hcases : careful → Case.AllWellFormed cases) :
    R d 0 (matchingCase ⟨host, call, rounds⟩ env v i cases)
      (Act.matchingCase ⟨host', call', rounds'⟩ env v i cases) := by
  induction cases generalizing i with
  | nil => exact hR.simple (.ret _)
  | cons c rest ih =>
    obtain ⟨test, body⟩ := c
    have hrest := ih (i + 1) fun h => (hcases h).2.2
    cases test with
    | none => exact hrest
    | some test =>
      simp only [Act.matchingCase]
      refine hR.bind (hR.evalExpr hc env test fun h => (hcases h).1) fun w => ?_
      split
      · exact hR.simple (.ret _)
      · exact hrest

mutual

theorem evalStmt (env : Env) : ∀ stmt : Stmt, (careful → stmt.WellFormed) →
    R d 0 (evalStmt ⟨host, call, rounds⟩ env stmt) (evalStmt ⟨host', call', rounds'⟩ env stmt)
  | .empty, _ | .function _, _ | .break, _ | .continue, _ | .return none, _ => by
    simp only [Act.evalStmt]
    exact hR.simple (.ret _)
  | .expr e, hs => by
    simp only [Act.evalStmt]
    exact hR.bind (hR.evalExpr hc env e hs) fun _ => hR.simple (.ret _)
  | .declare kind decls, hs => by
    simp only [Act.evalStmt]
    exact hR.bind (hR.evalDeclarators hc env kind fun h => (hs h).2) fun _ => hR.simple (.ret _)
  | .block body, hs => by
    simp only [Act.evalStmt]
    exact hR.inBlock env hs fun inner => evalStmts inner body hs
  | .ifElse test yes no, hs => by
    simp only [Act.evalStmt]
    refine hR.bind (hR.evalExpr hc env test fun h => (hs h).1) fun v => ?_
    split
    · exact evalStmt env yes fun h => (hs h).2.1
    · exact evalElse env no fun h => (hs h).2.2
  | .while test body, hs => by
    simp only [Act.evalStmt]
    have htest := hR.evalExpr hc env test fun h => (hs h).1
    have hbody := evalStmt env body fun h => (hs h).2
    exact hR.repeatRounds (hR.testFirst htest hbody) rounds rounds' 0 (Nat.add_zero _) (Nat.add_zero _)
  | .doWhile body test, hs => by
    simp only [Act.evalStmt]
    have htest := hR.evalExpr hc env test fun h => (hs h).1
    have hbody := evalStmt env body fun h => (hs h).2
    exact hR.repeatRounds (hR.testLast htest hbody) rounds rounds' 0 (Nat.add_zero _) (Nat.add_zero _)
  | .for start test update body, hs => by
    simp only [Act.evalStmt]
    refine hR.bind (hR.simple (.enter false env)) fun outer => ?_
    refine hR.bind (hR.evalForStart hc outer fun h => (hs h).1) fun _ => ?_
    refine hR.bind (hR.simple (.nextScope _ outer)) fun first => ?_
    refine hR.forRounds _ (fun env => ?_) (fun env => hR.evalStep hc env fun h => (hs h).2.2.1)
      rounds rounds' 0 (Nat.add_zero _) (Nat.add_zero _) first
    exact hR.testFirst (hR.evalTest hc env fun h => (hs h).2.1) (evalStmt env body fun h => (hs h).2.2.2)
  | .forEach keys kind name source body, hs => by
    simp only [Act.evalStmt]
    refine hR.bind (hR.evalExpr hc env source fun h => (hs h).1) fun v => ?_
    have heach := hR.eachItem (fun item inner => .bindItem kind name item env inner)
      (fun inner => evalStmt inner body fun h => (hs h).2) env
    split
    · exact hR.bind (hR.simple (.plain (.keysIn v))) fun items => heach items 0
    · exact hR.bind (hR.simple (.plain (.itemsOf v _))) fun items => heach items 0
  | .switch subject cases, hs => by
    simp only [Act.evalStmt]
    have hcases : careful → Case.AllWellFormed cases := fun h => (hs h).2.2
    refine hR.bind (hR.evalExpr hc env subject fun h => (hs h).1) fun v => ?_
    refine hR.bind (hR.simple (.enter false env)) fun inner => ?_
    refine hR.bind (hR.declareCaseFunctions inner hcases) fun _ => ?_
    refine hR.bind (hR.matchingCase hc inner v 0 hcases) fun i => ?_
    split
    · exact hR.simple (.ret _)
    · exact evalCases inner _ cases hcases
  | .return (some e), hs => by
    simp only [Act.evalStmt]
    exact hR.bind (hR.evalExpr hc env e hs) fun v => hR.simple (.ret _)
  | .throw e, hs => by
    simp only [Act.evalStmt]
    exact hR.bind (hR.evalExpr hc env e hs) fun v => hR.simple (.plain (.throwValue v))
  | .try body handler last, hs => by
    simp only [Act.evalStmt]
    have hbody : careful → Stmt.AllWellFormed body := fun h => (hs h).2.1
    exact hR.runTry (hR.inBlock env hbody fun inner => evalStmts inner body hbody)
      (fun message thrown hne => evalHandler env message thrown hne handler fun h => (hs h).2.2.1)
      (evalFinally env last fun h => (hs h).2.2.2)

theorem evalElse (env : Env) : ∀ no : Option Stmt, (careful → Stmt.OptionWellFormed no) →
    R d 0 (evalElse ⟨host, call, rounds⟩ env no) (evalElse ⟨host', call', rounds'⟩ env no)
  | none, _ => by
    simp only [Act.evalElse]
    exact hR.simple (.ret _)
  | some no, hs => by
    simp only [Act.evalElse]
    exact evalStmt env no hs

theorem evalStmts (env : Env) : ∀ body : List Stmt, (careful → Stmt.AllWellFormed body) →
    R d 0 (evalStmts ⟨host, call, rounds⟩ env body) (evalStmts ⟨host', call', rounds'⟩ env body)
  | [], _ => by
    simp only [Act.evalStmts]
    exact hR.simple (.ret _)
  | stmt :: rest, hs => by
    simp only [Act.evalStmts]
    refine hR.bind (evalStmt env stmt fun h => (hs h).1) fun c => ?_
    cases c with
    | normal => exact evalStmts env rest fun h => (hs h).2
    | _ => exact hR.simple (.ret _)

theorem evalCases (env : Env) : ∀ (i : Nat) (cases : List Case), (careful → Case.AllWellFormed cases) →
    R d 0 (evalCases ⟨host, call, rounds⟩ env i cases)
      (evalCases ⟨host', call', rounds'⟩ env i cases)
  | _, [], _ => by
    simp only [Act.evalCases]
    exact hR.simple (.ret _)
  | i + 1, .mk _ _ :: rest, hcases => by
    simp only [Act.evalCases]
    exact evalCases env i rest fun h => (hcases h).2.2
  | 0, .mk _ body :: rest, hcases => by
    simp only [Act.evalCases]
    refine hR.bind (evalStmts env body fun h => (hcases h).2.1) fun c => ?_
    cases c with
    | normal => exact evalCases env 0 rest fun h => (hcases h).2.2
    | _ => exact hR.simple (.ret _)

theorem evalHandler (env : Env) (message : String) (thrown : Option Value)
    (hne : careful → Interrupt.error message thrown ≠ .badTarget) :
    ∀ handler : Option Handler, (careful → Handler.OptionWellFormed handler) →
    R d 0 (evalHandler ⟨host, call, rounds⟩ env message thrown handler)
      (evalHandler ⟨host', call', rounds'⟩ env message thrown handler)
  | none, _ => by
    simp only [Act.evalHandler]
    exact hR.raise hne
  | some (.mk param body), hs => by
    simp only [Act.evalHandler]
    have hblock (outer : Env) := hR.inBlock outer hs fun inner => evalStmts inner body hs
    refine hR.bind (hR.simple (.plain (.caught message thrown))) fun v => ?_
    refine hR.bind (hR.simple (.enter false env)) fun inner => ?_
    cases param with
    | none => exact hblock inner
    | some name => exact hR.bind (hR.simple (.declare _ name v false)) fun _ => hblock inner

theorem evalFinally (env : Env) : ∀ last : Option (List Stmt), (careful → Stmt.OptionAllWellFormed last) →
    R d 0 (evalFinally ⟨host, call, rounds⟩ env last) (evalFinally ⟨host', call', rounds'⟩ env last)
  | none, _ => by
    simp only [Act.evalFinally]
    exact hR.simple (.ret _)
  | some body, hs => by
    simp only [Act.evalFinally]
    exact hR.inBlock env hs fun inner => evalStmts inner body hs

end

theorem evalBody (env : Env) {body : FunctionBody} (hb : careful → body.WellFormed) :
    R d 0 (evalBody ⟨host, call, rounds⟩ env body) (Act.evalBody ⟨host', call', rounds'⟩ env body) := by
  cases body with
  | value e => exact hR.evalExpr hc env e hb
  | block body =>
    refine hR.bind (hR.hoist env hb) fun _ => ?_
    refine hR.bind (hR.evalStmts hc env body hb) fun c => ?_
    cases c <;> exact hR.simple (.ret _)

end Apiary.Act.Stepwise

namespace Apiary.Act.Stepwise

variable {σ : Type} {careful : Prop} {host host' : Host σ} {rounds rounds' : Nat} {R : Relation σ} {d : Nat}
  {call call' : Calling σ} (hR : Stepwise careful host host' rounds rounds' R)

include hR

theorem callClosure (hc : d < maxCallDepth → SameCalls (R (d + 1) 0) call call') (f : Value)
    {c : Closure} (hcode : careful → c.code.WellFormed) (args : List Value) (this : Option Value) :
    R d 0 (callClosure ⟨host, call, rounds⟩ f c args this)
      (Act.callClosure ⟨host', call', rounds'⟩ f c args this) := by
  refine hR.active ?_
  split
  · exact hR.simple (.fail (by decide))
  · refine hR.bind (hR.simple (.enterCall f c args this)) fun env => ?_
    refine hR.nested (hR.evalBody (hc (by omega)) env fun h => ?_)
    exact (hcode h).body

theorem callValue (hc : d < maxCallDepth → SameCalls (R (d + 1) 0) call call') :
    SameCalls (R d 0) (callValue ⟨host, call, rounds⟩) (callValue ⟨host', call', rounds'⟩) := by
  intro f args this
  have hother : Plain (do Act.fail (notAFunction (← Act.display f)) : Act σ Value) :=
    (Plain.display f).bind fun _ => .fail (ne_badTarget_of_tail (by decide))
  unfold Act.callValue
  cases f with
  | function cell code =>
    refine hR.closure? cell fun found hfound => ?_
    cases found with
    | none => exact hR.simple (.ret _)
    | some c => exact hR.callClosure hc _ (fun h => hfound h c rfl) args this
  | host f => exact hR.call f args
  | builtin b => exact (hR.termwise d 0 []).builtin b args
  | _ => exact hR.simple (.plain hother)

theorem calling (level : Nat) (hd : d + level = maxCallDepth) :
    SameCalls (R d 0) (calling host rounds (level + 1)) (calling host' rounds' (level + 1)) := by
  induction level generalizing d with
  | zero => exact hR.callValue fun hlt => absurd hd (by omega)
  | succ level ih => exact hR.callValue fun _ => ih (by omega)

theorem runProgram {p : Program} (hp : careful → Stmt.AllWellFormed p) :
    R 0 0 (runProgram host rounds p) (Act.runProgram host' rounds' p) := by
  have hc := hR.calling maxCallDepth (Nat.zero_add _)
  refine hR.bind (hR.hoist globalEnv hp) fun _ => ?_
  refine hR.bind (hR.evalStmts hc globalEnv p hp) fun c => ?_
  cases c with
  | «break» | «continue» => exact hR.simple (.fail (by decide))
  | normal | «return» => exact hR.simple (.ret ())

end Apiary.Act.Stepwise

/-!
Relations that any code keeps, well formed or not: they hold of every act that stays inside the world of a
script, whatever error cuts it short.
-/

namespace Apiary.Act

variable {σ : Type}

structure Coherent (host host' : Host σ) (rounds rounds' : Nat) (R : Relation σ) : Prop where
  le : rounds ≤ rounds'
  inside {d k : Nat} {α : Type} {a : Act σ α} : Inside a → R d k a a
  later {d k k' : Nat} {α : Type} {a b : Act σ α} : k ≤ k' → R d k a b → R d k' a b
  checkpoint {d k : Nat} {α : Type} {a b : Act σ α} : R d (k + 1) a b →
    R d k (do checkpoint host; a) (do checkpoint host'; b)
  exhausted {d : Nat} {α : Type} {b : Act σ α} :
    (rounds = rounds' → b = throw (.endless .limit)) → R d rounds (throw (.endless .limit)) b
  active {d k : Nat} {α : Type} {f g : Nat → Act σ α} :
    R d k (f d) (g d) → R d k (active >>= f) (active >>= g)
  nested {d k : Nat} {α : Type} {a b : Act σ α} : R (d + 1) k a b → R d k (nested a) (nested b)
  attempt {d k : Nat} {α β : Type} {a b : Act σ α} {f g : Except Interrupt α → Act σ β} :
    R d k a b → (∀ r, isOver r = false → R d k (f r) (g r)) →
      (∀ e, isOver (.error e : Except Interrupt α) = true →
        f (.error e) = throw e ∧ g (.error e) = throw e) →
      R d k (attempt a >>= f) (attempt b >>= g)
  call {d k : Nat} (f : HostFunction) (args : List Value) :
    R d k (lift (host.call f args)) (lift (host'.call f args))
  log {d k : Nat} (line : String) : R d k (log host line) (log host' line)
  random {d k : Nat} : R d k (random host) (random host')
  clock {d k : Nat} : R d k (clock host) (clock host')

namespace Coherent

variable {host host' : Host σ} {rounds rounds' : Nat} {R : Relation σ}
  (hR : Coherent host host' rounds rounds' R)

include hR

theorem bind {d k : Nat} {α β : Type} {a b : Act σ α} {f g : α → Act σ β} (h : R d k a b)
    (hfg : ∀ x, R d k (f x) (g x)) : R d k (a >>= f) (b >>= g) := by
  rw [bind_eq_attempt a, bind_eq_attempt b]
  refine hR.attempt h (fun r hr => ?_) fun e _ => ⟨rfl, rfl⟩
  cases GoesOn.of_isOver hr with
  | ok x => exact hfg x
  | error _ => exact hR.inside (.interrupt fun _ => .error _ _)

theorem stepwise : Stepwise False host host' rounds rounds' R where
  le := hR.le
  simple h := hR.inside h.inside
  raise _ := hR.inside (.interrupt fun _ => .error _ _)
  newClosure _ := hR.inside (.newClosure _)
  closure? cell _ _ hfg := hR.bind (hR.inside (.closure? cell)) fun found => hfg found False.elim
  later := hR.later
  checkpoint := hR.checkpoint
  exhausted := hR.exhausted
  active := hR.active
  nested := hR.nested
  attempt h hfg hover := hR.attempt h (fun r hr => hfg r (.of_isOver hr)) hover
  call := hR.call
  log := hR.log
  random := hR.random
  clock := hR.clock

theorem runProgram (p : Program) : R 0 0 (runProgram host rounds p) (Act.runProgram host' rounds' p) :=
  hR.stepwise.runProgram False.elim

end Coherent

end Apiary.Act
