import Apiary.Proofs.Script.Moment
import Apiary.Proofs.Script.Scopes
import Apiary.Proofs.Script.Termwise.Expression

/-!
Relations between the scopes before and after code that nothing but a change of a binding can break. When the
single steps of an evaluation keep such a relation, the evaluation keeps it.
-/

namespace Apiary

open Scopes

variable {σ α β : Type} {Q : Scopes → Scopes → Prop}

namespace Act

theorem Plain.scopes {a : Act σ α} (h : Plain a) (w : World σ) : (final (a w)).scopes = w.scopes := by
  induction h generalizing w with
  | bind _ _ ha hf =>
    rename_i a f _ _
    simp only [Bind.bind, EStateM.bind]
    have hw := ha w
    cases hr : a w with
    | ok x v =>
      rw [hr] at hw
      exact (hf x v).trans hw
    | error e v =>
      rw [hr] at hw
      exact hw
  | convert _ =>
    unfold Act.convert
    split <;> rfl
  | apart _ _ =>
    unfold Act.apart
    split <;> rfl
  | _ => rfl

theorem scopes_lift (a : HostAct σ α) (w : World σ) : (final (lift a w)).scopes = w.scopes := by
  simp only [lift]
  cases a w.toStore <;> rfl

theorem scopes_nested (a : Act σ α) (w : World σ) :
    (final (nested a w)).scopes = (final (a { w with depth := w.depth + 1 })).scopes := by
  simp only [nested]
  cases a { w with depth := w.depth + 1 } <;> rfl

theorem final_attempt (a : Act σ α) (w : World σ) : final (attempt a w) = final (a w) := by
  simp only [attempt]
  cases a w <;> rfl

theorem of_attempt {a : Act σ α} {w w' : World σ} {r : Except Interrupt α} (h : attempt a w = .ok r w') :
    (∃ x, r = .ok x ∧ a w = .ok x w') ∨ ∃ e, r = .error e ∧ a w = .error e w' := by
  simp only [attempt] at h
  cases ha : a w with
  | ok x v =>
    rw [ha] at h
    cases h
    exact .inl ⟨x, rfl, rfl⟩
  | error e v =>
    rw [ha] at h
    cases h
    exact .inr ⟨e, rfl, rfl⟩

/-- An assignment changes the nearest binding of the name, unless it is a constant. -/
theorem scopes_assign (name : String) (value : Value) (env : Env) (w : World σ) :
    (final (assign name value env w)).scopes = w.scopes ∨
      ∃ cell b, w.scopes.binding? name env = some (cell, b) ∧ b.constant = false ∧
        (final (assign name value env w)).scopes = w.scopes.declare cell name value false := by
  simp only [assign, Bind.bind, EStateM.bind, lookScopes]
  cases hb : w.scopes.binding? name env with
  | none => exact .inl rfl
  | some found =>
    obtain ⟨cell, b⟩ := found
    dsimp only
    split
    · exact .inl rfl
    · next hc => exact .inr ⟨cell, b, rfl, Bool.eq_false_iff.mpr hc, rfl⟩

theorem enter_ok {ofFunction : Bool} {env inner : Env} {w w' : World σ} (h : enter ofFunction env w = .ok inner w') :
    inner = w.scopes.size :: env ∧ w'.scopes = w.scopes.push ⟨[], ofFunction⟩ := by
  cases h
  exact ⟨rfl, rfl⟩

def Respects (Q : Scopes → Scopes → Prop) (a : Act σ α) : Prop := ∀ w, Q w.scopes (final (a w)).scopes

def Respecting (Q : Scopes → Scopes → Prop) : Link σ := fun _ a _ => Respects Q a

section Respects

variable {a : Act σ α} {w w' : World σ}

theorem of_ok {x : α} (h : Q w.scopes (final (a w)).scopes) (hw : a w = .ok x w') : Q w.scopes w'.scopes := by
  rw [hw] at h
  exact h

theorem of_error {e : Interrupt} (h : Q w.scopes (final (a w)).scopes) (hw : a w = .error e w') :
    Q w.scopes w'.scopes := by
  rw [hw] at h
  exact h

theorem Respects.of_ok {x : α} (h : Respects Q a) (hw : a w = .ok x w') : Q w.scopes w'.scopes := Act.of_ok (h w) hw

end Respects

end Act

open Act

namespace Scopes.Lasting

variable (hQ : Lasting Q)

include hQ

theorem of_eq {S T : Scopes} (h : T = S) : Q S T := h ▸ hQ.refl S

/-- The second act matters in the worlds that the first one leaves to it. -/
theorem bind {a : Act σ α} {f : α → Act σ β} {w : World σ} (ha : Q w.scopes (final (a w)).scopes)
    (hf : ∀ x w', a w = .ok x w' → Q w'.scopes (final (f x w')).scopes) : Q w.scopes (final ((a >>= f) w)).scopes := by
  simp only [Bind.bind, EStateM.bind]
  cases hr : a w with
  | ok x v =>
    rw [hr] at ha
    exact hQ.trans ha (hf x v hr)
  | error e v =>
    rw [hr] at ha
    exact ha

theorem plain {a : Act σ α} (h : Plain a) : Respects Q a := fun w => hQ.of_eq (h.scopes w)

theorem lift (a : HostAct σ α) : Respects Q (Act.lift a) := fun w => hQ.of_eq (scopes_lift a w)

theorem respects_bind {a : Act σ α} {f : α → Act σ β} (ha : Respects Q a) (hf : ∀ x, Respects Q (f x)) :
    Respects Q (a >>= f) :=
  fun w => hQ.bind (ha w) fun x w' _ => hf x w'

theorem enter (ofFunction : Bool) (env : Env) : Respects Q (Act.enter ofFunction env : Act σ Env) :=
  fun w => hQ.push w.scopes _

theorem nextScope (fresh : Bool) (env : Env) : Respects Q (Act.nextScope fresh env : Act σ Env) := by
  intro w
  cases fresh with
  | false => exact hQ.refl _
  | true =>
    cases env with
    | nil => exact hQ.push w.scopes _
    | cons cell rest => exact hQ.push w.scopes _

theorem newClosure (c : Closure) : Respects Q (Act.newClosure c : Act σ Value) := fun _ => hQ.refl _

theorem termwise (host : Host σ) {env : Env}
    (hassign : ∀ name value, Respects Q (assign name value env : Act σ Unit)) :
    Termwise False host host env (Respecting Q) where
  plain := hQ.plain
  raise _ _ := hQ.refl _
  lookScopes _ _ := hQ.refl _
  assign := hassign
  newClosure _ := hQ.newClosure _
  bind := hQ.respects_bind
  call _ _ := hQ.lift _
  log _ := hQ.lift _
  random := hQ.lift _
  clock _ := hQ.refl _

theorem expr {s : Surroundings σ} {env : Env}
    (hassign : ∀ name value, Respects Q (assign name value env : Act σ Unit))
    (hcall : ∀ f args this, Respects Q (s.call f args this)) (e : Expr) : Respects Q (evalExpr s env e) := by
  have h : Respecting Q (evalExpr s env e) (evalExpr s env e) :=
    (hQ.termwise s.host hassign).evalExpr hcall e False.elim
  exact h

end Scopes.Lasting

/-- All steps that a moment comes to keep a relation. -/
def Moment.Settled (Q : Scopes → Scopes → Prop) (s : Surroundings σ) (p : Moment σ) : Prop :=
  ∀ q, p.Reaches s q → q.code.isStep = true → Q q.world.scopes (q.after s).scopes

theorem Moment.Settled.part {s : Surroundings σ} {p q : Moment σ} (h : p.Settled Q s) (hpart : p.Part s q) :
    q.Settled Q s :=
  fun r hr => h r (.head hpart hr)

theorem Moment.Settled.self {s : Surroundings σ} {p : Moment σ} (h : p.Settled Q s) (hp : p.code.isStep = true) :
    Q p.world.scopes (p.after s).scopes :=
  h p .refl hp

namespace Scopes.Lasting

open Moment

variable (hQ : Lasting Q) {s : Surroundings σ} {env : Env} {w : World σ}

include hQ

theorem declarators {kind : DeclKind} {decls : List Declarator} (h : Settled Q s ⟨env, .declarators kind decls, w⟩) :
    Q w.scopes (final (evalDeclarators s env kind decls w)).scopes := by
  induction decls generalizing w with
  | nil => exact hQ.refl _
  | cons decl rest ih =>
    obtain ⟨name, init⟩ := decl
    cases init with
    | none => exact hQ.bind ((h.part .bare).self rfl) fun _ w' hw => ih (h.part (.afterBare hw))
    | some e =>
      refine hQ.bind ((h.part .start).self rfl) fun v w' hv => ?_
      exact hQ.bind ((h.part (.started hv)).self rfl) fun _ w'' hw => ih (h.part (.afterStarted hv hw))

theorem test {test : Option Expr} (h : ∀ e, test = some e → Settled Q s ⟨env, .expr e, w⟩) :
    Q w.scopes (final (evalTest s env test w)).scopes := by
  cases test with
  | none => exact hQ.refl _
  | some e => exact (h e rfl).self rfl

theorem step {update : Option Expr} (h : ∀ e, update = some e → Settled Q s ⟨env, .expr e, w⟩) :
    Q w.scopes (final (evalStep s env update w)).scopes := by
  cases update with
  | none => exact hQ.refl _
  | some e => exact hQ.bind ((h e rfl).self rfl) fun _ _ _ => hQ.refl _

theorem matching {v : Value} {i : Nat} {cases : List Case} (h : Settled Q s ⟨env, .matching v i cases, w⟩) :
    Q w.scopes (final (matchingCase s env v i cases w)).scopes := by
  induction cases generalizing i w with
  | nil => exact hQ.refl _
  | cons c rest ih =>
    obtain ⟨test, body⟩ := c
    cases test with
    | none => exact ih (h.part .passDefault)
    | some test =>
      refine hQ.bind ((h.part .caseTest).self rfl) fun u w' hu => ?_
      split
      · exact hQ.refl _
      · next hne => exact ih (h.part (.passCase hu (Bool.eq_false_iff.mpr hne)))

theorem round {testsFirst : Bool} {test : Option Expr} {body : Stmt}
    (hbody : ∀ w, Settled Q s ⟨env, .stmt body, w⟩ → Q w.scopes (final (evalStmt s env body w)).scopes)
    (h : Settled Q s ⟨env, .round testsFirst test body, w⟩) :
    Q w.scopes (final (evalRound s testsFirst test body env w)).scopes := by
  cases testsFirst with
  | true =>
    refine hQ.bind (hQ.test ?_) fun v w' hv => ?_
    · rintro e rfl
      exact h.part .testFirst
    · split
      · next ht =>
        rw [map_eq_pure_bind]
        exact hQ.bind (hbody w' (h.part (.bodyNext hv ht))) fun _ _ _ => hQ.refl _
      · exact hQ.refl _
  | false =>
    refine hQ.bind (hbody w (h.part .bodyFirst)) fun c w' hc => ?_
    cases ha : afterRound c with
    | some c => exact hQ.refl _
    | none =>
      refine hQ.bind (hQ.test ?_) fun _ _ _ => hQ.refl _
      rintro e rfl
      exact h.part (.testNext hc ha)

theorem rounds {testsFirst : Bool} {test : Expr} {body : Stmt} {n : Nat}
    (hbody : ∀ w, Settled Q s ⟨env, .stmt body, w⟩ → Q w.scopes (final (evalStmt s env body w)).scopes)
    (h : Settled Q s ⟨env, .rounds testsFirst test body n, w⟩) :
    Q w.scopes (final (repeatRounds s.host (evalRound s testsFirst (some test) body env) n w)).scopes := by
  induction n generalizing w with
  | zero => exact hQ.refl _
  | succ n ih =>
    refine hQ.bind (hQ.lift _ w) fun _ w' hw => ?_
    refine hQ.bind (hQ.round hbody (h.part (.oneRound hw))) fun c w'' hc => ?_
    cases c with
    | none => exact ih (h.part (.moreRounds hw hc))
    | some c => exact hQ.refl _

theorem forRounds {fresh : Bool} {test update : Option Expr} {body : Stmt} {n : Nat}
    (hbody : ∀ env w, Settled Q s ⟨env, .stmt body, w⟩ → Q w.scopes (final (evalStmt s env body w)).scopes)
    (h : Settled Q s ⟨env, .forRounds fresh test update body n, w⟩) :
    Q w.scopes (final (evalForRounds s fresh test update body n env w)).scopes := by
  induction n generalizing env w with
  | zero => exact hQ.refl _
  | succ n ih =>
    refine hQ.bind (hQ.lift _ w) fun _ w' hw => ?_
    refine hQ.bind (hQ.round (hbody env) (h.part (.forRound hw))) fun c w'' hc => ?_
    cases c with
    | some c => exact hQ.refl _
    | none =>
      refine hQ.bind (hQ.nextScope fresh env w'') fun next w₃ hnext => ?_
      refine hQ.bind (hQ.step ?_) fun _ w₄ hstep => ih (h.part (.forMore hw hc hnext hstep))
      rintro e rfl
      exact h.part (.forUpdate hw hc hnext)

theorem items {kind : Option DeclKind} {name : String} {body : Stmt} {items : List Value}
    (hbody : ∀ env w, Settled Q s ⟨env, .stmt body, w⟩ → Q w.scopes (final (evalStmt s env body w)).scopes)
    (h : Settled Q s ⟨env, .items kind name body items, w⟩) :
    Q w.scopes (final (evalItems s kind name body env items w)).scopes := by
  induction items generalizing w with
  | nil => exact hQ.refl _
  | cons item rest ih =>
    refine hQ.bind (hQ.lift _ w) fun _ w' hw => ?_
    refine hQ.bind (hQ.enter false env w') fun inner w'' hinner => ?_
    refine hQ.bind ((h.part (.bindItem hw hinner)).self rfl) fun _ w₃ hbind => ?_
    refine hQ.bind (hbody inner w₃ (h.part (.withItem hw hinner hbind))) fun c w₄ hc => ?_
    cases ha : afterRound c with
    | none => exact ih (h.part (.moreItems hw hinner hbind hc ha))
    | some c => exact hQ.refl _

theorem block {body : List Stmt}
    (hbody : ∀ env w, Settled Q s ⟨env, .stmts body, w⟩ → Q w.scopes (final (evalStmts s env body w)).scopes)
    (h : Settled Q s ⟨env, .block body, w⟩) : Q w.scopes (final (evalBlock s env body w)).scopes := by
  refine hQ.bind (hQ.enter false env w) fun inner w' hinner => ?_
  refine hQ.bind ((h.part (.opened hinner)).self rfl) fun _ w'' hw => ?_
  exact hbody inner w'' (h.part (.inside hinner hw))

theorem forStart {start : ForStart} {test update : Option Expr} {body : Stmt} {outer : Env} {w' : World σ}
    (h : Settled Q s ⟨env, .stmt (.for start test update body), w⟩) (hw : Act.enter false env w = .ok outer w') :
    Q w'.scopes (final (evalForStart s outer start w')).scopes := by
  cases start with
  | none => exact hQ.refl _
  | declare kind decls => exact hQ.declarators (h.part (.forDeclare hw))
  | eval e => exact hQ.bind ((h.part (.forEval hw)).self rfl) fun _ _ _ => hQ.refl _

theorem outcome (r : Except Interrupt α) : Respects Q (ofOutcome r : Act σ α) := by
  intro w
  cases r <;> exact hQ.refl _

/-- The last part runs in the world that the body, or the handler of its error, leaves. -/
theorem finishing {r : Except Interrupt Completion} {last : Option (List Stmt)}
    (hlast : isOver r = false → Q w.scopes (final (evalFinally s env last w)).scopes) :
    Q w.scopes (final (finishTry r (evalFinally s env last) w)).scopes := by
  unfold finishTry
  cases hr : isOver r with
  | true => exact hQ.outcome r w
  | false =>
    refine hQ.bind (hlast hr) fun c w' _ => ?_
    cases c with
    | normal => exact hQ.outcome r w'
    | _ => exact hQ.refl _

theorem attempt {a : Act σ α} {f : Except Interrupt α → Act σ β} (ha : Q w.scopes (final (a w)).scopes)
    (hf : ∀ r w', Act.attempt a w = .ok r w' → Q w'.scopes (final (f r w')).scopes) :
    Q w.scopes (final ((Act.attempt a >>= f) w)).scopes :=
  hQ.bind (by rw [final_attempt]; exact ha) hf

mutual

theorem stmt (env : Env) (w : World σ) : ∀ stmt : Stmt, Settled Q s ⟨env, .stmt stmt, w⟩ →
    Q w.scopes (final (evalStmt s env stmt w)).scopes
  | .empty, _ | .function _, _ | .break, _ | .continue, _ | .return none, _ => by
    simp only [evalStmt]
    exact hQ.refl _
  | .expr e, h => by
    simp only [evalStmt]
    exact hQ.bind ((h.part .effect).self rfl) fun _ _ _ => hQ.refl _
  | .declare kind decls, h => by
    simp only [evalStmt]
    exact hQ.bind (hQ.declarators (h.part .declare)) fun _ _ _ => hQ.refl _
  | .block body, h => by
    simp only [evalStmt]
    exact hQ.block (fun env w => stmts env w body) (h.part .block)
  | .ifElse test yes no, h => by
    simp only [evalStmt]
    refine hQ.bind ((h.part .condition).self rfl) fun v w' hv => ?_
    split
    · next ht => exact stmt env w' yes (h.part (.yes hv ht))
    · next ht =>
      cases no with
      | none =>
        simp only [evalElse]
        exact hQ.refl _
      | some no =>
        simp only [evalElse]
        exact stmt env w' no (h.part (.no hv (Bool.eq_false_iff.mpr ht)))
  | .while test body, h => by
    simp only [evalStmt]
    exact hQ.rounds (fun w => stmt env w body) (h.part .while)
  | .doWhile body test, h => by
    simp only [evalStmt]
    exact hQ.rounds (fun w => stmt env w body) (h.part .doWhile)
  | .for start test update body, h => by
    simp only [evalStmt]
    refine hQ.bind (hQ.enter false env w) fun outer w' hw => ?_
    refine hQ.bind (hQ.forStart h hw) fun _ w'' hstart => ?_
    refine hQ.bind (hQ.nextScope _ outer w'') fun first w₃ hfirst => ?_
    exact hQ.forRounds (fun env w => stmt env w body) (h.part (.forStarted hw hstart hfirst))
  | .forEach keys kind name source body, h => by
    simp only [evalStmt]
    refine hQ.bind ((h.part .source).self rfl) fun v w' hv => ?_
    have heach items w'' hitems : Q w''.scopes (final (evalItems s kind name body env items w'')).scopes :=
      hQ.items (fun env w => stmt env w body) (h.part (.items hv hitems))
    cases keys with
    | true => exact hQ.bind (hQ.plain (.keysIn v) w') heach
    | false => exact hQ.bind (hQ.plain (.itemsOf v _) w') heach
  | .switch subject cases, h => by
    simp only [evalStmt]
    refine hQ.bind ((h.part .subject).self rfl) fun v w' hv => ?_
    refine hQ.bind (hQ.enter false env w') fun inner w'' hinner => ?_
    refine hQ.bind ((h.part (.switchFunctions hv hinner)).self rfl) fun _ w₃ hw => ?_
    refine hQ.bind (hQ.matching (h.part (.switchTests hv hinner hw))) fun i w₄ hi => ?_
    cases hj : i.or (defaultCase? cases) with
    | none => exact hQ.refl _
    | some j => exact caseBodies inner w₄ j cases (h.part (.switchCases hv hinner hw hi hj))
  | .return (some e), h => by
    simp only [evalStmt]
    exact hQ.bind ((h.part .return).self rfl) fun _ _ _ => hQ.refl _
  | .throw e, h => by
    simp only [evalStmt]
    exact hQ.bind ((h.part .throw).self rfl) fun v w' _ => hQ.plain (.throwValue v) w'
  | .try body handler last, h => by
    simp only [evalStmt, runTry]
    have hblock := hQ.block (fun env w => stmts env w body) (h.part .try)
    refine hQ.attempt hblock fun r w' hr => ?_
    obtain ⟨c, rfl, hc⟩ | ⟨e, rfl, he⟩ := of_attempt hr
    · change Q w'.scopes (final (finishTry (.ok c) (evalFinally s env last) w')).scopes
      exact hQ.finishing fun _ => lastPart env w' last fun b hb => by
        subst hb
        exact h.part (.finally hc)
    · cases e with
      | error message thrown =>
        refine hQ.attempt (catching env w' message thrown _ (h.part (.catch he))) fun r w'' hr => ?_
        exact hQ.finishing fun ho => lastPart env w'' last fun b hb => by
          subst hb
          exact h.part (.finallyCaught he hr ho)
      | _ => exact hQ.refl _

theorem stmts (env : Env) (w : World σ) : ∀ body : List Stmt, Settled Q s ⟨env, .stmts body, w⟩ →
    Q w.scopes (final (evalStmts s env body w)).scopes
  | [], _ => by
    simp only [evalStmts]
    exact hQ.refl _
  | st :: rest, h => by
    simp only [evalStmts]
    refine hQ.bind (stmt env w st (h.part .head)) fun c w' hc => ?_
    cases c with
    | normal => exact stmts env w' rest (h.part (.tail hc))
    | _ => exact hQ.refl _

theorem caseBodies (env : Env) (w : World σ) : ∀ (i : Nat) (cases : List Case), Settled Q s ⟨env, .cases i cases, w⟩ →
    Q w.scopes (final (evalCases s env i cases w)).scopes
  | _, [], _ => by
    simp only [evalCases]
    exact hQ.refl _
  | i + 1, .mk _ _ :: rest, h => by
    simp only [evalCases]
    exact caseBodies env w i rest (h.part .laterCase)
  | 0, .mk _ body :: rest, h => by
    simp only [evalCases]
    refine hQ.bind (stmts env w body (h.part .caseBody)) fun c w' hc => ?_
    cases c with
    | normal => exact caseBodies env w' 0 rest (h.part (.nextCase hc))
    | _ => exact hQ.refl _

theorem lastPart (env : Env) (w : World σ) : ∀ last : Option (List Stmt),
    (∀ body, last = some body → Settled Q s ⟨env, .block body, w⟩) →
    Q w.scopes (final (evalFinally s env last w)).scopes
  | none, _ => by
    simp only [evalFinally]
    exact hQ.refl _
  | some body, h => by
    simp only [evalFinally]
    exact hQ.block (fun env w => stmts env w body) (h body rfl)

theorem catching (env : Env) (w : World σ) (message : String) (thrown : Option Value) :
    ∀ handler : Option Handler, Settled Q s ⟨env, .handler message thrown handler, w⟩ →
    Q w.scopes (final (evalHandler s env message thrown handler w)).scopes
  | none, _ => by
    simp only [evalHandler]
    exact hQ.refl _
  | some (.mk param body), h => by
    simp only [evalHandler]
    refine hQ.bind (hQ.plain (.caught message thrown) w) fun v w' hv => ?_
    refine hQ.bind (hQ.enter false env w') fun inner w'' hinner => ?_
    cases param with
    | none => exact hQ.block (fun env w => stmts env w body) (h.part (.handle hv hinner))
    | some name =>
      refine hQ.bind ((h.part (.parameter hv hinner)).self rfl) fun _ w₃ hw => ?_
      exact hQ.block (fun env w => stmts env w body) (h.part (.handleNamed hv hinner hw))

end

end Scopes.Lasting

/-- A relation that all steps of an evaluation keep, the evaluation keeps. -/
theorem Moment.Settled.after (hQ : Lasting Q) {s : Surroundings σ} {p : Moment σ} (h : p.Settled Q s) :
    Q p.world.scopes (p.after s).scopes := by
  obtain ⟨env, code, w⟩ := p
  cases code with
  | expr | declareOne | declare | bindItem | functions | caseFunctions => exact h.self rfl
  | declarators => exact hQ.declarators h
  | stmt st => exact hQ.stmt env w st h
  | stmts body => exact hQ.stmts env w body h
  | block => exact hQ.block (fun env w => hQ.stmts env w _) h
  | round => exact hQ.round (fun w => hQ.stmt env w _) h
  | rounds => exact hQ.rounds (fun w => hQ.stmt env w _) h
  | forRounds => exact hQ.forRounds (fun env w => hQ.stmt env w _) h
  | items => exact hQ.items (fun env w => hQ.stmt env w _) h
  | matching => exact hQ.matching h
  | cases i cases => exact hQ.caseBodies env w i cases h
  | handler message thrown handler => exact hQ.catching env w message thrown handler h

/-- What an evaluation comes to, it comes to in a world that its steps so far account for. -/
theorem Moment.Settled.moves (hQ : Lasting Q) {s : Surroundings σ} {p q : Moment σ} (h : p.Settled Q s)
    (hpart : p.Part s q) : Q p.world.scopes q.world.scopes := by
  have hcheck {w w' : World σ} (hw : checkpoint s.host w = .ok () w') : Q w.scopes w'.scopes :=
    of_ok (hQ.lift _ w) hw
  have henter {env inner : Env} {w w' : World σ} (hw : enter false env w = .ok inner w') : Q w.scopes w'.scopes :=
    of_ok (hQ.enter false env w) hw
  have hnext {fresh : Bool} {env next : Env} {w w' : World σ} (hw : nextScope fresh env w = .ok next w') :
      Q w.scopes w'.scopes :=
    of_ok (hQ.nextScope fresh env w) hw
  have hcaught {message : String} {thrown : Option Value} {v : Value} {w w' : World σ}
      (hw : caught message thrown w = .ok v w') : Q w.scopes w'.scopes :=
    of_ok (hQ.plain (.caught message thrown) w) hw
  cases hpart with
  | effect | declare | bare | start | block | head | condition | «while» | doWhile | testFirst | bodyFirst | source
  | subject | passDefault | caseTest | laterCase | caseBody | «return» | throw | «try» => exact hQ.refl _
  | afterBare hw => exact of_ok ((h.part .bare).self rfl) hw
  | started hv => exact of_ok ((h.part .start).self rfl) hv
  | afterStarted hv hw => exact hQ.trans (of_ok ((h.part .start).self rfl) hv) (of_ok ((h.part (.started hv)).self rfl) hw)
  | opened hi => exact henter hi
  | inside hi hw => exact hQ.trans (henter hi) (of_ok ((h.part (.opened hi)).self rfl) hw)
  | tail hw => exact of_ok ((h.part .head).after hQ) hw
  | yes hv | no hv => exact of_ok ((h.part .condition).self rfl) hv
  | oneRound hw | forRound hw => exact hcheck hw
  | moreRounds hw hr => exact hQ.trans (hcheck hw) (of_ok ((h.part (.oneRound hw)).after hQ) hr)
  | bodyNext hv =>
    refine of_ok (hQ.test ?_) hv
    rintro e rfl
    exact h.part .testFirst
  | testNext hc => exact of_ok ((h.part .bodyFirst).after hQ) hc
  | forDeclare hi | forEval hi => exact henter hi
  | forStarted hi hst hf => exact hQ.trans (hQ.trans (henter hi) (of_ok (hQ.forStart h hi) hst)) (hnext hf)
  | forUpdate hw hr hn =>
    exact hQ.trans (hQ.trans (hcheck hw) (of_ok ((h.part (.forRound hw)).after hQ) hr)) (hnext hn)
  | forMore hw hr hn hst =>
    refine hQ.trans (hQ.trans (hQ.trans (hcheck hw) (of_ok ((h.part (.forRound hw)).after hQ) hr)) (hnext hn)) ?_
    refine of_ok (hQ.step ?_) hst
    rintro e rfl
    exact h.part (.forUpdate hw hr hn)
  | items hv hi =>
    refine hQ.trans (of_ok ((h.part .source).self rfl) hv) (of_ok (hQ.plain ?_ _) hi)
    split
    · exact .keysIn _
    · exact .itemsOf _ _
  | bindItem hw hi => exact hQ.trans (hcheck hw) (henter hi)
  | withItem hw hi hb =>
    exact hQ.trans (hQ.trans (hcheck hw) (henter hi)) (of_ok ((h.part (.bindItem hw hi)).self rfl) hb)
  | moreItems hw hi hb hc =>
    exact hQ.trans (hQ.trans (hQ.trans (hcheck hw) (henter hi)) (of_ok ((h.part (.bindItem hw hi)).self rfl) hb))
      (of_ok ((h.part (.withItem hw hi hb)).after hQ) hc)
  | switchFunctions hv hi => exact hQ.trans (of_ok ((h.part .subject).self rfl) hv) (henter hi)
  | switchTests hv hi hf =>
    exact hQ.trans (hQ.trans (of_ok ((h.part .subject).self rfl) hv) (henter hi))
      (of_ok ((h.part (.switchFunctions hv hi)).self rfl) hf)
  | switchCases hv hi hf hm =>
    exact hQ.trans (hQ.trans (hQ.trans (of_ok ((h.part .subject).self rfl) hv) (henter hi))
      (of_ok ((h.part (.switchFunctions hv hi)).self rfl) hf)) (of_ok ((h.part (.switchTests hv hi hf)).after hQ) hm)
  | passCase hu => exact of_ok ((h.part .caseTest).self rfl) hu
  | nextCase hw => exact of_ok ((h.part .caseBody).after hQ) hw
  | «catch» he => exact of_error ((h.part .try).after hQ) he
  | «finally» hc => exact of_ok ((h.part .try).after hQ) hc
  | finallyCaught he hr ho =>
    refine hQ.trans (of_error ((h.part .try).after hQ) he) (of_ok ?_ hr)
    rw [final_attempt]
    exact (h.part (.catch he)).after hQ
  | parameter hv hi | handle hv hi => exact hQ.trans (hcaught hv) (henter hi)
  | handleNamed hv hi hw =>
    exact hQ.trans (hQ.trans (hcaught hv) (henter hi)) (of_ok ((h.part (.parameter hv hi)).self rfl) hw)

theorem Moment.Settled.reached (hQ : Lasting Q) {s : Surroundings σ} {p q : Moment σ} (h : p.Settled Q s)
    (hr : p.Reaches s q) : Q p.world.scopes q.world.scopes := by
  induction hr with
  | refl => exact hQ.refl _
  | tail hab hpart ih =>
    have hb := fun r hr => h r (hab.trans hr)
    exact hQ.trans ih (Moment.Settled.moves hQ hb hpart)

end Apiary
