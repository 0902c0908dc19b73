import Apiary.Proofs.Script.Termwise.Expression

/-!
Relations between the acts of two runs of the same code, in two hosts over one kind of state. The first
index of a relation is the number of active calls, the second a number of checkpoints passed for certain.
A relation that the single steps of running code keep is kept by whatever code runs. A relation that is careful
is kept by well-formed code only, and asks for less: no step raises the error of an assignment to what is no
place, and all functions are well formed.
-/

namespace Apiary.Act

variable {σ : Type}

abbrev Relation (σ : Type) := Nat → Nat → Link σ

/-- The outcomes that code goes on from. -/
inductive GoesOn (careful : Prop) {α : Type} : Except Interrupt α → Prop
  | ok (x : α) : GoesOn careful (.ok x)
  | error {message : String} {thrown : Option Value} :
    (careful → Interrupt.error message thrown ≠ .badTarget) → GoesOn careful (.error (.error message thrown))

theorem GoesOn.isOver_eq {careful : Prop} {α : Type} {r : Except Interrupt α} (h : GoesOn careful r) :
    isOver r = false := by
  cases h <;> rfl

theorem GoesOn.of_isOver {α : Type} {r : Except Interrupt α} (h : isOver r = false) : GoesOn False r := by
  cases r with
  | ok x => exact .ok x
  | error e =>
    cases e with
    | error message thrown => exact .error False.elim
    | _ => cases h

structure Stepwise (careful : Prop) (host host' : Host σ) (rounds rounds' : Nat) (R : Relation σ) :
    Prop where
  le : rounds ≤ rounds'
  simple {d k : Nat} {α : Type} {a : Act σ α} : Simple a → R d k a a
  raise {d k : Nat} {α : Type} {message : String} {thrown : Option Value} :
    (careful → Interrupt.error message thrown ≠ .badTarget) →
      R d k (throw (.error message thrown) : Act σ α) (throw (.error message thrown))
  newClosure {d k : Nat} {c : Closure} : (careful → c.code.WellFormed) →
    R d k (newClosure c) (newClosure c)
  closure? {d k : Nat} {α : Type} (cell : Nat) {f g : Option Closure → Act σ α} :
    (∀ found, (careful → ∀ c, found = some c → c.code.WellFormed) → R d k (f found) (g found)) →
      R d k (closure? cell >>= f) (closure? cell >>= g)
  later {d k k' : Nat} {α : Type} {a b : Act σ α} : k ≤ k' → R d k a b → R d k' a b
  checkpoint {d k : Nat} {α : Type} {a b : Act σ α} : R d (k + 1) a b →
    R d k (do checkpoint host; a) (do checkpoint host'; b)
  exhausted {d : Nat} {α : Type} {b : Act σ α} :
    (rounds = rounds' → b = throw (.endless .limit)) → R d rounds (throw (.endless .limit)) b
  active {d k : Nat} {α : Type} {f g : Nat → Act σ α} :
    R d k (f d) (g d) → R d k (active >>= f) (active >>= g)
  nested {d k : Nat} {α : Type} {a b : Act σ α} : R (d + 1) k a b → R d k (nested a) (nested b)
  attempt {d k : Nat} {α β : Type} {a b : Act σ α} {f g : Except Interrupt α → Act σ β} :
    R d k a b → (∀ r, GoesOn careful r → R d k (f r) (g r)) →
      (∀ e, isOver (.error e : Except Interrupt α) = true →
        f (.error e) = throw e ∧ g (.error e) = throw e) →
      R d k (attempt a >>= f) (attempt b >>= g)
  call {d k : Nat} (f : HostFunction) (args : List Value) :
    R d k (lift (host.call f args)) (lift (host'.call f args))
  log {d k : Nat} (line : String) : R d k (log host line) (log host' line)
  random {d k : Nat} : R d k (random host) (random host')
  clock {d k : Nat} : R d k (clock host) (clock host')

theorem bind_eq_attempt {α β : Type} (a : Act σ α) (f : α → Act σ β) :
    a >>= f = attempt a >>= fun r => ofOutcome r >>= f := by
  funext w
  simp only [Bind.bind, EStateM.bind, attempt]
  cases a w <;> rfl

namespace Stepwise

variable {careful : Prop} {host host' : Host σ} {rounds rounds' : Nat} {R : Relation σ}
  (hR : Stepwise careful host host' rounds rounds' R)

include hR

theorem bind {d k : Nat} {α β : Type} {a b : Act σ α} {f g : α → Act σ β} (h : R d k a b)
    (hfg : ∀ x, R d k (f x) (g x)) : R d k (a >>= f) (b >>= g) := by
  rw [bind_eq_attempt a, bind_eq_attempt b]
  refine hR.attempt h (fun r hr => ?_) fun e _ => ⟨rfl, rfl⟩
  cases hr with
  | ok x => exact hfg x
  | error he => exact hR.raise he

theorem map {d : Nat} {α β : Type} {a b : Act σ α} (f : α → β) (h : R d 0 a b) :
    R d 0 (f <$> a) (f <$> b) := by
  rw [map_eq_pure_bind, map_eq_pure_bind]
  exact hR.bind h fun x => hR.simple (.ret (f x))

theorem termwise (d k : Nat) (env : Env) : Termwise careful host host' env (R d k) where
  plain h := hR.simple (.plain h)
  raise := hR.raise
  lookScopes f := hR.simple (.lookScopes f)
  assign name value := hR.simple (.assign name value env)
  newClosure h := hR.newClosure h
  bind := hR.bind
  call := hR.call
  log := hR.log
  random := hR.random
  clock := hR.clock

end Stepwise

end Apiary.Act

/-!
Coherent relations and the evaluation of code: by induction on the tree inside one call, by induction on the
levels left across calls.
-/

namespace Apiary.Act.Stepwise

variable {σ : Type} {careful : Prop} {host host' : Host σ} {rounds rounds' : Nat} {R : Relation σ} {d : Nat}

theorem finishTry_over {e : Interrupt} (he : isOver (.error e : Except Interrupt Completion) = true)
    (last : Act σ Completion) : Act.finishTry (.error e) last = throw e := by
  unfold Act.finishTry
  rw [he]
  rfl

variable (hR : Stepwise careful host host' rounds rounds' R)

include hR

theorem repeatRounds {round round' : Act σ (Option Completion)} (hr : R d 0 round round')
    (n n' k : Nat) (hk : n + k = rounds) (hk' : n' + k = rounds') :
    R d k (repeatRounds host round n) (repeatRounds host' round' n') := by
  have hle := hR.le
  induction n generalizing n' k with
  | zero =>
    obtain rfl : k = rounds := by omega
    refine hR.exhausted fun heq => ?_
    obtain rfl : n' = 0 := by omega
    rfl
  | succ n ih =>
    obtain ⟨n', rfl⟩ : ∃ i, n' = i + 1 := ⟨n' - 1, by omega⟩
    refine hR.checkpoint (hR.bind (hR.later (Nat.zero_le _) hr) fun c => ?_)
    cases c with
    | none => exact ih n' (k + 1) (by omega) (by omega)
    | some c => exact hR.simple (.ret c)

theorem forRounds (fresh : Bool) {round round' : Env → Act σ (Option Completion)}
    {step step' : Env → Act σ Unit} (hr : ∀ env, R d 0 (round env) (round' env))
    (hs : ∀ env, R d 0 (step env) (step' env)) (n n' k : Nat) (hk : n + k = rounds)
    (hk' : n' + k = rounds') (env : Env) :
    R d k (forRounds host fresh round step n env)
      (forRounds host' fresh round' step' n' env) := by
  have hle := hR.le
  induction n generalizing n' k env with
  | zero =>
    obtain rfl : k = rounds := by omega
    refine hR.exhausted fun heq => ?_
    obtain rfl : n' = 0 := by omega
    rfl
  | succ n ih =>
    obtain ⟨n', rfl⟩ : ∃ i, n' = i + 1 := ⟨n' - 1, by omega⟩
    refine hR.checkpoint (hR.bind (hR.later (Nat.zero_le _) (hr env)) fun c => ?_)
    cases c with
    | none =>
      refine hR.bind (hR.simple (.nextScope fresh env)) fun env => ?_
      exact hR.bind (hR.later (Nat.zero_le _) (hs env)) fun _ =>
        ih n' (k + 1) (by omega) (by omega) env
    | some c => exact hR.simple (.ret c)

theorem eachItem {bind : Value → Env → Act σ Unit} {body body' : Env → Act σ Completion}
    (hbind : ∀ item env, Simple (bind item env)) (hb : ∀ env, R d 0 (body env) (body' env))
    (env : Env) (items : List Value) (k : Nat) :
    R d k (eachItem host bind body env items) (eachItem host' bind body' env items) := by
  induction items generalizing k with
  | nil => exact hR.simple (.ret _)
  | cons item rest ih =>
    refine hR.checkpoint (hR.bind (hR.simple (.enter false env)) fun inner => ?_)
    refine hR.bind (hR.simple (hbind item inner)) fun _ => ?_
    refine hR.bind (hR.later (Nat.zero_le _) (hb inner)) fun c => ?_
    cases afterRound c with
    | none => exact ih (k + 1)
    | some c => exact hR.simple (.ret c)

theorem testFirst {test test' : Act σ Value} {body body' : Act σ Completion} (ht : R d 0 test test')
    (hb : R d 0 body body') :
    R d 0 (testFirst test body) (testFirst test' body') := by
  refine hR.bind ht fun v => ?_
  split
  · exact hR.map _ hb
  · exact hR.simple (.ret _)

theorem testLast {test test' : Act σ Value} {body body' : Act σ Completion} (ht : R d 0 test test')
    (hb : R d 0 body body') :
    R d 0 (testLast test body) (testLast test' body') := by
  refine hR.bind hb fun c => ?_
  cases afterRound c with
  | some c => exact hR.simple (.ret _)
  | none => exact hR.bind ht fun v => hR.simple (.ret _)

theorem ofOutcome {r : Except Interrupt Completion} (hr : GoesOn careful r) :
    R d 0 (ofOutcome r) (Act.ofOutcome r) := by
  cases hr with
  | ok c => exact hR.simple (.ret c)
  | error he => exact hR.raise he

theorem finishTry {r : Except Interrupt Completion} (hr : GoesOn careful r)
    {last last' : Act σ Completion} (hl : R d 0 last last') :
    R d 0 (finishTry r last) (finishTry r last') := by
  unfold Act.finishTry
  rw [hr.isOver_eq]
  refine hR.bind hl fun c => ?_
  cases c with
  | normal => exact hR.ofOutcome hr
  | _ => exact hR.simple (.ret _)

theorem runTry {body body' last last' : Act σ Completion}
    {handler handler' : String → Option Value → Act σ Completion} (hb : R d 0 body body')
    (hh : ∀ message thrown, (careful → Interrupt.error message thrown ≠ .badTarget) →
      R d 0 (handler message thrown) (handler' message thrown))
    (hl : R d 0 last last') : R d 0 (runTry body handler last) (runTry body' handler' last') := by
  refine hR.attempt hb (fun r hr => ?_) fun e he => ?_
  · cases hr with
    | ok c => exact hR.finishTry (.ok c) hl
    | @error message thrown hne =>
      exact hR.attempt (hh message thrown hne) (fun r hr => hR.finishTry hr hl) fun e he =>
        ⟨finishTry_over he last, finishTry_over he last'⟩
  · cases e with
    | error message thrown => cases he
    | _ => exact ⟨finishTry_over he last, finishTry_over he last'⟩

theorem declareFunctions (env : Env) {body : List Stmt} (hb : careful → Stmt.AllWellFormed body) :
    R d 0 (declareFunctions env body) (Act.declareFunctions env body) := by
  induction body with
  | nil => exact hR.simple (.ret ())
  | cons stmt rest ih =>
    have hrest := ih fun h => (hb h).2
    cases stmt with
    | function f =>
      unfold Act.declareFunctions
      cases f.name with
      | none => exact hrest
      | some name =>
        exact hR.bind (hR.newClosure fun h => (hb h).1.2) fun v =>
          hR.bind (hR.simple (.declare _ _ _ _)) fun _ => hrest
    | _ => exact hrest

theorem hoist (env : Env) {body : List Stmt} (hb : careful → Stmt.AllWellFormed body) :
    R d 0 (hoist env body) (Act.hoist env body) :=
  hR.bind (hR.simple (.declareVars _ _)) fun _ => hR.declareFunctions env hb

theorem declareCaseFunctions (env : Env) {cases : List Case} (hc : careful → Case.AllWellFormed cases) :
    R d 0 (declareCaseFunctions env cases) (Act.declareCaseFunctions env cases) := by
  induction cases with
  | nil => exact hR.simple (.ret ())
  | cons c rest ih =>
    obtain ⟨test, body⟩ := c
    exact hR.bind (hR.declareFunctions env fun h => (hc h).2.1) fun _ => ih fun h => (hc h).2.2

theorem inBlock (env : Env) {body : List Stmt} (hb : careful → Stmt.AllWellFormed body)
    {run run' : Env → Act σ Completion} (hr : ∀ inner, R d 0 (run inner) (run' inner)) :
    R d 0 (inBlock env body run) (inBlock env body run') :=
  hR.bind (hR.simple (.enter false env)) fun inner =>
    hR.bind (hR.declareFunctions inner hb) fun _ => hr inner

end Apiary.Act.Stepwise
