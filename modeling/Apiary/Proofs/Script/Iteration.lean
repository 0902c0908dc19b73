import Apiary.Proofs.Script.Globals
import Apiary.Proofs.Script.Lives
import Apiary.Proofs.Script.Sparing

/-!
The rounds of a `for` loop that declares variables. Each round has a scope of its own, a copy of the one before
that the update changes first; what closures see of the scopes of earlier rounds stays as it was.
-/

namespace Apiary

open Act Scopes

variable {σ : Type} {s : Surroundings σ}

structure Loop where
  kind : DeclKind
  decls : List Declarator
  test : Option Expr
  update : Option Expr
  body : Stmt

namespace Loop

def stmt (l : Loop) : Stmt := .for (.declare l.kind l.decls) l.test l.update l.body

def names (l : Loop) : List String := l.decls.map Declarator.name

def round (l : Loop) : Fragment := .round true l.test l.body

/-- What is left of the loop, when so many rounds are. -/
def rest (l : Loop) (n : Nat) : Fragment := .forRounds true l.test l.update l.body n

def evalRest (l : Loop) (s : Surroundings σ) (n : Nat) (env : Env) : Act σ Completion :=
  evalForRounds s true l.test l.update l.body n env

/-- What is left of the loop after a round that it goes on from. -/
def goOn (l : Loop) (s : Surroundings σ) (n : Nat) (env : Env) : Act σ Completion := do
  let next ← nextScope true env
  evalStep s next l.update
  l.evalRest s n next

structure Goes (l : Loop) (s : Surroundings σ) (env : Env) (v v₁ v₂ : World σ) : Prop where
  checkpoint : checkpoint s.host v = .ok () v₁
  round : evalRound s true l.test l.body env v₁ = .ok none v₂

structure Follows (l : Loop) (s : Surroundings σ) (env : Env) (v₂ : World σ) (next : Env) (v₃ v' : World σ) :
    Prop where
  fork : nextScope true env v₂ = .ok next v₃
  step : evalStep s next l.update v₃ = .ok () v'

/-- The turns of a loop: it comes to a round, in an environment and a world, and with so many rounds left. -/
inductive Turn (l : Loop) (s : Surroundings σ) (env : Env) (w : World σ) : Nat → Env → World σ → Prop
  | first {outer inner : Env} {w₁ w₂ v : World σ} : enter false env w = .ok outer w₁ →
    evalDeclarators s outer l.kind l.decls w₁ = .ok () w₂ → nextScope true outer w₂ = .ok inner v →
    Turn l s env w s.rounds inner v
  | next {n : Nat} {inner next : Env} {v v₁ v₂ v₃ v' : World σ} : Turn l s env w (n + 1) inner v →
    l.Goes s inner v v₁ v₂ → l.Follows s inner v₂ next v₃ v' → Turn l s env w n next v'

/-- The scope of a round: new since the loop began, no function's, and with all names that the loop declares. -/
structure Stage (l : Loop) (env : Env) (w : World σ) (inner : Env) (v : World σ) : Prop where
  env : inner = innermost inner :: env
  opened : Opened (w.scopes.size + 1) v.scopes (innermost inner)
  own {name : String} : name ∈ l.names → (v.scopes.own (innermost inner) name).isSome = true

structure Fresh (l : Loop) (s : Surroundings σ) (spared : Nat → Interrupt → Surroundings σ) (env : Env) (w : World σ) :
    Prop where
  /-- The turns are moments of the run, which ends as what is left of the loop does. -/
  comes {n : Nat} {inner : Env} {v : World σ} : l.Turn s env w n inner v →
    Moment.Reaches s ⟨env, .stmt l.stmt, w⟩ ⟨inner, l.rest n, v⟩ ∧ evalStmt s env l.stmt w = l.evalRest s n inner v
  stage {n : Nat} {inner : Env} {v : World σ} : l.Turn s env w n inner v → l.Stage env w inner v
  distinct {n n' : Nat} {inner inner' : Env} {v v' : World σ} : l.Turn s env w n inner v →
    l.Turn s env w n' inner' v' → n' < n → innermost inner < innermost inner'
  /-- The next round has what the body leaves, as the update changes it. -/
  copied {n : Nat} {inner next : Env} {v v₁ v₂ v₃ v' : World σ} : l.Turn s env w (n + 1) inner v →
    l.Goes s inner v v₁ v₂ → l.Follows s inner v₂ next v₃ v' →
      next = v₂.scopes.size :: env ∧
        (∀ name, v₃.scopes.own v₂.scopes.size name = v₂.scopes.own (innermost inner) name) ∧
        ∀ cell < v₂.scopes.size, v₃.scopes[cell]? = v₂.scopes[cell]?
  /-- Its body begins with that, as the test changes it. -/
  tested {inner : Env} {v v₁ : World σ} {q : Moment σ} : Act.checkpoint s.host v = .ok () v₁ →
    Moment.Part s ⟨inner, l.round, v₁⟩ q → q.code = .stmt l.body →
      v₁.scopes = v.scopes ∧ q.env = inner ∧ ∃ u, evalTest s inner l.test v₁ = .ok u q.world ∧ u.truthy = true
  /-- All that a round comes to sees its scope; so do the functions that are made there. -/
  seen {n : Nat} {inner : Env} {v v₁ : World σ} {q : Moment σ} : l.Turn s env w n inner v →
    Moment.Reaches s ⟨inner, l.round, v₁⟩ q → innermost inner ∈ q.env
  /-- No later round changes the scope, at any moment, unless it calls a function that sees it. -/
  held {n : Nat} {inner next : Env} {v v₁ v₂ v₃ v' : World σ} {cut : Interrupt} {q : Moment σ} :
    l.Turn s env w (n + 1) inner v → l.Goes s inner v v₁ v₂ →
      l.Follows (spared (innermost inner) cut) inner v₂ next v₃ v' →
      Moment.Reaches (spared (innermost inner) cut) ⟨next, l.rest n, v'⟩ q →
      q.world.scopes[innermost inner]? = v₂.scopes[innermost inner]?
  /-- Without such a call the rest of the loop is the same as when such calls are cut short. -/
  kept {n : Nat} {inner : Env} {v v₁ v₂ : World σ} {cut : Interrupt} : l.Turn s env w (n + 1) inner v →
    l.Goes s inner v v₁ v₂ → cut.IsOver →
      evalStmt s env l.stmt w = l.goOn s n inner v₂ ∧
      (final (l.goOn (spared (innermost inner) cut) n inner v₂)).scopes[innermost inner]? =
        v₂.scopes[innermost inner]? ∧
      (l.goOn s n inner v₂ = l.goOn (spared (innermost inner) cut) n inner v₂ ∨
        ∃ v', l.goOn (spared (innermost inner) cut) n inner v₂ = .error cut v')

end Loop

theorem Moment.Inner.opened {n cell : Nat} {base : Env} {code : Fragment} {w : World σ} (h : Opened n w.scopes cell)
    (hi : code.itemEnv? = none) : Moment.Inner n base ⟨cell :: base, code, w⟩ where
  size := Nat.le_trans h.le (Nat.le_of_lt h.lt)
  env := ⟨[cell], rfl, code.replaces_le, fun c hc => by rwa [List.mem_singleton.mp hc]⟩
  item heq := by
    rw [hi] at heq
    cases heq

theorem Moment.Part.round_body {env : Env} {test : Option Expr} {body : Stmt} {w : World σ} {q : Moment σ}
    (h : Moment.Part s ⟨env, .round true test body, w⟩ q) (hq : q.code = .stmt body) :
    q.env = env ∧ ∃ u, evalTest s env test w = .ok u q.world ∧ u.truthy = true := by
  obtain ⟨env', code, w'⟩ := q
  cases hq
  cases h with
  | bodyNext hu ht => exact ⟨rfl, _, hu, ht⟩

namespace Act

theorem fork_ok {cell : Nat} {rest next : Env} {w w' : World σ} (h : nextScope true (cell :: rest) w = .ok next w') :
    next = w.scopes.size :: rest ∧ w'.scopes = w.scopes.push (w.scopes[cell]?.getD ⟨[], false⟩) := by
  cases h
  exact ⟨rfl, rfl⟩

theorem own_fork {cell : Nat} {rest next : Env} {w w' : World σ} (h : nextScope true (cell :: rest) w = .ok next w')
    (name : String) : w'.scopes.own w.scopes.size name = w.scopes.own cell name := by
  rw [(fork_ok h).2]
  simp only [own, Array.getElem?_push_size, Option.bind_some]
  cases w.scopes[cell]? <;> rfl

theorem opened_fork {n cell : Nat} {rest next : Env} {w w' : World σ} (hn : n ≤ w.scopes.size)
    (hf : w.scopes.isFunction cell = false) (h : nextScope true (cell :: rest) w = .ok next w') :
    Opened n w'.scopes w.scopes.size := by
  rw [(fork_ok h).2]
  exact opened_copy hn hf

theorem evalDeclarators_own (hs : s.Grow) {kind : DeclKind} (hk : kind ≠ .var) {env : Env} {decls : List Declarator}
    {w w' : World σ} (hlt : innermost env < w.scopes.size) (h : evalDeclarators s env kind decls w = .ok () w') :
    ∀ name ∈ decls.map Declarator.name, (w'.scopes.own (innermost env) name).isSome = true := by
  have hone {name : String} {value : Option Value} {v v' : World σ} (hlt : innermost env < v.scopes.size)
      (hv : declareOne kind name value env v = .ok () v') : (v'.scopes.own (innermost env) name).isSome = true := by
    cases kind with
    | var => exact absurd rfl hk
    | _ =>
      cases hv
      exact (congrArg Option.isSome (own_declare_self _ _ name _ _ hlt)).trans rfl
  induction decls generalizing w with
  | nil => exact fun _ h => absurd h List.not_mem_nil
  | cons decl rest ih =>
    obtain ⟨name, init⟩ := decl
    have hrest {value : Option Value} {v v' : World σ} (hlt : innermost env < v.scopes.size)
        (hv : declareOne kind name value env v = .ok () v') (hv' : evalDeclarators s env kind rest v' = .ok () w') :
        ∀ n ∈ (Declarator.mk name init :: rest).map Declarator.name,
          (w'.scopes.own (innermost env) n).isSome = true := by
      have hg := (hs.declareOne kind name value env).of_ok hv
      have hg' : Grows v'.scopes w'.scopes :=
        Respects.of_ok (fun w => Moment.grows hs ⟨env, .declarators kind rest, w⟩) hv'
      intro n hn
      rcases List.mem_cons.mp hn with rfl | hn
      · exact hg'.own (hone hlt hv)
      · exact ih (Nat.lt_of_lt_of_le hlt hg.size_le) hv' n hn
    cases init with
    | none =>
      obtain ⟨_, v, hv, hv'⟩ := bind_ok h
      exact hrest hlt hv hv'
    | some e =>
      obtain ⟨u, v, hu, h⟩ := bind_ok h
      obtain ⟨_, v', hv, hv'⟩ := bind_ok h
      exact hrest (Nat.lt_of_lt_of_le hlt ((hs.expr env e).of_ok hu).size_le) hv hv'

end Act

namespace Loop

variable {l : Loop} {env inner next : Env} {n : Nat} {w v v₁ v₂ v₃ v' : World σ}

theorem isFresh (hk : l.kind ≠ .var) : (ForStart.declare l.kind l.decls).isFresh = true := decide_eq_true hk

theorem Goes.rest (h : l.Goes s env v v₁ v₂) (n : Nat) : l.evalRest s (n + 1) env v = l.goOn s n env v₂ := by
  simp only [evalRest, evalForRounds, forRounds, Bind.bind, EStateM.bind, h.checkpoint, h.round]
  rfl

theorem Follows.rest (h : l.Follows s env v₂ next v₃ v') (n : Nat) : l.goOn s n env v₂ = l.evalRest s n next v' := by
  simp only [goOn, Bind.bind, EStateM.bind, h.fork, h.step]

theorem Goes.grows (h : l.Goes s env v v₁ v₂) (hs : s.Grow) : Grows v.scopes v₂.scopes :=
  (Respects.of_ok (lasting_grows.lift _) h.checkpoint).trans ((hs.round true l.test l.body env).of_ok h.round)

theorem Stage.follows (h : l.Stage env w inner v) (hs : s.Grow) (hgoes : l.Goes s inner v v₁ v₂)
    (hnext : l.Follows s inner v₂ next v₃ v') :
    l.Stage env w next v' ∧ innermost inner < innermost next := by
  have hgrows := hgoes.grows hs
  have hopened := h.opened.grows hgrows
  have hfork := hnext.fork
  rw [h.env] at hfork
  have hstep := (hs.step next l.update).of_ok hnext.step
  obtain ⟨rfl, -⟩ := fork_ok hfork
  refine ⟨⟨rfl, ?_, fun hname => ?_⟩, hopened.lt⟩
  · exact (opened_fork (Nat.le_trans hopened.le (Nat.le_of_lt hopened.lt)) hopened.isFunction hfork).grows hstep
  · refine hstep.own ?_
    rw [innermost, List.headD_cons, own_fork hfork]
    exact hgrows.own (h.own hname)

namespace Turn

theorem le (h : l.Turn s env w n inner v) : n ≤ s.rounds := by
  induction h with
  | first => exact Nat.le_refl _
  | next _ _ _ ih => exact Nat.le_of_succ_le ih

theorem stage (hs : s.Grow) (hk : l.kind ≠ .var) (h : l.Turn s env w n inner v) : l.Stage env w inner v := by
  induction h with
  | @first outer inner w₁ w₂ v henter hdecls hfork =>
    obtain ⟨rfl, hw₁⟩ := enter_ok henter
    have hopened : Opened w.scopes.size w₁.scopes w.scopes.size := hw₁ ▸ opened_push (Nat.le_refl _) rfl
    have hgrows : Grows w₁.scopes w₂.scopes :=
      Respects.of_ok (fun w => Moment.grows hs ⟨_, .declarators l.kind l.decls, w⟩) hdecls
    have hopened₂ := hopened.grows hgrows
    obtain ⟨rfl, -⟩ := fork_ok hfork
    refine ⟨rfl, opened_fork hopened₂.lt hopened₂.isFunction hfork, fun hname => ?_⟩
    rw [innermost, List.headD_cons, own_fork hfork]
    have hlt : innermost (w.scopes.size :: env) < w₁.scopes.size := hopened.lt
    exact evalDeclarators_own hs hk hlt hdecls _ hname
  | next _ hgoes hnext ih => exact (ih.follows hs hgoes hnext).1

theorem unique {inner' : Env} {v' : World σ} (h : l.Turn s env w n inner v) (h' : l.Turn s env w n inner' v') :
    inner' = inner ∧ v' = v := by
  induction h generalizing inner' v' with
  | first henter hdecls hfork =>
    cases h' with
    | first henter' hdecls' hfork' =>
      cases henter.symm.trans henter'
      cases hdecls.symm.trans hdecls'
      cases hfork.symm.trans hfork'
      exact ⟨rfl, rfl⟩
    | next h' => exact absurd h'.le (Nat.not_succ_le_self _)
  | next h hgoes hnext ih =>
    cases h' with
    | first => exact absurd h.le (Nat.not_succ_le_self _)
    | next h' hgoes' hnext' =>
      obtain ⟨rfl, rfl⟩ := ih h'
      cases hgoes.checkpoint.symm.trans hgoes'.checkpoint
      cases hgoes.round.symm.trans hgoes'.round
      cases hnext.fork.symm.trans hnext'.fork
      cases hnext.step.symm.trans hnext'.step
      exact ⟨rfl, rfl⟩

-- A later turn is compared with the turn right before it, and a run comes to each of its turns in one way only.
theorem distinct (hs : s.Grow) (hk : l.kind ≠ .var) {n' : Nat} {inner' : Env} {v' : World σ}
    (h : l.Turn s env w n inner v) (h' : l.Turn s env w n' inner' v') (hlt : n' < n) :
    innermost inner < innermost inner' := by
  induction h' with
  | first => exact absurd h.le (Nat.not_le.mpr hlt)
  | @next n' inner₁ next v₁ _ _ _ _ h₁ hgoes hnext ih =>
    have hlast := ((h₁.stage hs hk).follows hs hgoes hnext).2
    rcases Nat.eq_or_lt_of_le hlt with rfl | hlt
    · obtain ⟨rfl, rfl⟩ := h.unique h₁
      exact hlast
    · exact Nat.lt_trans (ih hlt) hlast

theorem comes (hk : l.kind ≠ .var) (h : l.Turn s env w n inner v) :
    Moment.Reaches s ⟨env, .stmt l.stmt, w⟩ ⟨inner, l.rest n, v⟩ ∧
      evalStmt s env l.stmt w = l.evalRest s n inner v := by
  induction h with
  | @first outer inner w₁ w₂ v henter hdecls hfork =>
    have hstart : evalForStart s outer (.declare l.kind l.decls) w₁ = .ok () w₂ := hdecls
    constructor
    · have hpart : Moment.Part s ⟨env, .stmt l.stmt, w⟩ ⟨inner, .forRounds (ForStart.declare l.kind l.decls).isFresh
          l.test l.update l.body s.rounds, v⟩ := .forStarted henter hstart (by rwa [isFresh hk])
      rw [isFresh hk] at hpart
      exact .single hpart
    · simp only [Loop.stmt, evalStmt, Bind.bind, EStateM.bind, henter, hstart, hfork, isFresh hk]
      rfl
  | @next n inner next v v₁ v₂ v₃ v' _ hgoes hnext ih =>
    refine ⟨ih.1.tail (.forMore hgoes.checkpoint hgoes.round hnext.fork hnext.step), ?_⟩
    rw [ih.2, hgoes.rest, hnext.rest]

end Turn

section Spares

variable {cell : Nat} (hs : s.Grow) (hcall : s.Spare cell) (hcell : cell < v.scopes.size)
  (hf : v.scopes.isFunction cell = false) (henv : env ≠ []) (hnot : cell ∉ env)

include hs hcall hcell hf henv hnot

/-- What runs in the scope of the next round spares the scope of the round before, if the calls do. -/
theorem settled_next (hfork : nextScope true (cell :: env) v = .ok next v₁) {code : Fragment} {v₂ : World σ}
    (hg : Grows v₁.scopes v₂.scopes) (hi : code.itemEnv? = none) :
    Moment.Settled (Spares cell) s ⟨next, code, v₂⟩ := by
  obtain ⟨rfl, -⟩ := fork_ok hfork
  have hopened := (opened_fork (Nat.le_refl _) hf hfork).grows hg
  exact (Moment.Inner.opened hopened hi).settled_spares hcell hnot henv hs hcall

theorem goOn_spares : Spares cell v.scopes (final (l.goOn s n (cell :: env) v)).scopes := by
  have hQ := lasting_spares cell
  refine hQ.bind (hQ.nextScope true _ v) fun next v₁ hfork => ?_
  refine hQ.bind (hQ.step fun e _ => ?_) fun _ v₂ hstep => ?_
  · exact settled_next hs hcall hcell hf henv hnot hfork (lasting_grows.refl _) rfl
  · have hrest : Moment.Settled (Spares cell) s ⟨next, l.rest n, v₂⟩ :=
      settled_next hs hcall hcell hf henv hnot hfork ((hs.step next l.update).of_ok hstep) rfl
    exact hrest.after hQ

theorem follows_spares (hnext : l.Follows s (cell :: env) v next v₁ v₂) {q : Moment σ}
    (hq : Moment.Reaches s ⟨next, l.rest n, v₂⟩ q) : Spares cell v.scopes q.world.scopes := by
  have hQ := lasting_spares cell
  have hstep : Spares cell v₁.scopes v₂.scopes := of_ok
    (hQ.step fun e _ => settled_next hs hcall hcell hf henv hnot hnext.fork (lasting_grows.refl _) rfl) hnext.step
  have hrest : Moment.Settled (Spares cell) s ⟨next, l.rest n, v₂⟩ :=
    settled_next hs hcall hcell hf henv hnot hnext.fork hstep.toGrows rfl
  exact hQ.trans (hQ.trans (of_ok (hQ.nextScope true _ v) hnext.fork) hstep) (hrest.reached hQ hq)

end Spares

/-- The rest of a loop does the same with other calls, as far as these do. -/
theorem goOn_level {cut : Interrupt → Prop} (hcut : ∀ e, cut e → e.IsOver) {host : Host σ} {rounds d : Nat}
    {call call' : Calling σ} (hcalls : SameCalls (Level cut d) call call') (hn : n ≤ rounds) :
    Level cut d (l.goOn ⟨host, call, rounds⟩ n env) (l.goOn ⟨host, call', rounds⟩ n env) := by
  have hR := Level.stepwise hcut host rounds
  refine Level.bind (hR.simple (k := 0) (.nextScope true env)) fun next => ?_
  refine Level.bind (hR.evalStep hcalls next False.elim) fun _ => ?_
  refine hR.forRounds true (fun env => ?_) (fun env => hR.evalStep hcalls env False.elim) n n (rounds - n)
    (Nat.add_sub_cancel' hn) (Nat.add_sub_cancel' hn) next
  exact hR.testFirst (hR.evalTest hcalls env False.elim) (hR.evalStmt hcalls env l.body False.elim)

section Fresh

variable {host : Host σ} {rounds level : Nat} (hk : l.kind ≠ .var) (henv : env ≠ [])
  (hlt : ∀ c ∈ env, c < w.scopes.size) {cut : Interrupt}
  (h : l.Turn ⟨host, calling host rounds level, rounds⟩ env w (n + 1) inner v)
  (hgoes : l.Goes ⟨host, calling host rounds level, rounds⟩ inner v v₁ v₂)

include hk hlt h hgoes

/-- After a round its scope is there, and the loop itself does not see it. -/
theorem Goes.left : inner = innermost inner :: env ∧ innermost inner < v₂.scopes.size ∧
    v₂.scopes.isFunction (innermost inner) = false ∧ innermost inner ∉ env := by
  have hs := (calling_steady host rounds level).grow
  have hstage := h.stage hs hk
  have hopened := hstage.opened.grows (hgoes.grows hs)
  refine ⟨hstage.env, hopened.lt, hopened.isFunction, fun hmem => ?_⟩
  exact absurd (hlt _ hmem) (Nat.not_lt.mpr (Nat.le_of_succ_le hopened.le))

include henv

theorem held {q : Moment σ}
    (hnext : l.Follows ⟨host, sparing host rounds (innermost inner) cut level, rounds⟩ inner v₂ next v₃ v')
    (hq : Moment.Reaches ⟨host, sparing host rounds (innermost inner) cut level, rounds⟩ ⟨next, l.rest n, v'⟩ q) :
    q.world.scopes[innermost inner]? = v₂.scopes[innermost inner]? := by
  obtain ⟨heq, hcell, hf, hnot⟩ := hgoes.left hk hlt h
  rw [heq] at hnext
  exact (follows_spares (sparing_steady host rounds _ cut level).grow (sparing_spares host rounds _ cut level) hcell hf
    henv hnot hnext hq).same hcell

theorem kept (hcut : cut.IsOver) :
    let s : Surroundings σ := ⟨host, calling host rounds level, rounds⟩
    let spared : Surroundings σ := ⟨host, sparing host rounds (innermost inner) cut level, rounds⟩
    evalStmt s env l.stmt w = l.goOn s n inner v₂ ∧
      (final (l.goOn spared n inner v₂)).scopes[innermost inner]? = v₂.scopes[innermost inner]? ∧
      (l.goOn s n inner v₂ = l.goOn spared n inner v₂ ∨ ∃ v', l.goOn spared n inner v₂ = .error cut v') := by
  intro s spared
  obtain ⟨heq, hcell, hf, hnot⟩ := hgoes.left hk hlt h
  refine ⟨(h.comes hk).2.trans (hgoes.rest n), ?_, ?_⟩
  · have hspares : Spares (innermost inner) v₂.scopes (final (l.goOn spared n (innermost inner :: env) v₂)).scopes :=
      goOn_spares (sparing_steady host rounds _ cut level).grow (sparing_spares host rounds _ cut level) hcell hf henv hnot
    rw [← heq] at hspares
    exact hspares.same hcell
  · have hover : ∀ e, e = cut → e.IsOver := fun _ he => he ▸ hcut
    have hlevel : Level (· = cut) v₂.depth (l.goOn spared n inner) (l.goOn s n inner) :=
      goOn_level hover (sparing_level hcut host rounds (innermost inner) level _) (Nat.le_of_succ_le h.le)
    exact (hlevel v₂ rfl).1.imp_right fun ⟨e, v', he, heq⟩ => ⟨v', he ▸ heq⟩

end Fresh

theorem fresh (host : Host σ) (rounds level : Nat) (hk : l.kind ≠ .var) (henv : env ≠ [])
    (hlt : ∀ c ∈ env, c < w.scopes.size) : l.Fresh ⟨host, calling host rounds level, rounds⟩
      (fun cell cut => ⟨host, sparing host rounds cell cut level, rounds⟩) env w := by
  have hs := (calling_steady host rounds level).grow
  exact {
    comes := Turn.comes hk
    stage := Turn.stage hs hk
    distinct := Turn.distinct hs hk
    copied := fun h _ hnext => by
      have hfork := hnext.fork
      rw [(h.stage hs hk).env] at hfork
      obtain ⟨rfl, hscopes⟩ := fork_ok hfork
      refine ⟨rfl, own_fork hfork, fun cell hcell => ?_⟩
      rw [hscopes, Array.getElem?_push, if_neg (Nat.ne_of_lt hcell)]
    tested := fun {inner v v₁ q} hw hpart hbody =>
      ⟨of_ok (Q := fun S T => T = S) (scopes_lift _ v) hw, hpart.round_body hbody⟩
    seen := fun h hreach => by
      have hstage := h.stage hs hk
      have hinner := Moment.Inner.reaches (.start (Nat.zero_le _) rfl rfl) hs hreach
      obtain ⟨opened, he, -⟩ := hinner.env
      rw [he]
      refine List.mem_append_right _ (innermost_mem ?_)
      rw [hstage.env]
      exact List.cons_ne_nil _ _
    held := fun h hgoes hnext hq => held hk henv hlt h hgoes hnext hq
    kept := kept hk henv hlt }

end Loop

/-- The variables that a loop declares are fresh in each round: wherever a loop runs whose scopes are there, and all
scopes are there wherever a program comes to. -/
theorem loop_variables_fresh (host : Host σ) (rounds : Nat) :
    (∀ (level : Nat) (l : Loop) (env : Env) (w : World σ), l.kind ≠ .var → env ≠ [] →
      (∀ c ∈ env, c < w.scopes.size) → l.Fresh ⟨host, calling host rounds level, rounds⟩
        (fun cell cut => ⟨host, sparing host rounds cell cut level, rounds⟩) env w) ∧
    ∀ (program : Program) (w : World σ) (p : Moment σ), 0 < w.scopes.size →
      Lives host rounds globalEnv (.block program) w p → p.env ≠ [] ∧ ∀ c ∈ p.env, c < p.world.scopes.size := by
  refine ⟨fun level l env w hk henv hlt => Loop.fresh host rounds level hk henv hlt, fun program w p hw h => ?_⟩
  refine (h.placed (List.cons_ne_nil _ _) fun c hc => ?_).env
  rw [List.mem_singleton.mp hc]
  exact hw

def idleLoop : Loop := ⟨.let, [.mk "i" (some (.string "a"))], none, none, .empty⟩

/-- Two rounds of a loop that does nothing have their scopes, which are not the same. -/
theorem idleLoop_scopes : ∃ inner v inner' v',
    idleLoop.Turn (surroundings .countdown 2) globalEnv (World.startWithHost 2) 2 inner v ∧
    idleLoop.Turn (surroundings .countdown 2) globalEnv (World.startWithHost 2) 1 inner' v' ∧
    innermost inner < innermost inner' ∧ (v'.scopes.own (innermost inner') "i").isSome = true := by
  have hfirst : idleLoop.Turn (surroundings .countdown 2) globalEnv (World.startWithHost 2) 2 _ _ :=
    .first rfl rfl rfl
  have hsecond := hfirst.next ⟨rfl, rfl⟩ ⟨rfl, rfl⟩
  have hfresh := (loop_variables_fresh .countdown 2).1 (maxCallDepth + 1) idleLoop globalEnv (World.startWithHost 2)
    (by decide) (by decide) (by decide)
  exact ⟨_, _, _, _, hfirst, hsecond, hfresh.distinct hfirst hsecond (by decide),
    (hfresh.stage hsecond).own (List.mem_singleton_self _)⟩

/-- A loop whose test changes its variable. -/
def changedByTest : Program :=
  [.declare .let [.mk "first" (some (.string "")), .mk "second" (some (.string ""))],
    .for (.declare .let [.mk "i" (some (.string "a"))])
      (some (.sequence [.assign none (.name "i") (.conditional (.name "first") (.string "b") (.string "a")),
        .unary .not (.name "second")])) none
      (.ifElse (.name "first") (.expr (.assign none (.name "second") (.name "i")))
        (some (.expr (.assign none (.name "first") (.name "i")))))]

/-- A loop whose update makes a function that changes the variable of the round before. -/
def changedByUpdate : Program :=
  [.declare .let [.mk "get" (some .null), .mk "set" (some .null), .mk "done" (some (.bool false))],
    .for (.declare .let [.mk "i" (some (.string "a"))]) (some (.unary .not (.name "done")))
      (some (.assign none (.name "set") (.logical .or (.name "set")
        (.function (.mk none [] true (.block [.expr (.assign none (.name "i") (.string "z"))]))))))
      (.ifElse (.name "get")
        (.block [.expr (.call (.name "set") []), .expr (.assign none (.name "done") (.bool true))])
        (some (.ifElse (.name "set") (.expr (.assign none (.name "get")
          (.function (.mk none [] true (.value (.name "i")))))) none))),
    .declare .let [.mk "seen" (some (.call (.name "get") []))]]

deriving instance DecidableEq for Binding

/-- The second body begins with what the test makes of the value that the first one leaves, and a function that the
second body makes sees its variable change in the third one. -/
theorem loop_variables_changed :
    (∃ w, runProgram .countdown 9 changedByTest (World.startWithHost 9) = .ok () w ∧
      w.scopes.own 0 "first" = some ⟨.string "a", false⟩ ∧ w.scopes.own 0 "second" = some ⟨.string "b", false⟩) ∧
    ∃ w, runProgram .countdown 9 changedByUpdate (World.startWithHost 9) = .ok () w ∧
      w.scopes.own 0 "seen" = some ⟨.string "z", false⟩ := by
  rw [World.startWithHost_eq]
  have htest : (worldAfter? (runProgram .countdown 9 changedByTest (World.started 9))).map
      (fun w => (w.scopes.own 0 "first", w.scopes.own 0 "second")) =
        some (some ⟨.string "a", false⟩, some ⟨.string "b", false⟩) := by decide +kernel
  have hupdate : (worldAfter? (runProgram .countdown 9 changedByUpdate (World.started 9))).map
      (fun w => w.scopes.own 0 "seen") = some (some ⟨.string "z", false⟩) := by decide +kernel
  obtain ⟨w, hrun, hown⟩ := ended_of_map htest
  obtain ⟨hfirst, hsecond⟩ := Prod.mk.inj hown
  exact ⟨⟨w, hrun, hfirst, hsecond⟩, ended_of_map hupdate⟩

end Apiary
