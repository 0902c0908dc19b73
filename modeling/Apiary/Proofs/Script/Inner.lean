import Apiary.Proofs.Script.Declaring

/-!
The scopes that a piece of code opens: they are new, no function's, and lie inside the environment that the code
was given.
-/

namespace Apiary

open Act Scopes

variable {σ : Type} {s : Surroundings σ} {n : Nat} {base : Env} {p q : Moment σ}

def Surroundings.Grow (s : Surroundings σ) : Prop := ∀ f args this, Respects Grows (s.call f args this)

theorem Surroundings.Grow.expr (hs : s.Grow) (env : Env) (e : Expr) : Respects Grows (evalExpr s env e) :=
  lasting_grows.expr (fun _ _ => lasting_grows.assign fun S cell _ v _ _ _ => grows_declare S cell _ v false) hs e

theorem Moment.settled_grows (hs : s.Grow) (p : Moment σ) : p.Settled Grows s := by
  refine fun q _ hq => lasting_grows.moment hq (fun e _ => hs.expr q.env e) ?_ ?_
  · exact fun S cell name v _ _ => grows_declare S cell name v false
  · exact fun S cell name v constant _ => grows_declare S cell name v constant

theorem Moment.grows (hs : s.Grow) (p : Moment σ) : Grows p.world.scopes (p.after s).scopes :=
  (p.settled_grows hs).after lasting_grows

/-- How many scopes of its environment a fragment may put others in the place of. -/
def Fragment.replaces : Fragment → Nat
  | .forRounds fresh .. => fresh.toNat
  | _ => 0

theorem Fragment.replaces_le (code : Fragment) : code.replaces ≤ 1 := by
  unfold replaces
  split
  · exact Bool.toNat_le _
  · exact Nat.zero_le 1

/-- The environment of the round that binds an item. -/
def Fragment.itemEnv? : Fragment → Option Env
  | .bindItem _ _ _ inner => some inner
  | _ => none

/-- A scope that is new since some size and no function's. -/
structure Scopes.Opened (n : Nat) (S : Scopes) (cell : Nat) : Prop where
  le : n ≤ cell
  lt : cell < S.size
  isFunction : S.isFunction cell = false

theorem Scopes.Opened.grows {S T : Scopes} {cell : Nat} (h : Opened n S cell) (hg : Grows S T) : Opened n T cell where
  le := h.le
  lt := Nat.lt_of_lt_of_le h.lt hg.size_le
  isFunction := (hg.isFunction h.lt).trans h.isFunction

theorem Scopes.opened_push {S : Scopes} {scope : Scope} (hn : n ≤ S.size) (h : scope.ofFunction = false) :
    Opened n (S.push scope) S.size where
  le := hn
  lt := by simp
  isFunction := (isFunction_push_self S scope).trans h

/-- A copy of a scope is no function's either. -/
theorem Scopes.opened_copy {S : Scopes} {cell : Nat} (hn : n ≤ S.size) (h : S.isFunction cell = false) :
    Opened n (S.push (S[cell]?.getD ⟨[], false⟩)) S.size := by
  refine opened_push hn ?_
  simp only [isFunction] at h
  cases hc : S[cell]? with
  | none => rfl
  | some scope => simpa [hc] using h

namespace Act

variable {w w' : World σ}

theorem nextScope_ok {fresh : Bool} {env next : Env} (h : nextScope fresh env w = .ok next w') :
    (fresh = false ∧ next = env ∧ w' = w) ∨ fresh = true ∧ next = w.scopes.size :: env.tail ∧
      w'.scopes = w.scopes.push ((env.head?.bind (w.scopes[·]?)).getD ⟨[], false⟩) := by
  cases fresh with
  | false =>
    cases h
    exact .inl ⟨rfl, rfl, rfl⟩
  | true =>
    cases env with
    | nil =>
      cases h
      exact .inr ⟨rfl, rfl, rfl⟩
    | cons cell rest =>
      cases h
      exact .inr ⟨rfl, rfl, rfl⟩

end Act

namespace Surroundings.Grow

variable (hs : s.Grow)

include hs

theorem declareOne (kind : DeclKind) (name : String) (value : Option Value) (env : Env) :
    Respects Grows (Act.declareOne kind name value env : Act σ Unit) :=
  fun w => Moment.grows hs ⟨env, .declareOne kind name value, w⟩

theorem round (testsFirst : Bool) (test : Option Expr) (body : Stmt) (env : Env) :
    Respects Grows (evalRound s testsFirst test body env) :=
  fun w => Moment.grows hs ⟨env, .round testsFirst test body, w⟩

theorem step (env : Env) (update : Option Expr) : Respects Grows (evalStep s env update) := by
  cases update with
  | none => exact fun _ => lasting_grows.refl _
  | some e => exact lasting_grows.respects_bind (hs.expr env e) fun _ _ => lasting_grows.refl _

theorem forStart (env : Env) (start : ForStart) : Respects Grows (evalForStart s env start) := by
  cases start with
  | none => exact fun _ => lasting_grows.refl _
  | declare kind decls => exact fun w => Moment.grows hs ⟨env, .declarators kind decls, w⟩
  | eval e => exact lasting_grows.respects_bind (hs.expr env e) fun _ _ => lasting_grows.refl _

theorem body (cell : Nat) (env : Env) (body : FunctionBody) : Respects Grows (evalBody s (cell :: env) body) :=
  fun _ => lasting_grows.evalBody body (hs.expr _) (fun S name v => grows_declare S cell name v false)
    fun _ _ _ => Moment.settled_grows hs _

end Surroundings.Grow

/-- The code runs inside of an environment, in which it opened scopes of its own. -/
structure Moment.Inner (n : Nat) (base : Env) (p : Moment σ) : Prop where
  size : n ≤ p.world.scopes.size
  env : ∃ inner, p.env = inner ++ base ∧ p.code.replaces ≤ inner.length ∧ ∀ c ∈ inner, Opened n p.world.scopes c
  item {inner : Env} : p.code.itemEnv? = some inner → ∃ c, n ≤ c ∧ inner = c :: p.env

namespace Moment.Inner

variable {env inner : Env} {code : Fragment} {w w' w'' : World σ}

theorem same (h : Inner n base p) (hg : Grows p.world.scopes w.scopes) (hr : code.replaces ≤ p.code.replaces)
    (hi : code.itemEnv? = none) : Inner n base ⟨p.env, code, w⟩ where
  size := Nat.le_trans h.size hg.size_le
  env := by
    obtain ⟨inner, he, hlength, hinner⟩ := h.env
    exact ⟨inner, he, Nat.le_trans hr hlength, fun c hc => (hinner c hc).grows hg⟩
  item heq := by
    rw [hi] at heq
    cases heq

theorem entered (h : Inner n base p) (hg : Grows p.world.scopes w.scopes) (hw : enter false p.env w = .ok inner w')
    (hg' : Grows w'.scopes w''.scopes)
    (hi : code.itemEnv? = none) : Inner n base ⟨inner, code, w''⟩ := by
  obtain ⟨rfl, hscopes⟩ := enter_ok hw
  have hn : n ≤ w.scopes.size := Nat.le_trans h.size hg.size_le
  have hpush : Grows w.scopes w'.scopes := hscopes ▸ grows_push w.scopes _
  refine ⟨Nat.le_trans hn (hpush.trans hg').size_le, ?_, by simp [hi]⟩
  obtain ⟨inner, he, -, hinner⟩ := h.env
  refine ⟨w.scopes.size :: inner, by simp [he], ?_, fun c hc => ?_⟩
  · exact Nat.le_trans code.replaces_le (Nat.succ_le_succ (Nat.zero_le _))
  · rcases List.mem_cons.mp hc with rfl | hc
    · have hnew : Opened n w'.scopes w.scopes.size := hscopes ▸ opened_push hn rfl
      exact hnew.grows hg'
    · exact (hinner c hc).grows (hg.trans (hpush.trans hg'))

theorem next {fresh : Bool} {test update : Option Expr} {body : Stmt} {k : Nat} {next : Env}
    (h : Inner n base ⟨env, .forRounds fresh test update body k, w⟩) (hw : nextScope fresh env w = .ok next w')
    (hg : Grows w'.scopes w''.scopes)
    (hr : code.replaces ≤ (Fragment.forRounds fresh test update body k).replaces)
    (hi : code.itemEnv? = none) : Inner n base ⟨next, code, w''⟩ := by
  have hn : n ≤ w.scopes.size := h.size
  obtain ⟨inner, rfl, hlength, hinner⟩ := h.env
  obtain ⟨rfl, rfl, rfl⟩ | ⟨rfl, rfl, hscopes⟩ := nextScope_ok hw
  · refine ⟨Nat.le_trans hn hg.size_le, ⟨inner, rfl, Nat.le_trans hr (Nat.zero_le _), fun c hc => ?_⟩,
      by simp [hi]⟩
    exact (hinner c hc).grows hg
  · have hpush : Grows w.scopes w'.scopes := hscopes ▸ grows_push w.scopes _
    refine ⟨Nat.le_trans hn (hpush.trans hg).size_le, ?_, by simp [hi]⟩
    cases inner with
    | nil => exact absurd hlength (Nat.not_succ_le_zero 0)
    | cons head inner =>
      refine ⟨w.scopes.size :: inner, rfl, Nat.le_trans hr (Nat.succ_le_succ (Nat.zero_le _)), fun c hc => ?_⟩
      rcases List.mem_cons.mp hc with rfl | hc
      · refine Opened.grows ?_ hg
        rw [hscopes]
        exact opened_copy hn (hinner head List.mem_cons_self).isFunction
      · exact (hinner c (List.mem_cons_of_mem _ hc)).grows (hpush.trans hg)

theorem part (h : Inner n base p) (hs : s.Grow) (hpart : p.Part s q) : Inner n base q := by
  have hg := (p.settled_grows hs).moves lasting_grows hpart
  have hrefl (w : World σ) : Grows w.scopes w.scopes := lasting_grows.refl _
  have hcheck {w w' : World σ} (hw : checkpoint s.host w = .ok () w') : Grows w.scopes w'.scopes :=
    Respects.of_ok (lasting_grows.lift _) hw
  cases hpart with
  | effect | declare | bare | start | block | head | condition | «while» | doWhile | testFirst | bodyFirst | source
  | subject | passDefault | caseTest | laterCase | caseBody | «return» | throw | «try» | afterBare | started
  | afterStarted | tail | yes | no | oneRound | moreRounds | bodyNext | testNext | forRound | items | moreItems
  | passCase | nextCase | «catch» | «finally» | finallyCaught => exact h.same hg (Nat.zero_le _) rfl
  | opened hi => exact h.entered (hrefl _) hi (hrefl _) rfl
  | inside hi hw => exact h.entered (hrefl _) hi ((declareFunctions_grows _ _).of_ok hw) rfl
  | forDeclare hi | forEval hi => exact h.entered (hrefl _) hi (hrefl _) rfl
  | @forStarted _ _ start test update body _ _ _ _ _ hi hst hf =>
    have hfirst : Inner n base ⟨_, .forRounds start.isFresh test update body s.rounds, _⟩ :=
      h.entered (hrefl _) hi ((hs.forStart _ _).of_ok hst) rfl
    exact Inner.next hfirst hf (hrefl _) (Nat.le_refl _) rfl
  | forUpdate hw hr hn =>
    have hround := h.same ((hcheck hw).trans ((hs.round _ _ _ _).of_ok hr)) (Nat.le_refl _) rfl
    exact Inner.next hround hn (hrefl _) (Nat.zero_le _) rfl
  | forMore hw hr hn hst =>
    have hround := h.same ((hcheck hw).trans ((hs.round _ _ _ _).of_ok hr)) (Nat.le_refl _) rfl
    exact Inner.next hround hn ((hs.step _ _).of_ok hst) (Nat.le_refl _) rfl
  | bindItem hw hi =>
    have hround : Inner n base ⟨_, .stmt .empty, _⟩ := h.same hg (Nat.zero_le _) rfl
    obtain ⟨rfl, -⟩ := enter_ok hi
    refine ⟨hround.size, hround.env, fun heq => ?_⟩
    cases heq
    exact ⟨_, Nat.le_trans h.size (hcheck hw).size_le, rfl⟩
  | withItem hw hi hb =>
    exact h.entered (hcheck hw) hi (Respects.of_ok (fun w => Moment.grows hs ⟨_, .bindItem _ _ _ _, w⟩) hb) rfl
  | switchFunctions hv hi => exact h.entered ((hs.expr _ _).of_ok hv) hi (hrefl _) rfl
  | switchTests hv hi hf =>
    exact h.entered ((hs.expr _ _).of_ok hv) hi
      (Respects.of_ok (fun w => Moment.grows hs ⟨_, .caseFunctions _, w⟩) hf) rfl
  | switchCases hv hi hf hm =>
    refine h.entered ((hs.expr _ _).of_ok hv) hi ?_ rfl
    exact (Respects.of_ok (fun w => Moment.grows hs ⟨_, .caseFunctions _, w⟩) hf).trans
      (Respects.of_ok (fun w => Moment.grows hs ⟨_, .matching _ _ _, w⟩) hm)
  | parameter hv hi | handle hv hi =>
    exact h.entered (Respects.of_ok (lasting_grows.plain (.caught _ _)) hv) hi (hrefl _) rfl
  | handleNamed hv hi hw =>
    exact h.entered (Respects.of_ok (lasting_grows.plain (.caught _ _)) hv) hi
      (Respects.of_ok (fun w => grows_declare _ _ _ _ _) hw) rfl

end Moment.Inner

end Apiary
