import Apiary.Proofs.Script.Inner

/-!
Constants while code runs: calls and expressions leave them all as they are, and a statement changes one by
declaring its name again, in the scope that holds it, and in no other way.
-/

namespace Apiary

open Act Scopes

variable {σ : Type} {s : Surroundings σ} {p q : Moment σ}

abbrev Scopes.Steady : Scopes → Scopes → Prop := KeepsBut fun _ _ => False

def Surroundings.Steady (s : Surroundings σ) : Prop := ∀ f args this, Respects Scopes.Steady (s.call f args this)

theorem Surroundings.Steady.grow (hs : s.Steady) : s.Grow := fun f args this w => (hs f args this w).toGrows

theorem Scopes.steady_declare {S : Scopes} {cell : Nat} {name : String} {v : Value} {constant : Bool}
    (h : ∀ b, S.own cell name = some b → b.constant = false) : Scopes.Steady S (S.declare cell name v constant) :=
  keepsBut_declare fun b hb hc => absurd hc (by simp [h b hb])

theorem Surroundings.Steady.expr (hs : s.Steady) (env : Env) (e : Expr) :
    Respects Scopes.Steady (evalExpr s env e) := by
  refine (lasting_keepsBut _).expr (fun _ _ => (lasting_keepsBut _).assign fun S cell b v _ hb hc => ?_) hs e
  refine steady_declare fun b' hb' => ?_
  rw [hb] at hb'
  cases hb'
  exact hc

/-- A step changes the constants that it declares again and no others. -/
theorem Moment.step_keeps (hs : s.Steady) (hp : p.code.isStep = true) :
    KeepsBut (fun cell name => p.Declares cell name) p.world.scopes (p.after s).scopes := by
  refine (lasting_keepsBut _).moment hp (fun e _ w => ?_) (fun S cell name v hv _ => ?_) ?_
  · exact (hs.expr p.env e w).mono fun _ _ hf _ => hf.elim
  · exact (steady_declare hv).mono fun _ _ hf _ => hf.elim
  · exact fun S cell name v constant hd => keepsBut_declare fun _ _ _ => hd

theorem Moment.settled_keeps {free : Nat → String → Prop} (hs : s.Steady)
    (h : ∀ q, p.Reaches s q → ∀ cell name, q.Declares cell name → free cell name) : p.Settled (KeepsBut free) s :=
  fun q hq hstep => (q.step_keeps hs hstep).mono fun cell name hd _ => h q hq cell name hd

theorem Moment.Reaches.grows (hs : s.Grow) (h : p.Reaches s q) : Grows p.world.scopes q.world.scopes :=
  (p.settled_grows hs).reached lasting_grows h

namespace Moment.Inner

variable {n : Nat} {base : Env} {cell : Nat} {rest : Env}

theorem reaches (h : Inner n base p) (hs : s.Grow) (hr : p.Reaches s q) : Inner n base q := by
  induction hr with
  | refl => exact h
  | tail _ hpart ih => exact ih.part hs hpart

theorem start {code : Fragment} {w : World σ} (hn : n ≤ w.scopes.size) (hr : code.replaces = 0)
    (hi : code.itemEnv? = none) : Inner n base ⟨base, code, w⟩ where
  size := hn
  env := ⟨[], rfl, Nat.le_of_eq hr, fun _ hc => absurd hc List.not_mem_nil⟩
  item heq := by
    rw [hi] at heq
    cases heq

theorem functionScope (h : Inner n (cell :: rest) p) (hcell : rest = [] ∨ p.world.scopes.isFunction cell = true) :
    p.world.scopes.functionScope p.env = cell := by
  obtain ⟨inner, he, -, hinner⟩ := h.env
  rw [he]
  exact functionScope_append (fun c hc => (hinner c hc).isFunction) hcell

theorem innermost_le (h : Inner n (cell :: rest) p) (hn : cell ≤ n) : cell ≤ innermost p.env := by
  obtain ⟨inner, he, -, hinner⟩ := h.env
  rw [he]
  cases inner with
  | nil => exact Nat.le_refl cell
  | cons c inner => exact Nat.le_trans hn (hinner c List.mem_cons_self).le

/-- The code of a function declares names in its own scope and in newer ones. -/
theorem declares (h : Inner n (cell :: rest) p) (hn : cell ≤ n)
    (hcell : rest = [] ∨ p.world.scopes.isFunction cell = true) {c : Nat} {name : String}
    (hd : p.Declares c name) : cell ≤ c := by
  have hscope := Nat.le_of_eq (h.functionScope hcell).symm
  have hinner := h.innermost_le hn
  have hitem (i : Env) : p.code.itemEnv? = some i → ∃ c, n ≤ c ∧ i = c :: p.env := h.item
  obtain ⟨env, code, w⟩ := p
  cases code with
  | declareOne kind =>
    cases kind with
    | var => exact hd.2.1 ▸ hscope
    | _ => exact hd.1 ▸ hinner
  | declare => exact hd.1 ▸ hinner
  | bindItem kind _ _ inner =>
    obtain ⟨c, hc, heq⟩ := hitem _ rfl
    have heq : inner = c :: env := heq
    subst heq
    cases kind with
    | none => exact hd.elim
    | some kind =>
      cases kind with
      | var => exact hd.1 ▸ hscope
      | _ => exact hd.1 ▸ Nat.le_trans hn hc
  | functions => exact hd.1 ▸ hinner
  | caseFunctions => exact hd.1 ▸ hinner
  | _ => exact hd.elim

end Moment.Inner

section Calls

variable {host : Host σ} {call : Calling σ} {rounds : Nat} (hs : (⟨host, call, rounds⟩ : Surroundings σ).Steady)

include hs

/-- The body of a function, in the scope of a call, reaches no constant that there was before the scope. -/
theorem Act.evalBody_keeps {env : Env} {w : World σ} (body : FunctionBody) {cell : Nat}
    (hcell : cell < w.scopes.size) (hf : w.scopes.isFunction cell = true) :
    KeepsBut (fun c _ => cell ≤ c) w.scopes (final (evalBody ⟨host, call, rounds⟩ (cell :: env) body w)).scopes := by
  refine (lasting_keepsBut _).evalBody body (fun e w => ?_) (fun S name v => ?_) fun body w' hw => ?_
  · exact (hs.expr _ e w).mono fun _ _ h _ => h.elim
  · exact keepsBut_declare fun _ _ _ => Nat.le_refl cell
  · have hgrows := hw.toGrows
    have hlt := Nat.lt_of_lt_of_le hcell hgrows.size_le
    let p : Moment σ := ⟨cell :: env, .stmts body, w'⟩
    have hp : p.Inner (cell + 1) (cell :: env) := .start hlt rfl rfl
    refine Moment.settled_keeps hs fun q hq c name hd => ?_
    refine (hp.reaches hs.grow hq).declares (Nat.le_succ _) (.inr ?_) hd
    rw [(hq.grows hs.grow).isFunction hlt, hgrows.isFunction hcell, hf]

theorem Act.callClosure_steady (f : Value) (c : Closure) (args : List Value) (this : Option Value) :
    Respects Scopes.Steady (callClosure ⟨host, call, rounds⟩ f c args this) := by
  intro w
  have hrun : KeepsBut (fun c _ => w.scopes.size ≤ c) w.scopes
      (final (callClosure ⟨host, call, rounds⟩ f c args this w)).scopes := by
    refine (lasting_keepsBut _).callClosure (fun S name v => keepsBut_declare fun _ _ _ => Nat.le_refl _) fun w' hg => ?_
    exact evalBody_keeps hs c.code.body hg.opened.1 hg.opened.2
  exact hrun.mono fun cell name hle hown => by
    obtain ⟨b, hb⟩ := Option.isSome_iff_exists.mp hown
    exact absurd (lt_of_own hb) (Nat.not_lt.mpr hle)

end Calls

theorem Act.calling_steady (host : Host σ) (rounds level : Nat) :
    (⟨host, calling host rounds level, rounds⟩ : Surroundings σ).Steady := by
  induction level with
  | zero => exact fun _ _ _ w => (lasting_keepsBut _).refl _
  | succ level ih =>
    exact fun f args this w => (lasting_keepsBut _).callValue fun _ c _ _ _ => callClosure_steady ih f c args this w

end Apiary
