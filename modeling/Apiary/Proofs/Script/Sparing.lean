import Apiary.Proofs.Script.Level
import Apiary.Proofs.Script.Steady

/-!
A scope stays as it is while nothing runs that sees it. Calls of functions that see the scope are the only way to
change it from elsewhere, so it does not change when such calls are cut short before anything of them runs.
-/

namespace Apiary

open Act Scopes

variable {σ : Type} {s : Surroundings σ} {p q : Moment σ} {cell : Nat}

def Surroundings.Spare (s : Surroundings σ) (cell : Nat) : Prop :=
  ∀ f args this, Respects (Spares cell) (s.call f args this)

theorem Surroundings.Spare.expr (hs : s.Spare cell) {env : Env} (hcell : cell ∉ env) (e : Expr) :
    Respects (Spares cell) (evalExpr s env e) := by
  refine (lasting_spares cell).expr (fun _ _ => (lasting_spares cell).assign fun S c b v hc _ _ => ?_) hs e
  exact spares_declare (ne_of_mem_of_not_mem hc hcell)

namespace Moment

theorem Declares.mem {c : Nat} {name : String} (h : p.Declares c name) (henv : p.env ≠ []) :
    c ∈ p.env ∨ ∃ inner, p.code.itemEnv? = some inner ∧ c = innermost inner := by
  obtain ⟨env, code, w⟩ := p
  cases code with
  | declareOne kind =>
    cases kind with
    | var => exact .inl (h.2.1 ▸ functionScope_mem _ henv)
    | _ => exact .inl (h.1 ▸ innermost_mem henv)
  | declare => exact .inl (h.1 ▸ innermost_mem henv)
  | bindItem kind =>
    cases kind with
    | none => exact h.elim
    | some kind =>
      cases kind with
      | var => exact .inl (h.1 ▸ functionScope_mem _ henv)
      | _ => exact .inr ⟨_, rfl, h.1⟩
  | functions => exact .inl (h.1 ▸ innermost_mem henv)
  | caseFunctions => exact .inl (h.1 ▸ innermost_mem henv)
  | _ => exact h.elim

namespace Inner

variable {n : Nat} {base : Env}

theorem not_mem (h : p.Inner n base) (hcell : cell < n) (hbase : cell ∉ base) : cell ∉ p.env := by
  obtain ⟨inner, he, -, hinner⟩ := h.env
  rw [he]
  rintro hmem
  rcases List.mem_append.mp hmem with hmem | hmem
  · exact Nat.not_lt.mpr (hinner cell hmem).le hcell
  · exact hbase hmem

/-- Code spares a scope that it does not see from the outset. -/
theorem settled_spares (h : p.Inner n base) (hcell : cell < n) (hbase : cell ∉ base) (hne : base ≠ []) (hs : s.Grow)
    (hcall : s.Spare cell) : p.Settled (Spares cell) s := by
  intro q hq hstep
  have hinner := h.reaches hs hq
  have hnot := hinner.not_mem hcell hbase
  have henv : q.env ≠ [] := by
    obtain ⟨inner, he, -⟩ := hinner.env
    simp [he, hne]
  refine (lasting_spares cell).moment hstep (fun e _ => hcall.expr hnot e) (fun S c name v _ hmem => ?_)
    fun S c name v constant hd => spares_declare ?_
  · exact spares_declare (ne_of_mem_of_not_mem (hmem henv) hnot)
  · rcases hd.mem henv with hmem | ⟨item, hitem, rfl⟩
    · exact ne_of_mem_of_not_mem hmem hnot
    · obtain ⟨c, hc, rfl⟩ := hinner.item hitem
      exact Nat.ne_of_gt (Nat.lt_of_lt_of_le hcell hc)

end Inner

end Moment

namespace Act

/-- Whether a value is a function of the script that sees a scope. -/
def sees (cell : Nat) (w : World σ) : Value → Bool
  | .function c _ => (w.closures[c]?).any fun closure => closure.env.contains cell
  | _ => false

/-- Calls that an interrupt cuts short when they are of functions that see a scope. -/
def spare (cell : Nat) (cut : Interrupt) (call : Calling σ) : Calling σ := fun f args this w =>
  if sees cell w f then .error cut w else call f args this w

/-- The calls of scripts, cut short wherever a function is called that sees a scope. -/
def sparing (host : Host σ) (rounds cell : Nat) (cut : Interrupt) : Nat → Calling σ
  | 0 => calling host rounds 0
  | level + 1 => spare cell cut (callValue ⟨host, sparing host rounds cell cut level, rounds⟩)

variable {host : Host σ} {rounds : Nat}

theorem sparing_steady (host : Host σ) (rounds cell : Nat) (cut : Interrupt) (level : Nat) :
    (⟨host, sparing host rounds cell cut level, rounds⟩ : Surroundings σ).Steady := by
  induction level with
  | zero => exact calling_steady host rounds 0
  | succ level ih =>
    intro f args this w
    simp only [sparing, spare]
    split
    · exact (lasting_keepsBut _).refl _
    · exact (lasting_keepsBut _).callValue fun _ c _ _ _ => callClosure_steady ih f c args this w

theorem callClosure_spares {call : Calling σ} {c : Closure} {w : World σ}
    (hs : (⟨host, call, rounds⟩ : Surroundings σ).Grow) (hcall : (⟨host, call, rounds⟩ : Surroundings σ).Spare cell)
    (hcell : cell < w.scopes.size) (hnot : cell ∉ c.env) (f : Value) (args : List Value) (this : Option Value) :
    Spares cell w.scopes (final (callClosure ⟨host, call, rounds⟩ f c args this w)).scopes := by
  have hnew : w.scopes.size ≠ cell := Nat.ne_of_gt hcell
  have henv : cell ∉ w.scopes.size :: c.env := by simp [hnew.symm, hnot]
  refine (lasting_spares cell).callClosure (fun S name v => spares_declare hnew) fun w' hg => ?_
  refine (lasting_spares cell).evalBody c.code.body (hcall.expr henv) (fun S name v => spares_declare hnew) ?_
  intro body w'' hw
  have hle : w.scopes.size ≤ w''.scopes.size := Nat.le_trans (Nat.le_of_lt hg.opened.1) hw.size_le
  have hp : Moment.Inner w.scopes.size (w.scopes.size :: c.env) (⟨_, .stmts body, w''⟩ : Moment σ) := .start hle rfl rfl
  exact hp.settled_spares hcell henv (List.cons_ne_nil _ _) hs hcall

theorem sparing_spares (host : Host σ) (rounds cell : Nat) (cut : Interrupt) (level : Nat) :
    (⟨host, sparing host rounds cell cut level, rounds⟩ : Surroundings σ).Spare cell := by
  induction level with
  | zero => exact fun _ _ _ w => (lasting_spares cell).refl _
  | succ level ih =>
    intro f args this w
    simp only [sparing, spare]
    split
    · exact (lasting_spares cell).refl _
    next hsees =>
    -- Only functions are left whose environments do not have the scope, so their own new scopes are other ones.
    refine (lasting_spares cell).callValue fun i c code hf hc => ?_
    have hgrow := (sparing_steady host rounds cell cut level).grow
    by_cases hcell : cell < w.scopes.size
    · refine callClosure_spares hgrow ih hcell (fun hmem => hsees ?_) f args this
      simpa [hf, sees, hc] using hmem
    · -- The scope is yet to be opened.
      refine ⟨(callClosure_steady (sparing_steady host rounds cell cut level) f c args this w).toGrows, ?_⟩
      exact fun h => absurd h hcell

/-- Code does the same with calls that spare a scope, unless one of them is cut short. -/
theorem sparing_level {cut : Interrupt} (hcut : cut.IsOver) (host : Host σ) (rounds cell level d : Nat) :
    SameCalls (Level (· = cut) d) (sparing host rounds cell cut level) (calling host rounds level) := by
  have hover : ∀ e, e = cut → e.IsOver := fun _ he => he ▸ hcut
  induction level generalizing d with
  | zero => exact fun _ _ _ => Level.interrupt _
  | succ level ih =>
    intro f args this w hd
    simp only [sparing, spare]
    split
    · exact ⟨.inr ⟨cut, w, rfl, rfl⟩, hd⟩
    · exact (Level.stepwise hover host rounds).callValue (fun _ => ih (d + 1)) f args this w hd

end Act

end Apiary
