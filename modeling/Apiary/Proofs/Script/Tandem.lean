import Apiary.Proofs.Script.Stepwise.Code

/-!
Two runs of the same code in one host, from states of it that are alike. A host that answers both alike makes
the code do the same in both.
-/

namespace Apiary

/-- Outcomes with the same answer, or the same error, and with states that are alike. -/
inductive Paired {ε S α : Type} (P : S → S → Prop) :
    EStateM.Result ε S α → EStateM.Result ε S α → Prop
  | ok {x : α} {s s' : S} : P s s' → Paired P (.ok x s) (.ok x s')
  | error {e : ε} {s s' : S} : P s s' → Paired P (.error e s) (.error e s')

def Tandem {ε S α : Type} (P : S → S → Prop) (a b : EStateM ε S α) : Prop :=
  ∀ s s', P s s' → Paired P (a s) (b s')

namespace Tandem

variable {ε S α β : Type} {P : S → S → Prop}

theorem ret (x : α) : Tandem P (pure x : EStateM ε S α) (pure x) := fun _ _ h => .ok h

theorem interrupt (e : ε) : Tandem P (throw e : EStateM ε S α) (throw e) := fun _ _ h => .error h

theorem bind {a b : EStateM ε S α} {f g : α → EStateM ε S β} (hab : Tandem P a b)
    (hfg : ∀ x, Tandem P (f x) (g x)) : Tandem P (a >>= f) (b >>= g) := by
  intro s s' h
  have hr := hab s s' h
  simp only [Bind.bind, EStateM.bind]
  generalize a s = r, b s' = r' at hr ⊢
  cases hr with
  | ok h => exact hfg _ _ _ h
  | error h => exact .error h

end Tandem

variable {σ α β : Type}

inductive Store.Twin (H : σ → σ → Prop) : Store σ → Store σ → Prop
  | mk {heap : Heap} {s s' : σ} : H s s' → Twin H ⟨heap, s⟩ ⟨heap, s'⟩

inductive World.Twin (H : σ → σ → Prop) (d : Nat) : World σ → World σ → Prop
  | mk {heap : Heap} {closures : Array Closure} {scopes : Scopes} {s s' : σ} : H s s' →
    Twin H d ⟨⟨heap, s⟩, closures, scopes, d⟩ ⟨⟨heap, s'⟩, closures, scopes, d⟩

/-- A host whose answers in two states that are alike are the same. -/
structure Host.Even (host : Host σ) (H : σ → σ → Prop) : Prop where
  call (f : HostFunction) (args : List Value) :
    Tandem (Store.Twin H) (host.call f args) (host.call f args)
  checkpoint : Tandem H host.checkpoint host.checkpoint
  log (line : String) : Tandem H (host.log line) (host.log line)
  random {s s' : σ} : H s s' →
    (host.random s).1 = (host.random s').1 ∧ H (host.random s).2 (host.random s').2
  clock {s s' : σ} : H s s' → host.clock s = host.clock s'

theorem HostAct.own_tandem {H : σ → σ → Prop} {a b : EStateM Interrupt σ α} (hab : Tandem H a b) :
    Tandem (Store.Twin H) (HostAct.own a) (HostAct.own b) := by
  rintro _ _ ⟨hs⟩
  have hr := hab _ _ hs
  simp only [HostAct.own]
  generalize a _ = r, b _ = r' at hr ⊢
  cases hr with
  | ok hs => exact .ok (.mk hs)
  | error hs => exact .error (.mk hs)

namespace Act

variable {H : σ → σ → Prop} {host : Host σ} {d : Nat}

theorem inside_tandem {a : Act σ α} (ha : Inside a) : Tandem (World.Twin H d) a a := by
  rintro _ _ @⟨heap, closures, scopes, s, s', hs⟩
  have hblind := ha.blind s' ⟨⟨heap, s⟩, closures, scopes, d⟩
  dsimp only at hblind
  rw [hblind]
  cases hr : a ⟨⟨heap, s⟩, closures, scopes, d⟩ with
  | ok x w =>
    obtain ⟨hhost, hdepth⟩ := ha.ok hr
    obtain ⟨⟨heap', _⟩, closures', scopes', _⟩ := w
    cases hhost
    cases hdepth
    exact .ok (.mk hs)
  | error e w =>
    obtain ⟨hhost, hdepth, -⟩ := ha.error hr
    obtain ⟨⟨heap', _⟩, closures', scopes', _⟩ := w
    cases hhost
    cases hdepth
    exact .error (.mk hs)

theorem lift_tandem {a b : HostAct σ α} (hab : Tandem (Store.Twin H) a b) :
    Tandem (World.Twin H d) (lift a) (lift b) := by
  rintro _ _ @⟨heap, closures, scopes, s, s', hs⟩
  have hr := hab ⟨heap, s⟩ ⟨heap, s'⟩ (.mk hs)
  simp only [lift]
  generalize a _ = r, b _ = r' at hr ⊢
  cases hr with
  | ok hs =>
    obtain ⟨hs⟩ := hs
    exact .ok (.mk hs)
  | error hs =>
    obtain ⟨hs⟩ := hs
    exact .error (.mk hs)

theorem attempt_tandem {P : World σ → World σ → Prop} {a b : Act σ α}
    {f g : Except Interrupt α → Act σ β} (hab : Tandem P a b) (hfg : ∀ r, isOver r = false → Tandem P (f r) (g r))
    (hover : ∀ e, isOver (.error e : Except Interrupt α) = true →
      f (.error e) = throw e ∧ g (.error e) = throw e) :
    Tandem P (attempt a >>= f) (attempt b >>= g) := by
  intro w w' h
  have hr := hab w w' h
  simp only [Bind.bind, EStateM.bind, attempt]
  generalize a w = r, b w' = r' at hr ⊢
  cases hr with
  | @ok x v v' hv => exact hfg (.ok x) rfl v v' hv
  | @error e v v' hv =>
    cases he : isOver (.error e : Except Interrupt α) with
    | false => exact hfg (.error e) he v v' hv
    | true =>
      simp only [(hover e he).1, (hover e he).2]
      exact .error hv

theorem nested_tandem {a b : Act σ α} (hab : Tandem (World.Twin H (d + 1)) a b) :
    Tandem (World.Twin H d) (nested a) (nested b) := by
  rintro _ _ @⟨heap, closures, scopes, s, s', hs⟩
  have hr := hab ⟨⟨heap, s⟩, closures, scopes, d + 1⟩ ⟨⟨heap, s'⟩, closures, scopes, d + 1⟩ (.mk hs)
  simp only [nested]
  generalize a _ = r, b _ = r' at hr ⊢
  cases hr with
  | ok hs =>
    obtain ⟨hs⟩ := hs
    exact .ok (.mk hs)
  | error hs =>
    obtain ⟨hs⟩ := hs
    exact .error (.mk hs)

theorem random_tandem (hh : host.Even H) : Tandem (World.Twin H d) (random host) (random host) := by
  refine lift_tandem ?_
  rintro _ _ ⟨hs⟩
  obtain ⟨hx, hs⟩ := hh.random hs
  dsimp only
  rw [hx]
  exact .ok (.mk hs)

theorem clock_tandem (hh : host.Even H) : Tandem (World.Twin H d) (clock host) (clock host) := by
  rintro _ _ ⟨hs⟩
  simp only [clock, hh.clock hs]
  exact .ok (.mk hs)

theorem tandem_coherent (hh : host.Even H) (rounds : Nat) :
    Coherent host host rounds rounds fun d _ _ a b => Tandem (World.Twin H d) a b where
  le := Nat.le_refl rounds
  inside := inside_tandem
  later _ h := h
  checkpoint h := (lift_tandem (HostAct.own_tandem hh.checkpoint)).bind fun _ => h
  exhausted hb := by
    rw [hb rfl]
    exact .interrupt _
  active h := by
    rintro _ _ ⟨hs⟩
    exact h _ _ (.mk hs)
  nested := nested_tandem
  attempt := attempt_tandem
  call f args := lift_tandem (hh.call f args)
  log line := lift_tandem (HostAct.own_tandem (hh.log line))
  random := random_tandem hh
  clock := clock_tandem hh

end Act

theorem Host.Even.program {host : Host σ} {H : σ → σ → Prop} (hh : host.Even H) (rounds : Nat) (p : Program)
    {w w' : World σ} (hw : World.Twin H 0 w w') :
    (p.run host rounds w).1 = (p.run host rounds w').1 ∧
      World.Twin H 0 (p.run host rounds w).2 (p.run host rounds w').2 := by
  have hr := (Act.tandem_coherent hh rounds).runProgram p w w' hw
  unfold Program.run
  generalize Act.runProgram host rounds p w = r, Act.runProgram host rounds p w' = r' at hr ⊢
  cases hr with
  | ok hw => exact ⟨rfl, hw⟩
  | error hw => exact ⟨rfl, hw⟩

end Apiary
