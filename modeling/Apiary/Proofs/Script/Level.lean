import Apiary.Proofs.Script.Stepwise.Code
import Apiary.Proofs.Script.Record

/-!
Two runs of the same code with different calls: they do the same as far as the calls do, and leave as many calls
active as they found.
-/

namespace Apiary

/-- No code goes on after the interrupt. -/
def Interrupt.IsOver : Interrupt → Prop
  | .error .. => False
  | _ => True

theorem Interrupt.IsOver.isOver_eq {e : Interrupt} (h : e.IsOver) (α : Type) :
    Act.isOver (.error e : Except Interrupt α) = true := by
  cases e with
  | error => exact h.elim
  | _ => rfl

namespace Act

variable {σ : Type} {cut : Interrupt → Prop} {d : Nat} {α β : Type}

/-- Two acts that do the same where `d` calls are active, unless one of some interrupts cuts the first short; they leave
`d` calls active. -/
def Level (cut : Interrupt → Prop) (d : Nat) ⦃α : Type⦄ (a b : Act σ α) : Prop :=
  ∀ w, w.depth = d → (b w = a w ∨ ∃ e v, cut e ∧ a w = .error e v) ∧ (final (a w)).depth = d

namespace Level

theorem inside {a : Act σ α} (ha : Inside a) : Level cut d a a := by
  intro w hd
  refine ⟨.inl rfl, ?_⟩
  cases h : a w with
  | ok x v => exact (ha.ok h).2.trans hd
  | error e v => exact (ha.error h).2.1.trans hd

theorem interrupt (e : Interrupt) : Level cut d (throw e : Act σ α) (throw e) := fun _ hd => ⟨.inl rfl, hd⟩

theorem lift (a : HostAct σ α) : Level cut d (Act.lift a) (Act.lift a) := by
  intro w hd
  refine ⟨.inl rfl, ?_⟩
  simp only [Act.lift]
  cases a w.toStore <;> exact hd

theorem bind {a b : Act σ α} {f g : α → Act σ β} (hab : Level cut d a b) (hfg : ∀ x, Level cut d (f x) (g x)) :
    Level cut d (a >>= f) (b >>= g) := by
  intro w hd
  obtain ⟨heq | ⟨e, v, he, heq⟩, hend⟩ := hab w hd
  · simp only [Bind.bind, EStateM.bind, heq]
    generalize a w = r at hend
    cases r with
    | ok x v => exact hfg x v hend
    | error e v => exact ⟨.inl rfl, hend⟩
  · rw [heq] at hend
    simp only [Bind.bind, EStateM.bind, heq]
    exact ⟨.inr ⟨e, v, he, rfl⟩, hend⟩

theorem attempt (hcut : ∀ e, cut e → e.IsOver) {a b : Act σ α}
    {f g : Except Interrupt α → Act σ β} (hab : Level cut d a b)
    (hfg : ∀ r, isOver r = false → Level cut d (f r) (g r))
    (hover : ∀ e, isOver (.error e : Except Interrupt α) = true → f (.error e) = throw e ∧ g (.error e) = throw e) :
    Level cut d (Act.attempt a >>= f) (Act.attempt b >>= g) := by
  intro w hd
  obtain ⟨heq | ⟨e, v, he, heq⟩, hend⟩ := hab w hd
  · simp only [Bind.bind, EStateM.bind, Act.attempt, heq]
    generalize a w = r at hend
    cases r with
    | ok x v => exact hfg (.ok x) rfl v hend
    | error e v =>
      cases he : isOver (.error e : Except Interrupt α) with
      | false => exact hfg (.error e) he v hend
      | true =>
        simp only [(hover e he).1, (hover e he).2]
        exact ⟨.inl trivial, hend⟩
  · rw [heq] at hend
    have hfe : f (.error e) = throw e := (hover e ((hcut e he).isOver_eq α)).1
    simp only [Bind.bind, EStateM.bind, Act.attempt, heq, hfe]
    exact ⟨.inr ⟨e, v, he, rfl⟩, hend⟩

theorem active {f g : Nat → Act σ α} (h : Level cut d (f d) (g d)) :
    Level cut d (Act.active >>= f) (Act.active >>= g) := by
  rintro w rfl
  exact h w rfl

theorem nested {a b : Act σ α} (h : Level cut (d + 1) a b) : Level cut d (Act.nested a) (Act.nested b) := by
  intro w hd
  obtain ⟨heq | ⟨e, v, he, heq⟩, hend⟩ := h { w with depth := w.depth + 1 } (congrArg (· + 1) hd)
  · simp only [Act.nested, heq]
    generalize a { w with depth := w.depth + 1 } = r at hend
    cases r <;> exact ⟨.inl trivial, Nat.sub_eq_of_eq_add hend⟩
  · rw [heq] at hend
    simp only [Act.nested, heq]
    exact ⟨.inr ⟨e, _, he, rfl⟩, Nat.sub_eq_of_eq_add hend⟩

/-- What cuts an act short is nothing that code goes on from. -/
theorem stepwise (hcut : ∀ e, cut e → e.IsOver) (host : Host σ) (rounds : Nat) :
    Stepwise False host host rounds rounds fun d _ => Level cut d :=
  Coherent.stepwise {
    le := Nat.le_refl rounds
    inside := inside
    later := fun _ h => h
    checkpoint := fun h => bind (lift _) fun _ => h
    exhausted := fun h => by
      rw [h rfl]
      exact interrupt _
    active := active
    nested := nested
    attempt := attempt hcut
    call := fun _ _ => lift _
    log := fun _ => lift _
    random := lift _
    clock := fun _ hd => ⟨.inl rfl, hd⟩ }

/-- Calls in one level more than there are calls in both, and so on for as many levels as there are. -/
theorem calling (hcut : ∀ e, cut e → e.IsOver) (host : Host σ) (rounds level d : Nat) :
    SameCalls (Level cut d) (Act.calling host rounds level) (Act.calling host rounds level) := by
  induction level generalizing d with
  | zero => exact fun _ _ _ => interrupt _
  | succ level ih => exact (stepwise hcut host rounds).callValue fun _ => ih (d + 1)

end Level

end Act

end Apiary
