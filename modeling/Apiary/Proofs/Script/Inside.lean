import Apiary.Proofs.Script.Circular
import Apiary.Script.Run

/-!
Acts inside the world of a script: they leave the host and the number of active calls alone, do the same in
every host, and only a script error, or one of three things that code can do to itself, cuts them short.
-/

namespace Apiary

inductive Interrupt.OfScript (h : Heap) : Interrupt → Prop
  | error (message : String) (thrown : Option Value) : OfScript h (.error message thrown)
  | conversion {values : List Value} {v : Value} :
    v ∈ values → h.Circular v → OfScript h (.endless (.conversion values))
  | position {i : Nat} : ¬ Double.ofNat i < 9.0e15 → OfScript h (.endless (.position i))
  | overlap {buffer : Nat} {v : Value} :
    Act.readsBuffer h buffer h.depthBound v = true → OfScript h (.overlap buffer v)

namespace Act

variable {σ α β : Type}

theorem bind_ok {a : Act σ α} {f : α → Act σ β} {w w' : World σ} {y : β}
    (h : (a >>= f) w = .ok y w') : ∃ x v, a w = .ok x v ∧ f x v = .ok y w' := by
  simp only [bind, EStateM.bind] at h
  cases ha : a w with
  | ok x v => exact ⟨x, v, rfl, by simpa only [ha] using h⟩
  | error e v => simp [ha] at h

theorem bind_error {a : Act σ α} {f : α → Act σ β} {w w' : World σ} {e : Interrupt}
    (h : (a >>= f) w = .error e w') :
    a w = .error e w' ∨ ∃ x v, a w = .ok x v ∧ f x v = .error e w' := by
  simp only [bind, EStateM.bind] at h
  cases ha : a w with
  | ok x v => exact .inr ⟨x, v, rfl, by simpa only [ha] using h⟩
  | error e' v =>
    simp only [ha] at h
    cases h
    exact .inl rfl

/-- The outcome of an act, with its world moved to another host. -/
def moved (s : σ) : EStateM.Result Interrupt (World σ) α → EStateM.Result Interrupt (World σ) α
  | .ok x w => .ok x { w with host := s }
  | .error e w => .error e { w with host := s }

structure Inside (a : Act σ α) : Prop where
  ok {w w' : World σ} {x : α} : a w = .ok x w' → w'.host = w.host ∧ w'.depth = w.depth
  error {w w' : World σ} {e : Interrupt} :
    a w = .error e w' → w'.host = w.host ∧ w'.depth = w.depth ∧ e.OfScript w'.heap
  blind (s : σ) (w : World σ) : a { w with host := s } = moved s (a w)

namespace Inside

theorem steady {a : Act σ α}
    (ha : ∀ w, ∃ x v, a w = .ok x v ∧ v.host = w.host ∧ v.depth = w.depth)
    (hb : ∀ s w, a { w with host := s } = moved s (a w)) : Inside a where
  ok {w w' x} h := by
    obtain ⟨y, v, hv, hh, hd⟩ := ha w
    rw [hv] at h
    cases h
    exact ⟨hh, hd⟩
  error {w w' e} h := by
    obtain ⟨y, v, hv, -, -⟩ := ha w
    rw [hv] at h
    cases h
  blind := hb

theorem ret (x : α) : Inside (pure x : Act σ α) :=
  steady (fun w => ⟨x, w, rfl, rfl, rfl⟩) fun _ _ => rfl

theorem bind {a : Act σ α} {f : α → Act σ β} (ha : Inside a) (hf : ∀ x, Inside (f x)) :
    Inside (a >>= f) where
  ok h := by
    obtain ⟨x, v, hav, hfv⟩ := bind_ok h
    exact ⟨((hf x).ok hfv).1.trans (ha.ok hav).1, ((hf x).ok hfv).2.trans (ha.ok hav).2⟩
  error h := by
    rcases bind_error h with hav | ⟨x, v, hav, hfv⟩
    · exact ha.error hav
    · obtain ⟨hh, hd, he⟩ := (hf x).error hfv
      exact ⟨hh.trans (ha.ok hav).1, hd.trans (ha.ok hav).2, he⟩
  blind s w := by
    simp only [Bind.bind, EStateM.bind]
    rw [ha.blind s w]
    cases a w with
    | ok x v => exact (hf x).blind s v
    | error e v => rfl

theorem interrupt {e : Interrupt} (he : ∀ h, e.OfScript h) : Inside (throw e : Act σ α) where
  ok h := by cases h
  error h := by cases h; exact ⟨rfl, rfl, he _⟩
  blind _ _ := rfl

theorem fail (text : String) : Inside (Act.fail text : Act σ α) :=
  interrupt fun _ => .error _ _

theorem look (f : Heap → α) : Inside (Act.look f : Act σ α) :=
  steady (fun _ => ⟨_, _, rfl, rfl, rfl⟩) fun _ _ => rfl

theorem alloc (f : Heap → α × Heap) : Inside (Act.alloc f : Act σ α) :=
  steady (fun _ => ⟨_, _, rfl, rfl, rfl⟩) fun _ _ => rfl

theorem update (f : Heap → Heap) : Inside (Act.update f : Act σ Unit) :=
  steady (fun _ => ⟨_, _, rfl, rfl, rfl⟩) fun _ _ => rfl

theorem lookScopes (f : Scopes → α) : Inside (Act.lookScopes f : Act σ α) :=
  steady (fun _ => ⟨_, _, rfl, rfl, rfl⟩) fun _ _ => rfl

theorem updateScopes (f : Scopes → Scopes) : Inside (Act.updateScopes f : Act σ Unit) :=
  steady (fun _ => ⟨_, _, rfl, rfl, rfl⟩) fun _ _ => rfl

theorem newScope (f : Scopes → Scope) : Inside (Act.newScope f : Act σ Nat) :=
  steady (fun _ => ⟨_, _, rfl, rfl, rfl⟩) fun _ _ => rfl

theorem newClosure (c : Closure) : Inside (Act.newClosure c : Act σ Value) :=
  steady (fun _ => ⟨_, _, rfl, rfl, rfl⟩) fun _ _ => rfl

theorem closure? (cell : Nat) : Inside (Act.closure? cell : Act σ (Option Closure)) :=
  steady (fun _ => ⟨_, _, rfl, rfl, rfl⟩) fun _ _ => rfl

theorem convert {values : List Value} {f : Heap → Option α}
    (hf : ∀ h, f h = none → ∃ v ∈ values, h.Circular v) :
    Inside (Act.convert values f : Act σ α) where
  ok {w w' x} h := by
    unfold Act.convert at h
    split at h <;> cases h
    exact ⟨rfl, rfl⟩
  error {w w' e} h := by
    unfold Act.convert at h
    split at h <;> cases h
    next hn =>
      obtain ⟨v, hv, hc⟩ := hf _ hn
      exact ⟨rfl, rfl, .conversion hv hc⟩
  blind s w := by
    simp only [Act.convert]
    cases f w.heap <;> rfl

theorem apart (buffer : Nat) (v : Value) : Inside (Act.apart buffer v : Act σ Unit) where
  ok {w w' x} h := by
    unfold Act.apart at h
    split at h <;> cases h
    exact ⟨rfl, rfl⟩
  error {w w' e} h := by
    unfold Act.apart at h
    split at h <;> cases h
    next hr => exact ⟨rfl, rfl, .overlap hr⟩
  blind s w := by
    simp only [Act.apart]
    split <;> rfl

end Inside

end Act

end Apiary
