import Apiary.Proofs.Script.Stepwise.Code

/-!
What the answers of a host keep, every run in that host keeps: the state of the host changes only where it
is asked.
-/

namespace Apiary

inductive Leads {ε S α : Type} (I : α → S → Prop) (E : ε → S → Prop) :
    EStateM.Result ε S α → Prop
  | ok {x : α} {s : S} : I x s → Leads I E (.ok x s)
  | error {e : ε} {s : S} : E e s → Leads I E (.error e s)

namespace Leads

variable {ε S α β : Type} {I J : α → S → Prop} {K : β → S → Prop} {E F : ε → S → Prop}

theorem mono {r : EStateM.Result ε S α} (h : Leads I E r) (hi : ∀ x s, I x s → J x s)
    (he : ∀ e s, E e s → F e s) : Leads J F r := by
  cases h with
  | ok hs => exact .ok (hi _ _ hs)
  | error hs => exact .error (he _ _ hs)

theorem chain {a : EStateM ε S α} {f : α → EStateM ε S β} {s : S} (ha : Leads I F (a s))
    (he : ∀ e s', F e s' → E e s') (hf : ∀ x s', I x s' → Leads K E (f x s')) :
    Leads K E ((a >>= f) s) := by
  simp only [Bind.bind, EStateM.bind]
  generalize a s = r at ha ⊢
  cases ha with
  | ok hs => exact hf _ _ hs
  | error hs => exact .error (he _ _ hs)

theorem bind {a : EStateM ε S α} {f : α → EStateM ε S β} {s : S} (ha : Leads I E (a s))
    (hf : ∀ x s', I x s' → Leads K E (f x s')) : Leads K E ((a >>= f) s) :=
  ha.chain (fun _ _ h => h) hf

theorem of_ok {r : EStateM.Result ε S α} {x : α} {s : S} (h : Leads I E r) (hr : r = .ok x s) :
    I x s := by
  subst hr
  cases h
  assumption

theorem of_error {r : EStateM.Result ε S α} {e : ε} {s : S} (h : Leads I E r) (hr : r = .error e s) :
    E e s := by
  subst hr
  cases h
  assumption

end Leads

variable {σ α β : Type}

def HostAct.Keeps (I : σ → Prop) (E : Interrupt → Store σ → Prop) (a : HostAct σ α) : Prop :=
  ∀ s : Store σ, I s.host → Leads (fun _ s' => I s'.host) E (a s)

structure Host.Keeps (host : Host σ) (I : σ → Prop) (E : Interrupt → Store σ → Prop) : Prop where
  call (f : HostFunction) (args : List Value) : HostAct.Keeps I E (host.call f args)
  checkpoint : HostAct.Keeps I E (HostAct.own host.checkpoint)
  log (line : String) : HostAct.Keeps I E (HostAct.own (host.log line))
  random {s : σ} : I s → I (host.random s).2
  ofScript {e : Interrupt} {s : Store σ} : I s.host → e.OfScript s.heap → E e s
  limit {s : Store σ} : I s.host → E (.endless .limit) s
  -- A script goes on after an error that it catches.
  error {message : String} {thrown : Option Value} {s : Store σ} :
    E (.error message thrown) s → I s.host

namespace Act

def Keeps (I : σ → Prop) (E : Interrupt → Store σ → Prop) (d : Nat) (a : Act σ α) : Prop :=
  ∀ w : World σ, w.depth = d → I w.host →
    Leads (fun _ w' => w'.depth = d ∧ I w'.host) (fun e w' => w'.depth = d ∧ E e w'.toStore) (a w)

namespace Keeps

variable {I : σ → Prop} {E : Interrupt → Store σ → Prop} {host : Host σ} {d : Nat}

theorem inside (hh : host.Keeps I E) {a : Act σ α} (ha : Inside a) : Keeps I E d a := by
  intro w hd hi
  cases h : a w with
  | ok x v =>
    obtain ⟨hhost, hdepth⟩ := ha.ok h
    exact .ok ⟨hdepth.trans hd, hhost ▸ hi⟩
  | error e v =>
    obtain ⟨hhost, hdepth, he⟩ := ha.error h
    exact .error ⟨hdepth.trans hd, hh.ofScript (hhost ▸ hi) he⟩

theorem lift {a : HostAct σ α} (ha : HostAct.Keeps I E a) : Keeps I E d (Act.lift a) := by
  intro w hd hi
  have hs := ha w.toStore hi
  simp only [Act.lift]
  generalize a w.toStore = r at hs ⊢
  cases hs with
  | ok hi' => exact .ok ⟨hd, hi'⟩
  | error he => exact .error ⟨hd, he⟩

theorem random (hh : host.Keeps I E) : Keeps I E d (Act.random host) :=
  fun _ hd hi => .ok ⟨hd, hh.random hi⟩

theorem interrupt {e : Interrupt} (he : ∀ {s : Store σ}, I s.host → E e s) :
    Keeps I E d (throw e : Act σ α) :=
  fun _ hd hi => .error ⟨hd, he hi⟩

theorem bind {a : Act σ α} {f : α → Act σ β} (ha : Keeps I E d a) (hf : ∀ x, Keeps I E d (f x)) :
    Keeps I E d (a >>= f) :=
  fun w hd hi => (ha w hd hi).bind fun x v hv => hf x v hv.1 hv.2

theorem attempt (hh : host.Keeps I E) {a : Act σ α} {f : Except Interrupt α → Act σ β}
    (ha : Keeps I E d a) (hf : ∀ r, isOver r = false → Keeps I E d (f r))
    (hover : ∀ e, isOver (.error e : Except Interrupt α) = true → f (.error e) = throw e) :
    Keeps I E d (attempt a >>= f) := by
  intro w hd hi
  have hw := ha w hd hi
  simp only [Bind.bind, EStateM.bind, Act.attempt]
  generalize a w = r at hw ⊢
  cases hw with
  | @ok x v hv => exact hf (.ok x) rfl v hv.1 hv.2
  | @error e v hv =>
    cases he : isOver (.error e : Except Interrupt α) with
    | true =>
      simp only [hover e he]
      exact .error hv
    | false =>
      cases e with
      | error message thrown => exact hf _ rfl v hv.1 (hh.error hv.2)
      | _ => cases he

theorem active {f : Nat → Act σ α} (h : Keeps I E d (f d)) : Keeps I E d (active >>= f) := by
  intro w hd hi
  subst hd
  exact h w rfl hi

theorem nested {a : Act σ α} (h : Keeps I E (d + 1) a) : Keeps I E d (nested a) := by
  intro w hd hi
  have hw := h { w with depth := w.depth + 1 } (congrArg (· + 1) hd) hi
  simp only [Act.nested]
  generalize a { w with depth := w.depth + 1 } = r at hw ⊢
  cases hw with
  | ok hv => exact .ok ⟨Nat.sub_eq_of_eq_add hv.1, hv.2⟩
  | error hv => exact .error ⟨Nat.sub_eq_of_eq_add hv.1, hv.2⟩

theorem coherent (hh : host.Keeps I E) (rounds : Nat) :
    Coherent host host rounds rounds fun d _ _ a _ => Keeps I E d a where
  le := Nat.le_refl rounds
  inside := inside hh
  later _ h := h
  checkpoint h := bind (lift hh.checkpoint) fun _ => h
  exhausted _ := interrupt hh.limit
  active := active
  nested := nested
  attempt ha hf hover := attempt hh ha hf fun e he => (hover e he).1
  call f args := lift (hh.call f args)
  log line := lift (hh.log line)
  random := random hh
  clock _ hd hi := .ok ⟨hd, hi⟩

end Keeps

end Act

theorem Host.Keeps.runProgram {host : Host σ} {I : σ → Prop} {E : Interrupt → Store σ → Prop}
    (hh : host.Keeps I E) (rounds : Nat) (p : Program) :
    Act.Keeps I E 0 (Act.runProgram host rounds p) :=
  (Act.Keeps.coherent hh rounds).runProgram p

end Apiary
