import Apiary.Proofs.Script.Keeps
import Apiary.Proofs.Script.Record

/-!
Worlds whose functions are all well formed, and that hold a number of arrays. Well-formed code keeps them so, and
never raises the error of an assignment to what is no place. Any code at all keeps the arrays.
-/

namespace Apiary

variable {σ α β : Type} {careful : Prop} {n d : Nat}

structure World.Sound (careful : Prop) (n d : Nat) (w : World σ) : Prop where
  depth : w.depth = d
  arrays : n ≤ w.heap.arrays.size
  closures : careful → ∀ c ∈ w.closures, c.code.WellFormed

def HostAct.Sound (careful : Prop) (n : Nat) (a : HostAct σ α) : Prop :=
  ∀ s : Store σ, n ≤ s.heap.arrays.size →
    Leads (fun _ s' => n ≤ s'.heap.arrays.size)
      (fun e s' => n ≤ s'.heap.arrays.size ∧ (careful → e ≠ .badTarget)) (a s)

structure Host.Sound (host : Host σ) (careful : Prop) (n : Nat) : Prop where
  call (f : HostFunction) (args : List Value) : HostAct.Sound careful n (host.call f args)
  checkpoint : HostAct.Sound careful n (HostAct.own host.checkpoint)
  log (line : String) : HostAct.Sound careful n (HostAct.own (host.log line))

theorem Host.countdown_sound (careful : Prop) (n : Nat) : Host.countdown.Sound careful n where
  call _ _ _ h := .ok h
  checkpoint s h := by
    obtain ⟨heap, k⟩ := s
    cases k with
    | zero => exact .error ⟨h, nofun⟩
    | succ k => exact .ok h
  log _ _ h := .ok h

namespace Act

def Sound (careful : Prop) (n d : Nat) (a : Act σ α) : Prop :=
  ∀ w : World σ, w.Sound careful n d →
    Leads (fun _ w' => w'.Sound careful n d) (fun e w' => w'.Sound careful n d ∧ (careful → e ≠ .badTarget)) (a w)

namespace Sound

theorem ret (x : α) : Sound careful n d (pure x : Act σ α) := fun _ hw => .ok hw

theorem interrupt {e : Interrupt} (he : careful → e ≠ .badTarget) : Sound careful n d (throw e : Act σ α) :=
  fun _ hw => .error ⟨hw, he⟩

theorem bind {a : Act σ α} {f : α → Act σ β} (ha : Sound careful n d a) (hf : ∀ x, Sound careful n d (f x)) :
    Sound careful n d (a >>= f) :=
  fun w hw => (ha w hw).bind fun x v hv => hf x v hv

theorem plain {a : Act σ α} (h : Plain a) : Sound careful n d a := by
  induction h with
  | ret x => exact ret x
  | bind _ _ ha hf => exact ha.bind hf
  | fail hne => exact interrupt fun _ h => hne (by cases h; rfl)
  | thrown message v => exact interrupt fun _ h => by cases h
  | position hi => exact interrupt fun _ h => by cases h
  | convert hf =>
    intro w hw
    unfold Act.convert
    split
    · exact .ok hw
    · exact .error ⟨hw, fun _ h => by cases h⟩
  | apart buffer v =>
    intro w hw
    unfold Act.apart
    split
    · exact .error ⟨hw, fun _ h => by cases h⟩
    · exact .ok hw
  | alloc f hf => exact fun w hw => .ok ⟨hw.depth, hw.arrays.trans (hf _), hw.closures⟩
  | update f hf => exact fun w hw => .ok ⟨hw.depth, hw.arrays.trans (hf _), hw.closures⟩
  | look => exact fun w hw => .ok hw

theorem simple {a : Act σ α} (h : Simple a) : Sound careful n d a := by
  induction h with
  | plain h => exact plain h
  | bind _ _ ha hf => exact ha.bind hf
  | lookScopes | updateScopes | newScope => exact fun w hw => .ok ⟨hw.depth, hw.arrays, hw.closures⟩

theorem newClosure {c : Closure} (hc : careful → c.code.WellFormed) :
    Sound careful n d (Act.newClosure c : Act σ Value) := by
  refine fun w hw => .ok ⟨hw.depth, hw.arrays, fun h d hd => ?_⟩
  rcases Array.mem_push.mp hd with hd | rfl
  · exact hw.closures h d hd
  · exact hc h

theorem closure? (cell : Nat) {f : Option Closure → Act σ α}
    (hf : ∀ found, (careful → ∀ c, found = some c → c.code.WellFormed) → Sound careful n d (f found)) :
    Sound careful n d (Act.closure? cell >>= f) := by
  intro w hw
  refine hf _ (fun h c hc => ?_) w hw
  exact hw.closures h c (Array.mem_of_getElem? hc)

theorem lift {a : HostAct σ α} (ha : HostAct.Sound careful n a) : Sound careful n d (Act.lift a) := by
  intro w hw
  have hs := ha w.toStore hw.arrays
  simp only [Act.lift]
  generalize a w.toStore = r at hs ⊢
  cases hs with
  | ok h => exact .ok ⟨hw.depth, h, hw.closures⟩
  | error h => exact .error ⟨⟨hw.depth, h.1, hw.closures⟩, h.2⟩

theorem attempt {a : Act σ α} {f : Except Interrupt α → Act σ β} (ha : Sound careful n d a)
    (hf : ∀ r, GoesOn careful r → Sound careful n d (f r))
    (hover : ∀ e, isOver (.error e : Except Interrupt α) = true → f (.error e) = throw e) :
    Sound careful n d (attempt a >>= f) := by
  intro w hw
  have hr := ha w hw
  simp only [Bind.bind, EStateM.bind, Act.attempt]
  generalize a w = r at hr ⊢
  cases hr with
  | @ok x v hv => exact hf (.ok x) (.ok x) v hv
  | @error e v hv =>
    cases he : isOver (.error e : Except Interrupt α) with
    | true =>
      simp only [hover e he]
      exact .error hv
    | false =>
      cases e with
      | error message thrown => exact hf _ (.error hv.2) v hv.1
      | _ => cases he

theorem nested {a : Act σ α} (ha : Sound careful n (d + 1) a) : Sound careful n d (nested a) := by
  intro w hw
  have hr := ha { w with depth := w.depth + 1 } ⟨congrArg (· + 1) hw.depth, hw.arrays, hw.closures⟩
  simp only [Act.nested]
  generalize a { w with depth := w.depth + 1 } = r at hr ⊢
  cases hr with
  | ok hv => exact .ok ⟨Nat.sub_eq_of_eq_add hv.depth, hv.arrays, hv.closures⟩
  | error hv =>
    exact .error ⟨⟨Nat.sub_eq_of_eq_add hv.1.depth, hv.1.arrays, hv.1.closures⟩, hv.2⟩

theorem active {f : Nat → Act σ α} (hf : Sound careful n d (f d)) : Sound careful n d (active >>= f) := by
  intro w hw
  obtain rfl := hw.depth
  exact hf w hw

theorem stepwise {host : Host σ} (hh : host.Sound careful n) (rounds : Nat) :
    Stepwise careful host host rounds rounds fun d _ _ a _ => Sound careful n d a where
  le := Nat.le_refl rounds
  simple := simple
  raise := interrupt
  newClosure := newClosure
  closure? cell _ _ hf := closure? cell hf
  later _ h := h
  checkpoint h := (lift hh.checkpoint).bind fun _ => h
  exhausted _ := interrupt fun _ h => by cases h
  active := active
  nested := nested
  attempt ha hf hover := attempt ha hf fun e he => (hover e he).1
  call f args := lift (hh.call f args)
  log line := lift (hh.log line)
  random := fun _ hw => .ok ⟨hw.depth, hw.arrays, hw.closures⟩
  clock := fun _ hw => .ok hw

end Sound

end Act

end Apiary
