import Apiary.Proofs.Script.Stepwise.Code
import Apiary.Proofs.Script.Record

/-!
A host that stops ends every run. The bound on the rounds of a loop plays no part then: a round costs a
checkpoint, and a run has fewer of them than a loop has rounds.
-/

namespace Apiary

variable {σ α : Type}

inductive Host.Reaches (host : Host σ) (start : σ) : Nat → σ → Prop
  | start : Reaches host start 0 start
  | call {k : Nat} {s : σ} (f : HostFunction) (args : List Value) (heap : Heap) :
    Reaches host start k s → Reaches host start k (Act.final (host.call f args ⟨heap, s⟩)).host
  | log {k : Nat} {s : σ} (line : String) :
    Reaches host start k s → Reaches host start k (Act.final (host.log line s))
  | random {k : Nat} {s : σ} : Reaches host start k s → Reaches host start k (host.random s).2
  | checkpoint {k : Nat} {s : σ} :
    Reaches host start k s → Reaches host start (k + 1) (Act.final (host.checkpoint s))

structure Host.StopsAfter (host : Host σ) (start : σ) (n : Nat) : Prop where
  stops {k : Nat} {s : σ} : host.Reaches start k s → n ≤ k →
    ∃ s', host.checkpoint s = .error .stopped s'
  checkpoint {k : Nat} {s s' : σ} {e : Interrupt} : host.Reaches start k s →
    host.checkpoint s = .error e s' → e = .stopped ∨ ∃ message thrown, e = .error message thrown
  log {k : Nat} {s s' : σ} {line : String} {e : Interrupt} : host.Reaches start k s →
    host.log line s = .error e s' → e = .stopped ∨ ∃ message thrown, e = .error message thrown
  call {k : Nat} {s : σ} {f : HostFunction} {args : List Value} {heap : Heap} {e : Interrupt}
    {store : Store σ} : host.Reaches start k s → host.call f args ⟨heap, s⟩ = .error e store →
    e = .stopped ∨ e.OfScript store.heap

namespace Act

structure Alive (host : Host σ) (start : σ) (n d j : Nat) (w : World σ) : Prop where
  depth : w.depth = d
  reaches : ∃ i, host.Reaches start i w.host ∧ j ≤ i ∧ i ≤ n

inductive Halts (host : Host σ) (start : σ) (n d j : Nat) :
    EStateM.Result Interrupt (World σ) α → Prop
  | ok {x : α} {w : World σ} : Alive host start n d j w → Halts host start n d j (.ok x w)
  | error {e : Interrupt} {w : World σ} : Alive host start n d j w → e.OfScript w.heap →
    Halts host start n d j (.error e w)
  | stopped {w : World σ} : w.depth = d → Halts host start n d j (.error .stopped w)

def Settled (host : Host σ) (start : σ) (n d k : Nat) ⦃α : Type⦄ (a b : Act σ α) : Prop :=
  ∀ w j, k ≤ j → Alive host start n d j w → b w = a w ∧ Halts host start n d j (a w)

variable {host : Host σ} {start : σ} {n d j k : Nat}

theorem Alive.earlier {i : Nat} {w : World σ} (h : Alive host start n d j w) (hij : i ≤ j) :
    Alive host start n d i w := by
  obtain ⟨hd, m, hr, hj, hn⟩ := h
  exact ⟨hd, m, hr, hij.trans hj, hn⟩

theorem Alive.of_eq {w v : World σ} (h : Alive host start n d j w) (hh : v.host = w.host)
    (hd : v.depth = w.depth) : Alive host start n d j v :=
  ⟨hd.trans h.depth, by rw [hh]; exact h.reaches⟩

theorem Halts.earlier {i : Nat} {r : EStateM.Result Interrupt (World σ) α}
    (h : Halts host start n d j r) (hij : i ≤ j) : Halts host start n d i r := by
  cases h with
  | ok hw => exact .ok (hw.earlier hij)
  | error hw he => exact .error (hw.earlier hij) he
  | stopped hd => exact .stopped hd

namespace Settled

theorem inside {a : Act σ α} (ha : Inside a) : Settled host start n d k a a := by
  intro w j _ hw
  refine ⟨rfl, ?_⟩
  cases h : a w with
  | ok x v => exact .ok (hw.of_eq (ha.ok h).1 (ha.ok h).2)
  | error e v =>
    obtain ⟨hh, hd, he⟩ := ha.error h
    exact .error (hw.of_eq hh hd) he

theorem attempt {β : Type} {a b : Act σ α} {f g : Except Interrupt α → Act σ β}
    (hab : Settled host start n d k a b)
    (hfg : ∀ r, isOver r = false → Settled host start n d k (f r) (g r))
    (hover : ∀ e, isOver (.error e : Except Interrupt α) = true →
      f (.error e) = throw e ∧ g (.error e) = throw e) :
    Settled host start n d k (attempt a >>= f) (attempt b >>= g) := by
  intro w j hj hw
  obtain ⟨heq, hhalts⟩ := hab w j hj hw
  simp only [Bind.bind, EStateM.bind, Act.attempt, heq]
  generalize a w = r at hhalts ⊢
  cases hhalts with
  | @ok x v hv => exact hfg (.ok x) rfl v j hj hv
  | @error e v hv he =>
    cases hr : isOver (.error e : Except Interrupt α) with
    | false => exact hfg (.error e) hr v j hj hv
    | true =>
      simp only [(hover e hr).1, (hover e hr).2]
      exact ⟨trivial, .error hv he⟩
  | stopped hd =>
    simp only [(hover .stopped rfl).1, (hover .stopped rfl).2]
    exact ⟨trivial, .stopped hd⟩

theorem active {f g : Nat → Act σ α} (h : Settled host start n d k (f d) (g d)) :
    Settled host start n d k (active >>= f) (active >>= g) := by
  intro w j hj hw
  obtain rfl := hw.depth
  exact h w j hj hw

theorem nested {a b : Act σ α} (h : Settled host start n (d + 1) k a b) :
    Settled host start n d k (nested a) (nested b) := by
  intro w j hj hw
  obtain ⟨heq, hhalts⟩ := h { w with depth := w.depth + 1 } j hj
    ⟨congrArg (· + 1) hw.depth, hw.reaches⟩
  simp only [Act.nested, heq]
  generalize a { w with depth := w.depth + 1 } = r at hhalts ⊢
  cases hhalts with
  | ok hv => exact ⟨trivial, .ok ⟨Nat.sub_eq_of_eq_add hv.depth, hv.reaches⟩⟩
  | error hv he => exact ⟨trivial, .error ⟨Nat.sub_eq_of_eq_add hv.depth, hv.reaches⟩ he⟩
  | stopped hd => exact ⟨trivial, .stopped (Nat.sub_eq_of_eq_add hd)⟩

theorem call (hs : host.StopsAfter start n) (f : HostFunction) (args : List Value) :
    Settled host start n d k (lift (host.call f args)) (lift (host.call f args)) := by
  intro w j _ hw
  obtain ⟨i, hi, hji, hin⟩ := hw.reaches
  have hnext := hi.call f args w.heap
  simp only [lift]
  cases h : host.call f args ⟨w.heap, w.host⟩ with
  | ok v s =>
    rw [h] at hnext
    exact ⟨trivial, .ok ⟨hw.depth, i, hnext, hji, hin⟩⟩
  | error e s =>
    rw [h] at hnext
    rcases hs.call hi h with rfl | he
    · exact ⟨trivial, .stopped hw.depth⟩
    · exact ⟨trivial, .error ⟨hw.depth, i, hnext, hji, hin⟩ he⟩

theorem log (hs : host.StopsAfter start n) (line : String) :
    Settled host start n d k (log host line) (log host line) := by
  intro w j _ hw
  obtain ⟨i, hi, hji, hin⟩ := hw.reaches
  have hnext := hi.log line
  simp only [Act.log, lift, HostAct.own]
  cases h : host.log line w.host with
  | ok x s =>
    rw [h] at hnext
    exact ⟨trivial, .ok ⟨hw.depth, i, hnext, hji, hin⟩⟩
  | error e s =>
    rw [h] at hnext
    rcases hs.log hi h with rfl | ⟨message, thrown, rfl⟩
    · exact ⟨trivial, .stopped hw.depth⟩
    · exact ⟨trivial, .error ⟨hw.depth, i, hnext, hji, hin⟩ (.error message thrown)⟩

theorem random : Settled host start n d k (random host) (random host) := by
  intro w j _ hw
  obtain ⟨i, hi, hji, hin⟩ := hw.reaches
  exact ⟨rfl, .ok ⟨hw.depth, i, hi.random, hji, hin⟩⟩

theorem clock : Settled host start n d k (clock host) (clock host) :=
  fun _ _ _ hw => ⟨rfl, .ok hw⟩

theorem checkpoint (hs : host.StopsAfter start n) {a b : Act σ α}
    (h : Settled host start n d (k + 1) a b) :
    Settled host start n d k (do checkpoint host; a) (do checkpoint host; b) := by
  intro w j hj hw
  obtain ⟨i, hi, hji, hin⟩ := hw.reaches
  have hnext := hi.checkpoint
  simp only [Bind.bind, EStateM.bind, Act.checkpoint, lift, HostAct.own]
  by_cases hlt : i < n
  · cases hc : host.checkpoint w.host with
    | ok x s =>
      rw [hc] at hnext
      obtain ⟨heq, hhalts⟩ := h { w with host := s } (j + 1) (by omega)
        ⟨hw.depth, i + 1, hnext, by omega, hlt⟩
      exact ⟨heq, hhalts.earlier (Nat.le_succ j)⟩
    | error e s =>
      rw [hc] at hnext
      rcases hs.checkpoint hi hc with rfl | ⟨message, thrown, rfl⟩
      · exact ⟨rfl, .stopped hw.depth⟩
      · exact ⟨rfl, .error ⟨hw.depth, i + 1, hnext, by omega, hlt⟩ (.error message thrown)⟩
  · obtain ⟨s, hc⟩ := hs.stops hi (by omega)
    rw [hc]
    exact ⟨rfl, .stopped hw.depth⟩

theorem exhausted {rounds : Nat} (hn : n < rounds) {b : Act σ α} :
    Settled host start n d rounds (throw (.endless .limit)) b := by
  intro w j hj hw
  obtain ⟨i, -, hji, hin⟩ := hw.reaches
  omega

theorem coherent (hs : host.StopsAfter start n) {rounds rounds' : Nat} (hn : n < rounds)
    (hle : rounds ≤ rounds') : Coherent host host rounds rounds' (Settled host start n) where
  le := hle
  inside := inside
  later hk h := fun w j hj hw => h w j (hk.trans hj) hw
  checkpoint := checkpoint hs
  exhausted _ := exhausted hn
  active := active
  nested := nested
  attempt := attempt
  call := call hs
  log := log hs
  random := random
  clock := clock

end Settled

end Act

theorem Program.run_ends (p : Program) {host : Host σ} {w : World σ} {n rounds : Nat}
    (hw : w.depth = 0) (hs : host.StopsAfter w.host n) (hn : n < rounds) :
    p.run host rounds w = p.run host (n + 1) w ∧
    ((p.run host rounds w).1 = .completed ∨ (p.run host rounds w).1 = .stopped ∨
      (∃ message thrown, (p.run host rounds w).1 = .failed message thrown) ∨
      (∃ values v w', Act.runProgram host rounds p w = .error (.endless (.conversion values)) w' ∧
        v ∈ values ∧ w'.heap.Circular v) ∨
      (∃ i w', Act.runProgram host rounds p w = .error (.endless (.position i)) w' ∧
        ¬ Double.ofNat i < 9.0e15) ∨
      ∃ buffer v w', Act.runProgram host rounds p w = .error (.overlap buffer v) w' ∧
        Act.readsBuffer w'.heap buffer w'.heap.depthBound v = true) := by
  have halive : Act.Alive host w.host n 0 0 w := ⟨hw, 0, .start, Nat.le_refl 0, Nat.zero_le n⟩
  obtain ⟨heq, hhalts⟩ :=
    (Act.Settled.coherent hs (Nat.lt_succ_self n) hn).runProgram p w 0 (Nat.le_refl 0) halive
  unfold Program.run
  rw [heq]
  refine ⟨rfl, ?_⟩
  generalize Act.runProgram host (n + 1) p w = r at hhalts ⊢
  cases hhalts with
  | ok _ => exact .inl rfl
  | stopped _ => exact .inr (.inl rfl)
  | @error e v _ he =>
    cases he with
    | error message thrown => exact .inr (.inr (.inl ⟨message, thrown, rfl⟩))
    | conversion hmem hc => exact .inr (.inr (.inr (.inl ⟨_, _, v, rfl, hmem, hc⟩)))
    | position hi => exact .inr (.inr (.inr (.inr (.inl ⟨_, v, rfl, hi⟩))))
    | overlap hb => exact .inr (.inr (.inr (.inr (.inr ⟨_, _, v, rfl, hb⟩))))

theorem Host.countdown_reaches {n k s : Nat} (h : countdown.Reaches n k s) : s = n - k := by
  induction h with
  | start => rfl
  | call _ _ _ _ ih | log _ _ ih | random _ ih => exact ih
  | @checkpoint k s _ ih =>
    cases s with
    | zero => exact (by omega : 0 = n - (k + 1))
    | succ s => exact (by omega : s = n - (k + 1))

theorem Host.countdown_stops (n : Nat) : countdown.StopsAfter n n where
  stops hr hn := by
    obtain rfl := (countdown_reaches hr).trans (Nat.sub_eq_zero_of_le hn)
    exact ⟨0, rfl⟩
  checkpoint {k s s' e} _ h := by
    cases s with
    | zero => cases h; exact .inl rfl
    | succ s => cases h
  log _ h := by cases h
  call _ h := by cases h

theorem nestedLoops_ends :
    nestedLoops.run .countdown 9 ⟨⟨{}, 2⟩, #[], #[], 0⟩ =
      nestedLoops.run .countdown 3 ⟨⟨{}, 2⟩, #[], #[], 0⟩ :=
  (nestedLoops.run_ends rfl (Host.countdown_stops 2) (by decide)).1

def pushIntoItself : Program := [.expr (.call (.member (.name "f") "push" false) [.name "f"])]

theorem pushIntoItself_breaks :
    Host.countdown.StopsAfter 0 0 ∧
    (pushIntoItself.run .countdown 1 ⟨⟨{ buffers := #[#[]] }, 0⟩, #[],
      #[⟨[("f", ⟨.floats (.own 0), true⟩)], true⟩], 0⟩).1 = .broken :=
  ⟨Host.countdown_stops 0, rfl⟩

end Apiary
