import Apiary.Script.Run

/-!
A host that notes everything a script asks of it, and that answers only so many checkpoints.
-/

namespace Apiary

inductive Request
  | call (f : HostFunction) (args : List Value)
  | log (line : String)
  | random
  | checkpoint

def Request.isCheckpoint : Request → Bool
  | .checkpoint => true
  | _ => false

structure Interaction where
  request : Request
  stopped : Bool

def Interrupt.isStopped : Interrupt → Bool
  | .stopped => true
  | _ => false

structure Recorded (σ : Type) where
  trace : List Interaction
  state : σ

namespace Recorded

variable {σ : Type}

def add (r : Recorded σ) (i : Interaction) (s : σ) : Recorded σ := ⟨r.trace ++ [i], s⟩

def requests (t : List Interaction) : List Request := t.map Interaction.request

def checkpoints (t : List Interaction) : Nat := (requests t).countP Request.isCheckpoint

def Ongoing (n : Nat) (t : List Interaction) : Prop :=
  (∀ i ∈ t, i.stopped = false) ∧ checkpoints t ≤ n

theorem checkpoints_add (t : List Interaction) (i : Interaction) :
    checkpoints (t ++ [i]) = checkpoints t + if i.request.isCheckpoint then 1 else 0 := by
  simp [checkpoints, requests, List.countP_append, List.countP_singleton]

theorem requests_mono {t u : List Interaction} (h : t <+: u) : requests t <+: requests u :=
  h.map _

theorem ongoing_nil (n : Nat) : Ongoing n [] :=
  ⟨fun _ hi => absurd hi List.not_mem_nil, Nat.zero_le n⟩

theorem Ongoing.add {n : Nat} {t : List Interaction} (h : Ongoing n t) {i : Interaction}
    (hi : i.stopped = false) (hn : i.request.isCheckpoint = true → checkpoints t < n) :
    Ongoing n (t ++ [i]) := by
  refine ⟨fun j hj => ?_, ?_⟩
  · rcases List.mem_append.mp hj with hj | hj
    · exact h.1 j hj
    · rw [List.mem_singleton.mp hj]
      exact hi
  · rw [checkpoints_add]
    split
    · exact hn ‹_›
    · exact h.2

theorem Ongoing.eq_of_append {n : Nat} {t before after : List Interaction} {i j : Interaction}
    (h : Ongoing n t) (hj : t ++ [i] = before ++ j :: after) (hs : j.stopped = true) :
    after = [] := by
  rcases List.eq_nil_or_concat after with rfl | ⟨front, last, rfl⟩
  · rfl
  · have hlast : before ++ j :: front.concat last = (before ++ j :: front) ++ [last] := by simp
    have heq : t = before ++ j :: front := List.append_inj_left' (hj.trans hlast) rfl
    have hjt : j ∈ t := by simp [heq]
    rw [h.1 j hjt] at hs
    cases hs

end Recorded

def Act.final {ε τ α : Type} : EStateM.Result ε τ α → τ
  | .ok _ w => w
  | .error _ w => w

def Ending.of {τ : Type} : EStateM.Result Interrupt τ Unit → Ending
  | .ok _ _ => completed
  | .error e _ => .ofInterrupt e

namespace Host

variable {σ : Type}

def budgeted (n : Nat) (host : Host σ) : Host (Recorded σ) where
  call f args := fun ⟨heap, r⟩ =>
    match host.call f args ⟨heap, r.state⟩ with
    | .ok v ⟨heap, s⟩ => .ok v ⟨heap, r.add ⟨.call f args, false⟩ s⟩
    | .error e ⟨heap, s⟩ => .error e ⟨heap, r.add ⟨.call f args, e.isStopped⟩ s⟩
  checkpoint r :=
    let s := Act.final (host.checkpoint r.state)
    if Recorded.checkpoints r.trace < n then .ok () (r.add ⟨.checkpoint, false⟩ s)
    else .error .stopped (r.add ⟨.checkpoint, true⟩ s)
  random r :=
    let (x, s) := host.random r.state
    (x, r.add ⟨.random, false⟩ s)
  clock r := host.clock r.state
  log line r :=
    match host.log line r.state with
    | .ok x s => .ok x (r.add ⟨.log line, false⟩ s)
    | .error e s => .error e (r.add ⟨.log line, e.isStopped⟩ s)

def countdown : Host Nat where
  call _ _ := pure .undefined
  checkpoint
    | 0 => .error .stopped 0
    | n + 1 => .ok () n
  random n := (Double.ofNat 0, n)
  clock _ := 0
  log _ := pure ()

end Host

def nestedLoops : Program :=
  [.while (.bool true) (.try [.while (.bool true) .empty] (some (.mk none [])) (some [.break]))]

def World.recorded {σ : Type} (w : World σ) : World (Recorded σ) :=
  ⟨⟨w.heap, ⟨[], w.host⟩⟩, w.closures, w.scopes, 0⟩

end Apiary
