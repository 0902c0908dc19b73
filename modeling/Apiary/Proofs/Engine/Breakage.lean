import Apiary.Proofs.Engine.Report
import Apiary.Proofs.Script.Budget

/-!
Runs that break down from within. With a client that never breaks down, a run reports an internal error only
for a method or a call that reads what it has taken apart, for a sleep beyond the clock of its host, or for a script
error of that very message.
-/

namespace Apiary

def Sink.Steady {τ : Type} (k : Sink τ) : Prop := ∀ n s, ∃ s', k.pass n s = .ok () s'

namespace Station

variable {τ : Type} {st : Station τ} {rounds : Nat} {seed : UInt64} {source : String}

end Station

theorem Interrupt.Trip.broken {τ : Type} {st : Station τ} {s : Store (Desk τ)} {e : Interrupt} (ht : Trip st s e) :
    Ending.ofInterrupt e = .broken := by
  cases ht with
  | overlap => rfl
  | call ht => cases ht <;> rfl

namespace Station

variable {τ : Type} {st : Station τ} {rounds : Nat} {seed : UInt64} {source : String}

end Station

theorem Controllers.steady {k : Controllers} (hk : ∀ e, k.breaks e = false) : k.station.sink.Steady := by
  have htake (e : RunEvent) (s : Shared (List Incident)) : ∃ s', k.take e s = .ok () s' := by
    simp only [take, hk]
    exact ⟨_, rfl⟩
  intro n s
  cases n with
  | log | plot | code | checkpoint => exact htake _ s
  | confirm p =>
    obtain ⟨s', hs'⟩ := htake (.confirmation p) s
    refine ⟨s', ?_⟩
    rw [Sink.pass_confirm]
    simp only [station, sink, Bind.bind, EStateM.bind, hs']
    rfl

def Controllers.quiet : Controllers where

/-- A network is remembered inside itself. -/
def selfStore : String :=
  "const m = GB.hive.HiveMind('m', \x7bin: 1, out: 1, hidden: 1\x7d); GB.Memory.longTermStore(m, 'k', m);"

end Apiary
