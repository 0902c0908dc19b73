import Apiary.Json.Basic
import Apiary.Number.Double

/-!
The settings of an engine.
-/

namespace Apiary

/-- A span of time; `nanos` is below `10 ^ 9`. -/
structure Span where
  secs : Nat
  nanos : Nat
  deriving DecidableEq, Repr

namespace Span

def nanosPerSecond : Nat := tenTo 9

def ofMillis (n : Nat) : Span := ⟨n / 1000, n % 1000 * tenTo 6⟩

/-- Nanoseconds of a second or more are carried; none when the seconds leave 64 bits. -/
def make? (secs nanos : Nat) : Option Span :=
  let secs := secs + nanos / nanosPerSecond
  if secs < twoTo 64 then some ⟨secs, nanos % nanosPerSecond⟩ else none

end Span

structure EngineSettings where
  loopPause : Span := .ofMillis 30
  /-- The seed of each run's generator; without one, each run draws its own. -/
  seed : Option UInt64 := none
  sleepSlice : Span := .ofMillis 10
  promptPoll : Span := .ofMillis 25
  deriving DecidableEq, Repr

end Apiary
