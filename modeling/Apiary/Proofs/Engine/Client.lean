import Apiary.Proofs.Engine.Report
import Mathlib.Logic.Relation

/-!
The strides of a run: its steps at the desk, the one that a client breaks down over, and the last lines of a
run that broke down. What a client keeps whatever it is told, it keeps over a whole run.
-/

namespace Apiary

variable {τ α β : Type}

namespace Desk

inductive Stride (st : Station τ) (d : Desk τ) : Desk τ → Prop
  | step {read : List Signal} {d' : Desk τ} : Step st d read d' → Stride st d d'
  | broken {n : Notice} {c : RunContext Nat} {s : Shared τ} :
    st.Says d n c → st.sink.pass n d.shared = .error () s → Stride st d ⟨c, s⟩
  | closing {entry : LogEntry} {s : Shared τ} :
    st.sink.pass (.log entry) d.shared = .ok () s → Stride st d ⟨d.context, s⟩

def Strides (st : Station τ) : Desk τ → Desk τ → Prop := Relation.ReflTransGen (Stride st)

/-- A relation that a worker keeps to in whatever it does, up to what its client breaks down over. -/
structure Covers (st : Station τ) (R : Desk τ → Desk τ → Prop) : Prop where
  refl {d : Desk τ} : R d d
  trans {d d' d'' : Desk τ} : R d d' → R d' d'' → R d d''
  step {d d' : Desk τ} {read : List Signal} : Step st d read d' → R d d'
  broken {d : Desk τ} {n : Notice} {c : RunContext Nat} {s : Shared τ} :
    st.Says d n c → st.sink.pass n d.shared = .error () s → R d ⟨c, s⟩

theorem covers_strides (st : Station τ) : Covers st (Strides st) where
  refl := .refl
  trans h h' := h.trans h'
  step hs := .single (.step hs)
  broken hn hpass := .single (.broken hn hpass)

/-- Whether it ends well or not, an act leaves what it is related to. -/
def Leaves (R : Desk τ → Desk τ → Prop) (d : Desk τ) : EStateM.Result Interrupt (Desk τ) α → Prop :=
  Leads (fun _ d' => R d d') fun _ d' => ∃ c, R d ⟨c, d'.shared⟩

namespace Covers

variable {st : Station τ} {R : Desk τ → Desk τ → Prop} {d d' : Desk τ} (hR : Covers st R)

include hR

theorem reaches (h : Reaches st d d') : R d d' := by
  obtain ⟨read, hp⟩ := h
  induction hp with
  | refl => exact hR.refl
  | tail _ hs ih => exact hR.trans ih (hR.step hs)

theorem breaks {s : Shared τ} (h : Breaks st d s) : ∃ c, R d ⟨c, s⟩ := by
  obtain ⟨n, c, hn, hpass⟩ := h
  exact ⟨c, hR.broken hn hpass⟩

theorem after (hd : R d d') {r : EStateM.Result Interrupt (Desk τ) α} (h : Leaves R d' r) : Leaves R d r := by
  refine h.mono (fun _ _ hs => hR.trans hd hs) ?_
  rintro _ _ ⟨c, hs⟩
  exact ⟨c, hR.trans hd hs⟩

theorem bind {a : EStateM Interrupt (Desk τ) α} {f : α → EStateM Interrupt (Desk τ) β}
    (ha : Leaves R d (a d)) (hf : ∀ x d', Leaves R d' (f x d')) : Leaves R d ((a >>= f) d) :=
  Leads.bind ha fun x d' hd => hR.after hd (hf x d')

theorem interpret (rounds : Nat) (p : Program) (d : Desk τ) :
    ∃ c, R d ⟨c, (st.interpret rounds p d).2.shared⟩ ∧
      ((st.interpret rounds p d).1 ≠ .broken → c = (st.interpret rounds p d).2.context) := by
  have hpath := st.interpret_path rounds p d
  unfold Station.interpret Program.run
  generalize Act.runProgram st.host rounds p (World.startWithHost d) = r at hpath ⊢
  cases hpath with
  | ok hw => exact ⟨_, hR.reaches hw, fun _ => rfl⟩
  | error he =>
    cases he with
    | plain _ hw | trip _ hw => exact ⟨_, hR.reaches hw, fun _ => rfl⟩
    | broken hw hb =>
      obtain ⟨c, hs⟩ := hR.breaks hb
      exact ⟨c, hR.trans (hR.reaches hw) hs, fun hne => absurd rfl hne⟩

theorem logLine (kind : LogKind) (message : String) (d : Desk τ) :
    Leaves R d (st.logLine kind message d) :=
  (st.logLine_path kind message d).mono (fun _ _ hd => hR.reaches hd) fun _ _ he => hR.breaks he.2

theorem logLines (lines : List (LogKind × String)) (d : Desk τ) : Leaves R d (st.logLines lines d) := by
  induction lines generalizing d with
  | nil => exact .ok hR.refl
  | cons line rest ih => exact hR.bind (hR.logLine line.1 line.2 d) fun _ d' => ih d'

theorem verdict (ending : Ending) (d : Desk τ) : Leaves R d (st.verdict ending d) := by
  cases ending with
  | completed => exact .ok (hR.step .meanwhile)
  | stopped | failed => exact .ok hR.refl
  | broken | endless => exact .error ⟨_, hR.refl⟩

theorem close (ending : Ending) (d : Desk τ) : Leaves R d (st.close ending d) := by
  rw [Station.close_eq]
  exact hR.bind (hR.verdict ending d) fun o d₁ =>
    hR.bind (hR.logLines (closingLines o) d₁) fun _ _ => .ok hR.refl

theorem execute (rounds : Nat) (source : String) (d : Desk τ) :
    Leaves R d (st.execute rounds source d) := by
  cases hp : parse source with
  | error e =>
    rw [Station.execute_of_error st rounds hp]
    exact hR.bind (hR.logLine .error _ d) fun _ _ => .ok hR.refl
  | ok p =>
    rw [Station.execute_eq st rounds hp]
    obtain ⟨c, hs, hc⟩ := hR.interpret rounds p d
    generalize st.interpret rounds p d = result at hs hc ⊢
    obtain ⟨ending, d₁⟩ := result
    by_cases hb : ending = .broken
    · rw [hb]
      exact .error ⟨c, hs⟩
    · obtain rfl := hc hb
      exact hR.after hs (hR.bind (hR.close ending d₁) fun _ _ => .ok hR.refl)

end Covers

end Desk

namespace Station

variable {st : Station τ} {rounds : Nat} {seed : UInt64} {source : String} {s s' : Shared τ}
  {r : RunReport}

open Desk

theorem apologize_strides {message : String} {run : Nat} (h : st.apologize message run s = .ok () s')
    (c : RunContext Nat) : Strides st ⟨c, s⟩ ⟨c, s'⟩ := by
  obtain ⟨s₁, habort, hend⟩ := apologize_eq_ok h
  exact (Relation.ReflTransGen.single (.closing habort)).tail (.closing hend)

theorem run_strides (h : st.run rounds seed source s = .ok (r, s')) :
    ∃ d, Strides st (st.desk seed source s) d ∧
      s' = st.sink.perform (Controls.finishSteps (lastPhase r.outcome)) d.shared := by
  have hexecute := (covers_strides st).execute rounds source (st.desk seed source s)
  obtain ⟨s₁, rfl, -, ⟨d, hd, rfl⟩ | ⟨-, -, e, d, hd, -, hs₁⟩⟩ := run_eq_ok h
  · exact ⟨d, hexecute.of_ok hd, rfl⟩
  · obtain ⟨c, hs⟩ := hexecute.of_error hd
    exact ⟨⟨c, s₁⟩, hs.trans (apologize_strides hs₁ c), rfl⟩

end Station

structure Sink.Keeps (k : Sink τ) (I : τ → Prop) : Prop where
  pass {n : Notice} {s : Shared τ} : I s.client → I (Act.final (k.pass n s)).client
  meanwhile {s : Shared τ} : I s.client → I (k.meanwhile s).client

namespace Sink.Keeps

variable {st : Station τ} {I : τ → Prop} (hk : st.sink.Keeps I)

include hk

theorem pass_result {n : Notice} {s : Shared τ} {r : EStateM.Result Unit (Shared τ) Unit}
    (h : st.sink.pass n s = r) (hi : I s.client) : I (Act.final r).client := by
  subst h
  exact hk.pass hi

theorem step {d d' : Desk τ} {read : List Signal} (hs : Desk.Step st d read d')
    (hi : I d.shared.client) : I d'.shared.client := by
  cases hs with
  | quiet | read => exact hi
  | meanwhile => exact hk.meanwhile hi
  | tell _ hn => exact hk.pass_result hn hi

theorem strides {d d' : Desk τ} (h : Desk.Strides st d d') (hi : I d.shared.client) :
    I d'.shared.client := by
  induction h with
  | refl => exact hi
  | tail _ hs ih =>
    cases hs with
    | step hs => exact hk.step hs ih
    | broken _ hn | closing hn => exact hk.pass_result hn ih

theorem perform (steps : List (Controls → Controls)) {s : Shared τ} (hi : I s.client) :
    I (st.sink.perform steps s).client := by
  induction steps generalizing s with
  | nil => exact hi
  | cons step rest ih => exact ih (hk.meanwhile (s := ⟨step s.controls, s.client⟩) hi)

theorem run {rounds : Nat} {seed : UInt64} {source : String} {s s' : Shared τ} {r : RunReport}
    (h : st.run rounds seed source s = .ok (r, s')) (hi : I s.client) : I s'.client := by
  obtain ⟨d, hs, rfl⟩ := Station.run_strides h
  have hdesk : I (st.desk seed source s).shared.client := hk.perform _ hi
  exact hk.perform _ (hk.strides hs hdesk)

end Sink.Keeps

end Apiary
