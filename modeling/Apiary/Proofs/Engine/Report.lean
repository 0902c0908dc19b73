import Apiary.Engine.Run
import Apiary.Proofs.Engine.Record
import Apiary.Proofs.Script.Globals

/-!
The anatomy of a run: how it starts, what its program does at the desk, the lines that it closes with, and
the three ways in which it comes to a report.
-/

namespace Apiary

open Incident RunEvent

def LogEntry.line (entry : LogEntry) : LogKind × String := (entry.kind, entry.message)

def closingLines : RunOutcome → List (LogKind × String)
  | .completed => [(.system, finishedText)]
  | .stopped => [(.system, stoppedText), (.system, finishedText)]
  | .errored message => [(.error, runtimeError message), (.system, finishedText)]
  | .compileFailed message => [(.error, "Compiler Error: " ++ message)]

def lastIds (run : Nat) : List String := [toString run ++ "-abort", toString run ++ "-end"]

/-- The lines that close a run in the place of its worker. Each carries the time at which it is told. -/
structure Apology (run : Nat) (message : String) (entries : List LogEntry) : Prop where
  ids : entries.map LogEntry.id = lastIds run
  lines : entries.map LogEntry.line = closingLines (.errored message)

namespace Station

variable {τ : Type} {st : Station τ} {record : τ → List Incident} {rounds : Nat} {seed : UInt64}
  {source : String}

section Lines

def logLines (st : Station τ) : List (LogKind × String) → EStateM Interrupt (Desk τ) Unit
  | [] => pure ()
  | (kind, message) :: rest => do
    st.logLine kind message
    st.logLines rest

/-- The outcome that a run tells its client in its closing lines. -/
def verdict (st : Station τ) : Ending → EStateM Interrupt (Desk τ) RunOutcome
  | .completed => do pure (if ← st.goesOn then .completed else .stopped)
  | .stopped => pure .stopped
  | .failed message _ => pure (.errored message)
  | .broken => throw .fault
  | .endless => throw (.endless .run)

theorem verdict_completed (st : Station τ) (d : Desk τ) :
    st.verdict .completed d =
      .ok (if (st.sink.meanwhile d.shared).controls.running then .completed else .stopped)
        ⟨d.context, st.sink.meanwhile d.shared⟩ :=
  rfl

theorem close_eq (st : Station τ) (ending : Ending) :
    st.close ending = st.verdict ending >>= fun o => st.logLines (closingLines o) >>= fun _ => pure o := by
  cases ending with
  | completed =>
    simp only [close, verdict, bind_assoc, pure_bind]
    congr 1
    funext goesOn
    cases goesOn <;> simp [close.stopped, logLines, closingLines]
  | stopped => simp [close, close.stopped, verdict, logLines, closingLines]
  | failed => simp [close, verdict, logLines, closingLines]
  | broken | endless => rfl

theorem verdict_passes (hk : st.sink.Records record) (ending : Ending) (d : Desk τ) :
    Leads
      (fun o d' => (∀ m, o ≠ .compileFailed m) ∧
        (o = .completed → d.shared.controls.running = true) ∧
        ∃ t, events t = [] ∧ Desk.Passes record t [] d d')
      (fun e d' => (∃ cause, e = .endless cause) ∨ ∃ c t, Desk.Passes record t [] d ⟨c, d'.shared⟩)
      (st.verdict ending d) := by
  cases ending with
  | completed =>
    obtain ⟨t, hevents, ht⟩ := Desk.passes_meanwhile hk d
    have hrunning : (st.sink.meanwhile d.shared).controls.running = true →
        d.shared.controls.running = true := by
      intro h
      have hd := ht.running
      rw [h] at hd
      exact (Bool.and_eq_true _ _ ▸ hd.symm).1
    rw [verdict_completed]
    cases hr : (st.sink.meanwhile d.shared).controls.running with
    | true => exact .ok ⟨nofun, fun _ => hrunning hr, t, hevents, ht⟩
    | false => exact .ok ⟨nofun, nofun, t, hevents, ht⟩
  | stopped | failed => exact .ok ⟨nofun, nofun, [], rfl, .refl d⟩
  | broken => exact .error (.inr ⟨_, _, .refl d⟩)
  | endless => exact .error (.inl ⟨_, rfl⟩)

theorem logLine_passes (hk : st.sink.Records record) (kind : LogKind) (message : String)
    (d : Desk τ) :
    Leads
      (fun _ d' => ∃ t entry, events t = [.log entry] ∧ entry.line = (kind, message) ∧
        Desk.Passes record t [] d d')
      (fun e d' => (∃ cause, e = .endless cause) ∨ ∃ c t, Desk.Passes record t [] d ⟨c, d'.shared⟩)
      (st.logLine kind message d) := by
  obtain ⟨t, hevents, ht⟩ := Desk.passes_tell hk (d := d) (.log kind message)
  simp only [Sink.pass] at ht
  rw [logLine_eq]
  cases h : st.sink.log
      (st.entry d.shared.client (RunContext.logId d.context.run (d.context.logs + 1)) kind message) d.shared with
  | ok x s =>
    rw [h] at ht
    exact .ok ⟨t, _, hevents, rfl, ht⟩
  | error x s =>
    rw [h] at ht
    exact .error (.inr ⟨_, t, ht⟩)

theorem logLines_passes (hk : st.sink.Records record) (lines : List (LogKind × String))
    (d : Desk τ) :
    Leads
      (fun _ d' => ∃ t, ∃ es : List LogEntry, events t = es.map .log ∧
        es.map LogEntry.line = lines ∧ Desk.Passes record t [] d d')
      (fun e d' => (∃ cause, e = .endless cause) ∨ ∃ c t, Desk.Passes record t [] d ⟨c, d'.shared⟩)
      (st.logLines lines d) := by
  induction lines generalizing d with
  | nil => exact .ok ⟨[], [], rfl, rfl, .refl d⟩
  | cons line rest ih =>
    refine (logLine_passes hk line.1 line.2 d).bind fun _ d' hd' => ?_
    obtain ⟨t, entry, hevents, hline, ht⟩ := hd'
    refine (ih d').mono ?_ ?_
    · rintro _ d'' ⟨t', es, hevents', hlines, ht'⟩
      refine ⟨t ++ t', entry :: es, ?_, ?_, ht.trans ht'⟩
      · simp [hevents, hevents']
      · simp [hline, hlines]
    · exact fun e d'' he => he.imp_right fun ⟨c, t', ht'⟩ => ⟨c, t ++ t', ht.trans ht'⟩

theorem logs_map_log (es : List LogEntry) : logs (es.map .log) = es := by
  induction es with
  | nil => rfl
  | cons entry rest ih => exact congrArg (entry :: ·) ih

theorem close_passes (hk : st.sink.Records record) (ending : Ending) (d : Desk τ) :
    Leads
      (fun o d' => (∀ m, o ≠ .compileFailed m) ∧
        (o = .completed → d.shared.controls.running = true) ∧
        ∃ t, (logs (events t)).map LogEntry.line = closingLines o ∧ Desk.Passes record t [] d d')
      (fun e d' => (∃ cause, e = .endless cause) ∨ ∃ c t, Desk.Passes record t [] d ⟨c, d'.shared⟩)
      (st.close ending d) := by
  rw [close_eq]
  refine (verdict_passes hk ending d).bind fun o d₁ ⟨hcompile, hrunning, t, hevents, ht⟩ => ?_
  refine (logLines_passes hk (closingLines o) d₁).chain
    (fun e d' he => he.imp_right fun ⟨c, t', ht'⟩ => ⟨c, t ++ t', ht.trans ht'⟩)
    fun _ d' ⟨t', es, hes, hlines, ht'⟩ => .ok ?_
  refine ⟨hcompile, hrunning, t ++ t', ?_, ht.trans ht'⟩
  rw [events_append, hevents, hes, List.nil_append, logs_map_log, hlines]

end Lines

section Steps

theorem perform_grows (hk : st.sink.Records record) (step : Controls → Controls) (s : Shared τ) :
    ∃ t, events t = [] ∧
      record (st.sink.perform [step] s).client = record s.client ++ t ∧
      (st.sink.perform [step] s).controls = Move.play (moves t) (step s.controls) :=
  hk.meanwhile ⟨step s.controls, s.client⟩

/-- The moment from which on the flag is up. -/
def cleared (st : Station τ) (s : Shared τ) : Shared τ := st.sink.perform [Controls.clearQueue] s

theorem started_grows (hk : st.sink.Records record) (s : Shared τ) :
    ∃ a b, events a = [] ∧ events b = [] ∧
      record (st.cleared s).client = record s.client ++ a ∧
      record (st.started s).client = record (st.cleared s).client ++ b ∧
      (st.started s).controls = ⟨!(moves b).any Move.clears, .running, s.controls.run + 1,
        Move.posts (moves a) ++ Move.posts (moves b)⟩ := by
  obtain ⟨a, ha, hra, hca⟩ := perform_grows hk Controls.clearQueue s
  obtain ⟨b, hb, hrb, hcb⟩ := perform_grows hk Controls.setFlag (st.cleared s)
  obtain ⟨c, hc, hrc, hcc⟩ := perform_grows hk Controls.begin
    (st.sink.perform [Controls.setFlag] (st.cleared s))
  have hstarted : st.started s =
      st.sink.perform [Controls.begin] (st.sink.perform [Controls.setFlag] (st.cleared s)) := rfl
  refine ⟨a, b ++ c, ha, by simp [hb, hc], hra, ?_, ?_⟩
  · rw [hstarted, hrc, hrb, List.append_assoc]
  · have hcleared : (st.cleared s).controls = Move.play (moves a) s.controls.clearQueue := hca
    rw [hstarted, hcc, hcb, hcleared]
    simp [Move.play_eq, Controls.begin, Controls.setFlag, Controls.clearQueue, Move.posts]

theorem finish_grows (hk : st.sink.Records record) (last : Phase) (s : Shared τ) :
    ∃ t, events t = [] ∧
      record (st.sink.perform (Controls.finishSteps last) s).client = record s.client ++ t ∧
      (st.sink.perform (Controls.finishSteps last) s).controls.phase = .idle ∧
      (st.sink.perform (Controls.finishSteps last) s).controls.running = false ∧
      (st.sink.perform (Controls.finishSteps last) s).controls.run = s.controls.run := by
  obtain ⟨a, ha, hra, hca⟩ := perform_grows hk Controls.clearFlag s
  generalize hs₁ : st.sink.perform [Controls.clearFlag] s = s₁ at hra hca
  obtain ⟨b, hb, hrb, hcb⟩ := perform_grows hk (Controls.enterPhase last) s₁
  generalize hs₂ : st.sink.perform [Controls.enterPhase last] s₁ = s₂ at hrb hcb
  obtain ⟨c, hc, hrc, hcc⟩ := perform_grows hk (Controls.enterPhase .idle) s₂
  have hperform : st.sink.perform (Controls.finishSteps last) s =
      st.sink.perform [Controls.enterPhase .idle] s₂ := by
    rw [← hs₂, ← hs₁]
    rfl
  refine ⟨a ++ b ++ c, by simp [ha, hb, hc], ?_, ?_, ?_, ?_⟩
  · rw [hperform, hrc, hrb, hra, List.append_assoc, List.append_assoc]
    simp
  all_goals
    rw [hperform, hcc, hcb, hca]
    simp [Move.play_eq, Controls.enterPhase, Controls.clearFlag]

end Steps

section Program

theorem interpret_path (st : Station τ) (rounds : Nat) (p : Program) (d : Desk τ) :
    Leads (fun _ w => Desk.Reaches st d w.host) (fun e w => Desk.Ends st (Interrupt.Trip st) d e w.toStore)
      (Act.runProgram st.host rounds p (World.startWithHost d)) :=
  ((st.host_keeps d).runProgram rounds p (World.startWithHost d) rfl .refl).mono
    (fun _ _ h => h.2) fun _ _ h => h.2

theorem interpret_passes (hk : st.sink.Records record) {p : Program} {ending : Ending} {d d' : Desk τ}
    (h : st.interpret rounds p d = (ending, d')) :
    ∃ c t read, Desk.Passes record t read d ⟨c, d'.shared⟩ ∧ (ending ≠ .broken → c = d'.context) := by
  have hpath := interpret_path st rounds p d
  unfold interpret Program.run at h
  generalize Act.runProgram st.host rounds p (World.startWithHost d) = r at hpath h
  cases hpath with
  | @ok x w hw =>
    cases h
    obtain ⟨read, hp⟩ := hw
    obtain ⟨t, ht⟩ := hp.passes hk
    exact ⟨_, t, read, ht, fun _ => rfl⟩
  | @error e w hw =>
    cases h
    cases hw with
    | plain _ hw | trip _ hw =>
      obtain ⟨read, hp⟩ := hw
      obtain ⟨t, ht⟩ := hp.passes hk
      exact ⟨_, t, read, ht, fun _ => rfl⟩
    | broken hw hb =>
      have hends : Desk.Ends st (Interrupt.Trip st) d .fault w.toStore := .broken hw hb
      obtain ⟨c, t, read, ht⟩ := hends.passes hk
      exact ⟨c, t, read, ht, fun hne => absurd rfl hne⟩

theorem execute_eq (st : Station τ) (rounds : Nat) {p : Program} (hp : parse source = .ok p) (d : Desk τ) :
    st.execute rounds source d =
      (st.close (st.interpret rounds p d).1 >>= fun o d' => .ok (o, d'.context.code.text) d')
        (st.interpret rounds p d).2 := by
  unfold execute
  rw [hp]
  rfl

theorem execute_of_error (st : Station τ) (rounds : Nat) {e : SourceError}
    (he : parse source = .error e) (d : Desk τ) :
    st.execute rounds source d =
      (st.logLine .error ("Compiler Error: " ++ e.text) >>= fun _ =>
        pure (.compileFailed e.text, source)) d := by
  unfold execute
  rw [he]

end Program

section Report

/-- The worker of a run breaks down before it is done. -/
def Breaks (st : Station τ) (rounds : Nat) (seed : UInt64) (source : String) (s : Shared τ) : Prop :=
  ∃ e d, st.execute rounds source (st.desk seed source s) = .error e d

def abortEntry (st : Station τ) (client : τ) (message : String) (run : Nat) : LogEntry :=
  st.entry client (toString run ++ "-abort") .error (runtimeError message)

def endEntry (st : Station τ) (client : τ) (run : Nat) : LogEntry :=
  st.entry client (toString run ++ "-end") .system finishedText

theorem apologize_eq_ok {message : String} {run : Nat} {s s' : Shared τ} (h : st.apologize message run s = .ok () s') :
    ∃ s₁, st.sink.pass (.log (st.abortEntry s.client message run)) s = .ok () s₁ ∧
      st.sink.pass (.log (st.endEntry s₁.client run)) s₁ = .ok () s' := by
  simp only [apologize, line, Bind.bind, EStateM.bind] at h
  cases hs : st.sink.pass (.log (st.abortEntry s.client message run)) s with
  | error e s₁ =>
    simp only [Sink.pass, abortEntry] at hs
    rw [hs] at h
    cases h
  | ok x s₁ =>
    simp only [Sink.pass, abortEntry] at hs
    rw [hs] at h
    exact ⟨s₁, rfl, h⟩

theorem apologize_grows (hk : st.sink.Records record) {message : String} {run : Nat} {s s' : Shared τ}
    (h : st.apologize message run s = .ok () s') :
    ∃ t entries, events t = entries.map .log ∧ Apology run message entries ∧ Shared.Grows record t s s' := by
  obtain ⟨s₁, habort, hend⟩ := apologize_eq_ok h
  obtain ⟨a, ha, hsa⟩ := hk.pass_ok habort
  obtain ⟨b, hb, hsb⟩ := hk.pass_ok hend
  refine ⟨a ++ b, [st.abortEntry s.client message run, st.endEntry s₁.client run], ?_, ⟨rfl, rfl⟩, hsa.trans hsb⟩
  rw [events_append, ha, hb]
  rfl

theorem giveUp_eq_ok {message : String} {run : Nat} {s s' : Shared τ} {r : RunReport}
    (h : st.giveUp message run source s = .ok (r, s')) :
    ∃ s₁, st.apologize message run s = .ok () s₁ ∧ r = ⟨run, .errored message, source⟩ ∧
      s' = st.sink.perform (Controls.finishSteps .errored) s₁ := by
  unfold giveUp at h
  split at h
  · next s₁ hs₁ =>
    cases h
    exact ⟨s₁, hs₁, rfl, rfl⟩
  · cases h

/-- The ways in which a run that starts at a desk comes to a report, with the incidents until then. -/
inductive Reports (st : Station τ) (record : τ → List Incident) (rounds : Nat) (source : String)
    (d : Desk τ) : RunReport → List Incident → Shared τ → Prop
  | rejected {e : SourceError} {entry : LogEntry} {t : List Incident} {d' : Desk τ} :
    parse source = .error e → st.execute rounds source d = .ok (.compileFailed e.text, source) d' →
    Desk.Passes record t [] d d' → events t = [.log entry] →
    entry.line = (.error, "Compiler Error: " ++ e.text) →
    Reports st record rounds source d ⟨d.context.run, .compileFailed e.text, source⟩ t d'.shared
  | closed {p : Program} {o : RunOutcome} {t : List Incident} {read : List Signal} {d' : Desk τ} :
    parse source = .ok p → st.execute rounds source d = .ok (o, d'.context.code.text) d' →
    (∀ m, o ≠ .compileFailed m) →
    (o = .completed → (st.interpret rounds p d).2.shared.controls.running = true) →
    Desk.Passes record t read d d' →
    closingLines o <:+ (logs (events t)).map LogEntry.line →
    Reports st record rounds source d ⟨d.context.run, o, d'.context.code.text⟩ t d'.shared
  | aborted {e : Interrupt} {c : RunContext Nat} {t t' : List Incident} {read : List Signal}
    {entries : List LogEntry} {d' : Desk τ} {s : Shared τ} :
    st.execute rounds source d = .error e d' → Desk.Passes record t read d ⟨c, d'.shared⟩ →
    events t' = entries.map .log → Apology d.context.run brokenMessage entries →
    Shared.Grows record t' d'.shared s →
    Reports st record rounds source d ⟨d.context.run, .errored brokenMessage, source⟩ (t ++ t') s

theorem execute_reports (hk : st.sink.Records record) (rounds : Nat) (source : String) (d : Desk τ) :
    Leads
      (fun (o, text) d' => st.execute rounds source d = .ok (o, text) d' →
        ∃ t, Reports st record rounds source d ⟨d.context.run, o, text⟩ t d'.shared)
      (fun e d' => (∃ cause, e = .endless cause) ∨
        ∃ c t read, Desk.Passes record t read d ⟨c, d'.shared⟩)
      (st.execute rounds source d) := by
  cases hp : parse source with
  | error e =>
    have heq := execute_of_error st rounds hp d
    rw [heq]
    refine (logLine_passes hk .error _ d).chain
      (fun e d' he => he.imp_right fun ⟨c, t, ht⟩ => ⟨c, t, [], ht⟩)
      fun _ d' ⟨t, entry, hevents, hline, ht⟩ => .ok fun h => ?_
    exact ⟨t, .rejected hp (heq.trans h) ht hevents hline⟩
  | ok p =>
    have heq := execute_eq st rounds hp d
    cases hi : st.interpret rounds p d with
    | mk ending d₁ =>
      obtain ⟨c, t, read, ht, hc⟩ := interpret_passes hk hi
      rw [hi] at heq
      rw [heq]
      by_cases hb : ending = .broken
      · rw [hb]
        exact .error (.inr ⟨c, t, read, ht⟩)
      · obtain rfl := hc hb
        refine (close_passes hk ending d₁).chain
          (fun e d' he => he.imp_right fun ⟨c, t', ht'⟩ => ⟨c, t ++ t', _, ht.trans ht'⟩)
          fun o d' ⟨hcompile, hrunning, t', hlines, ht'⟩ => .ok fun h => ?_
        refine ⟨t ++ t', .closed hp (heq.trans h) hcompile ?_ (ht.trans ht') ?_⟩
        · rw [hi]
          exact hrunning
        · rw [events_append, logs_append, List.map_append, hlines]
          exact List.suffix_append _ _

theorem run_eq_ok {s s' : Shared τ} {r : RunReport}
    (h : st.run rounds seed source s = .ok (r, s')) :
    ∃ s₁, s' = st.sink.perform (Controls.finishSteps (lastPhase r.outcome)) s₁ ∧
      r.run = (st.desk seed source s).context.run ∧
      ((∃ d, st.execute rounds source (st.desk seed source s) = .ok (r.outcome, r.source) d ∧
          s₁ = d.shared) ∨
        (r.outcome = .errored brokenMessage ∧ r.source = source ∧
          ∃ e d, st.execute rounds source (st.desk seed source s) = .error e d ∧
            (∀ cause, e ≠ .endless cause) ∧ st.apologize brokenMessage r.run d.shared = .ok () s₁)) := by
  unfold run at h
  split at h
  · cases h
  · dsimp only at h
    split at h
    · next o text d hd =>
      cases h
      exact ⟨_, rfl, rfl, .inl ⟨d, hd, rfl⟩⟩
    · cases h
    · next e d hendless hd =>
      obtain ⟨s₁, hs₁, rfl, rfl⟩ := giveUp_eq_ok h
      exact ⟨s₁, rfl, rfl, .inr ⟨rfl, rfl, e, d, hd, fun cause hc => hendless cause hc, hs₁⟩⟩

theorem run_refused {s s' : Shared τ} {r : RunReport} {reason : String}
    (h : st.run rounds seed source s (some reason) = .ok (r, s')) :
    ∃ s₁, st.apologize (unmannedMessage reason) (st.started s).controls.run (st.started s) = .ok () s₁ ∧
      r = ⟨(st.started s).controls.run, .errored (unmannedMessage reason), source⟩ ∧
      s' = st.sink.perform (Controls.finishSteps .errored) s₁ := by
  unfold run at h
  split at h
  · cases h
  · exact giveUp_eq_ok h

/-- A run whose program is read and interpreted elsewhere. -/
def runWith (st : Station τ) (interpret : Nat → Program → Desk τ → Ending × Desk τ)
    (parsed : Except SourceError Program) (rounds : Nat) (seed : UInt64) (source : String) (s : Shared τ)
    (refusal : Option String) : Except RunFailure (RunReport × Shared τ) :=
  let execute : EStateM Interrupt (Desk τ) (RunOutcome × String) := do
    match parsed with
    | .error e =>
      st.logLine .error ("Compiler Error: " ++ e.text)
      pure (.compileFailed e.text, source)
    | .ok program =>
      let (ending, d) := interpret rounds program (← get)
      set d
      let outcome ← st.close ending
      pure (outcome, (← get).context.code.text)
  if s.controls.phase ≠ .idle then .error (.alreadyRunning s.controls.run)
  else
    let desk := st.desk seed source s
    match refusal with
    | some reason => st.giveUp (unmannedMessage reason) desk.context.run source desk.shared
    | none =>
      match execute desk with
      | .ok (outcome, source) d => .ok (st.finish desk.context.run outcome source d.shared)
      | .error (.endless _) _ => .error .endless
      | .error _ d => st.giveUp brokenMessage desk.context.run source d.shared

def interpretStarted (st : Station τ) (rounds : Nat) (p : Program) (d : Desk τ) : Ending × Desk τ :=
  let (ending, w) := p.run st.host rounds (World.started d)
  (ending, w.host)

theorem interpret_eq_started (st : Station τ) : st.interpret = st.interpretStarted := by
  funext rounds p d
  rw [interpret, World.startWithHost_eq]
  rfl

-- Runs on given sources are evaluated in this form, which neither decodes the source nor builds the tree of host functions.
theorem run_of_chars (st : Station τ) {source : String} {cs : List Char} (h : source = String.ofList cs)
    (rounds : Nat) (seed : UInt64) :
    @Station.run τ st rounds seed source = st.runWith st.interpretStarted (parseChars cs) rounds seed source := by
  rw [← interpret_eq_started, ← parse_ofList, ← h]
  rfl

theorem ran_of_toOption_map {ε σ β : Type} {result : Except ε (RunReport × Shared σ)}
    {f : RunReport × Shared σ → β} {b : β} (h : result.toOption.map f = some b) :
    ∃ r s, result = .ok (r, s) ∧ f (r, s) = b := by
  cases result with
  | error e => cases h
  | ok result => exact ⟨result.1, result.2, rfl, Option.some.inj h⟩

/-- A run that starts and ends gives a report; what comes after it are the steps that finish a run. -/
theorem run_reports (hk : st.sink.Records record) {s s' : Shared τ} {r : RunReport}
    (h : st.run rounds seed source s = .ok (r, s')) :
    ∃ t s₁, Reports st record rounds source (st.desk seed source s) r t s₁ ∧
      s' = st.sink.perform (Controls.finishSteps (lastPhase r.outcome)) s₁ := by
  have hexecute := execute_reports hk rounds source (st.desk seed source s)
  obtain ⟨s₁, hs', hrun, ⟨d, hd, rfl⟩ | ⟨houtcome, hsource, e, d, hd, hendless, hs₁⟩⟩ := run_eq_ok h
  · obtain ⟨t, ht⟩ := hexecute.of_ok hd hd
    rw [← hrun] at ht
    exact ⟨t, _, ht, hs'⟩
  · rcases hexecute.of_error hd with ⟨cause, rfl⟩ | ⟨c, t, read, ht⟩
    · exact absurd rfl (hendless cause)
    · obtain ⟨t', entries, hevents, hapology, hgrows⟩ := apologize_grows hk hs₁
      rw [hrun] at hapology
      have hr : r = ⟨(st.desk seed source s).context.run, .errored brokenMessage, source⟩ := by
        rw [← hrun, ← houtcome, ← hsource]
      rw [hr] at hs' ⊢
      exact ⟨_, s₁, .aborted hd ht hevents hapology hgrows, hs'⟩

end Report

end Station

end Apiary
