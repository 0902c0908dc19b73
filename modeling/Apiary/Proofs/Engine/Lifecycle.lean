import Apiary.Proofs.Engine.Report

/-!
The life of an engine: runs one after the other, with controllers at work during and between them. Every run
that comes to a report leaves the engine as it found it, one number further, and its last lines say how it
ended.
-/

namespace Apiary

open Incident RunEvent

/-- Controls that an engine can have between its runs, with the reports of its runs so far. -/
inductive Engine.Ran : Controls → List RunReport → Prop
  | new : Ran {} []
  | moved {c : Controls} {rs : List RunReport} (m : Move) : Ran c rs → Ran (m.act c) rs
  | run {c : Controls} {rs : List RunReport} {τ : Type} {st : Station τ} {record : τ → List Incident}
    {rounds : Nat} {seed : UInt64} {source : String} {refusal : Option String} {client : τ} {r : RunReport}
    {s : Shared τ} : Ran c rs → st.sink.Records record →
    st.run rounds seed source ⟨c, client⟩ refusal = .ok (r, s) → Ran s.controls (rs ++ [r])

def Numbered (run : Nat) (entries : List LogEntry) : Prop :=
  entries.map LogEntry.id = (List.range' 1 entries.length).map (RunContext.logId run)

namespace Station

variable {τ : Type} {st : Station τ} {record : τ → List Incident} {rounds : Nat} {seed : UInt64}
  {source : String} {s s' : Shared τ} {r : RunReport}

theorem desk_run (hk : st.sink.Records record) (seed : UInt64) (source : String) (s : Shared τ) :
    (st.desk seed source s).context.run = s.controls.run + 1 := by
  obtain ⟨a, b, -, -, -, -, hcontrols⟩ := started_grows hk s
  exact congrArg Controls.run hcontrols

theorem giveUp_error {message : String} {run : Nat} {f : RunFailure}
    (h : st.giveUp message run source s = .error f) : f = .lost := by
  unfold giveUp at h
  split at h <;> cases h
  rfl

theorem run_admitted (rounds : Nat) (seed : UInt64) (source : String) (refusal : Option String)
    (h : s.controls.phase = .idle) (n : Nat) :
    st.run rounds seed source s refusal ≠ .error (.alreadyRunning n) := by
  intro hn
  unfold run at hn
  rw [if_neg (not_not.mpr h)] at hn
  dsimp only at hn
  split at hn
  · cases giveUp_error hn
  · split at hn
    · cases hn
    · cases hn
    · cases giveUp_error hn

theorem Reports.number {d : Desk τ} {t : List Incident} {s₁ : Shared τ}
    (h : Reports st record rounds source d r t s₁) :
    r.run = d.context.run ∧ s₁.controls.run = d.shared.controls.run := by
  cases h with
  | rejected _ _ ht => exact ⟨rfl, ht.number⟩
  | closed _ _ _ _ ht => exact ⟨rfl, ht.number⟩
  | aborted _ ht _ _ hs =>
    refine ⟨rfl, ?_⟩
    rw [hs.2, Move.play_eq]
    exact ht.number

/-- What a run without a worker leaves behind: two lines that say why. -/
theorem refused_grows (hk : st.sink.Records record) {reason : String}
    (h : st.run rounds seed source s (some reason) = .ok (r, s')) :
    r.outcome = .errored (unmannedMessage reason) ∧ r.run = s.controls.run + 1 ∧ s'.controls.run = r.run ∧
      s'.controls.phase = .idle ∧ s'.controls.running = false ∧
      ∃ t entries, record s'.client = record s.client ++ t ∧ events t = entries.map .log ∧
        Apology r.run (unmannedMessage reason) entries := by
  obtain ⟨s₁, hs₁, rfl, rfl⟩ := run_refused h
  obtain ⟨a, b, ha, hb, hra, hrb, -⟩ := started_grows hk s
  obtain ⟨t, entries, ht, hapology, hrt, hct⟩ := apologize_grows hk hs₁
  obtain ⟨c, hc, hrc, hphase, hflag, hend⟩ := finish_grows hk .errored s₁
  have hnumber : s₁.controls.run = (st.started s).controls.run := by rw [hct, Move.play_eq]
  refine ⟨rfl, desk_run hk seed source s, hend.trans hnumber, hphase, hflag, a ++ b ++ t ++ c, entries, ?_, ?_,
    hapology⟩
  · rw [hrc, hrt, hrb, hra]
    simp only [List.append_assoc]
  · rw [events_append, events_append, events_append, ha, hb, hc, ht, List.append_nil]
    rfl

theorem run_controls (hk : st.sink.Records record) {refusal : Option String}
    (h : st.run rounds seed source s refusal = .ok (r, s')) :
    r.run = s.controls.run + 1 ∧ s'.controls.run = r.run ∧ s'.controls.phase = .idle ∧
      s'.controls.running = false := by
  cases refusal with
  | some reason =>
    obtain ⟨-, hrun, hnumber, hphase, hflag, -⟩ := refused_grows hk h
    exact ⟨hrun, hnumber, hphase, hflag⟩
  | none =>
    obtain ⟨t, s₁, hr, rfl⟩ := run_reports hk h
    obtain ⟨hrun, hnumber⟩ := hr.number
    obtain ⟨-, -, -, hphase, hflag, hend⟩ := finish_grows hk (lastPhase r.outcome) s₁
    have hdesk := desk_run hk seed source s
    exact ⟨hrun.trans hdesk, by rw [hend, hnumber, hrun]; rfl, hphase, hflag⟩

/-- What the client hears from a run is what it hears until the run comes to its report. -/
theorem run_grows (hk : st.sink.Records record) (h : st.run rounds seed source s = .ok (r, s')) :
    ∃ t, record s'.client = record s.client ++ t ∧
      ∃ t₁ s₁, Reports st record rounds source (st.desk seed source s) r t₁ s₁ ∧
        events t = events t₁ := by
  obtain ⟨t₁, s₁, hr, rfl⟩ := run_reports hk h
  obtain ⟨a, b, ha, hb, hra, hrb, -⟩ := started_grows hk s
  obtain ⟨c, hc, hrc, -⟩ := finish_grows hk (lastPhase r.outcome) s₁
  have hworker : record s₁.client = record (st.started s).client ++ t₁ := by
    cases hr with
    | rejected _ _ ht => exact ht.record
    | closed _ _ _ _ ht => exact ht.record
    | aborted _ ht _ _ hs => rw [hs.1, ht.record, List.append_assoc]; rfl
  refine ⟨a ++ b ++ t₁ ++ c, ?_, t₁, s₁, hr, by simp [ha, hb, hc]⟩
  rw [hrc, hworker, hrb, hra]
  simp

theorem interpret_grows (hk : st.sink.Records record) (rounds : Nat) (seed : UInt64) (source : String)
    (p : Program) (s : Shared τ) :
    ∃ t, record (st.interpret rounds p (st.desk seed source s)).2.shared.client =
        record (st.cleared s).client ++ t ∧
      (st.interpret rounds p (st.desk seed source s)).2.shared.controls.running =
        !(moves t).any Move.clears := by
  cases hi : st.interpret rounds p (st.desk seed source s) with
  | mk ending d =>
    obtain ⟨a, b, -, -, -, hrb, hcontrols⟩ := started_grows hk s
    obtain ⟨c, t, read, ht, -⟩ := interpret_passes hk hi
    have hrecord : record d.shared.client = record (st.started s).client ++ t := ht.record
    have hrunning : d.shared.controls.running =
        ((st.started s).controls.running && !(moves t).any Move.clears) := ht.running
    refine ⟨b ++ t, by rw [hrecord, hrb, List.append_assoc], ?_⟩
    rw [hrunning, hcontrols, moves_append, List.any_append, Bool.not_or]

theorem numbered_of_passes {d d' : Desk τ} {t : List Incident} {read : List Signal}
    (hd : d.context.logs = 0) (ht : Desk.Passes record t read d d') :
    Numbered d.context.run (logs (events t)) := by
  have hids := ht.ids
  rw [hd] at hids
  exact hids

theorem Reports.closing {d : Desk τ} {t : List Incident} {s₁ : Shared τ}
    (h : Reports st record rounds source d r t s₁) :
    closingLines r.outcome <:+ (RunEvent.logs (events t)).map LogEntry.line := by
  cases h with
  | rejected _ _ _ hevents hline =>
    rw [hevents]
    exact ⟨[], congrArg ([·]) hline.symm⟩
  | closed _ _ _ _ _ hlines => exact hlines
  | aborted _ _ hevents hapology _ =>
    rw [events_append, logs_append, hevents, logs_map_log, List.map_append, hapology.lines]
    exact List.suffix_append _ _

/-- A worker numbers its lines, and those that close the run in its place come after them. -/
theorem Reports.ids {d : Desk τ} {t : List Incident} {s₁ : Shared τ} (hd : d.context.logs = 0)
    (h : Reports st record rounds source d r t s₁) :
    Numbered r.run (logs (events t)) ∧ (∃ x d', st.execute rounds source d = .ok x d') ∨
      (r.outcome = .errored brokenMessage ∧ ∃ front back, logs (events t) = front ++ back ∧
        Numbered r.run front ∧ Apology r.run brokenMessage back) ∧
        ∃ e d', st.execute rounds source d = .error e d' := by
  cases h with
  | rejected _ hx ht => exact .inl ⟨numbered_of_passes hd ht, _, _, hx⟩
  | closed _ hx _ _ ht => exact .inl ⟨numbered_of_passes hd ht, _, _, hx⟩
  | aborted hx ht hevents hapology _ =>
    refine .inr ⟨⟨rfl, _, _, ?_, numbered_of_passes hd ht, hapology⟩, _, _, hx⟩
    rw [events_append, logs_append, hevents, logs_map_log]

/-- A source that does not parse is told in one line, and the worker breaks down where the client does over the line. -/
theorem Reports.rejection {d : Desk τ} {t : List Incident} {s₁ : Shared τ} (hd : d.context.logs = 0)
    (h : Reports st record rounds source d r t s₁) {e : SourceError} (he : parse source = .error e) :
    (r.outcome = .compileFailed e.text ∧ ∃ entry, events t = [.log entry] ∧
      entry.line = (.error, "Compiler Error: " ++ e.text)) ∧ (∃ x d', st.execute rounds source d = .ok x d') ∨
    (∃ s', st.line (RunContext.logId r.run 1) .error ("Compiler Error: " ++ e.text) d.shared = .error () s') ∧
      ∃ i d', st.execute rounds source d = .error i d' := by
  cases h with
  | rejected he' hx _ hevents hline =>
    rw [he] at he'
    cases he'
    exact .inl ⟨⟨rfl, _, hevents, hline⟩, _, _, hx⟩
  | closed hp => cases he.symm.trans hp
  | aborted hx =>
    refine .inr ⟨?_, _, _, hx⟩
    simp only [execute, he, Bind.bind, EStateM.bind, logLine_eq, hd] at hx
    unfold line
    cases hs : st.sink.log (st.entry d.shared.client (RunContext.logId d.context.run 1) .error
        ("Compiler Error: " ++ e.text)) d.shared with
    | ok x s' =>
      simp only [hs] at hx
      cases hx
    | error x s' => exact ⟨s', rfl⟩

theorem not_breaks_of_ok {x : RunOutcome × String} {d : Desk τ}
    (h : st.execute rounds source (st.desk seed source s) = .ok x d) : ¬ st.Breaks rounds seed source s := by
  rintro ⟨e, d', he⟩
  cases h.symm.trans he

/-- What a client hears of the worker of a run, as it breaks down or not. -/
theorem run_worked (hk : st.sink.Records record) (h : st.run rounds seed source s = .ok (r, s')) :
    ∃ t, record s'.client = record s.client ++ t ∧
      closingLines r.outcome <:+ (logs (events t)).map LogEntry.line ∧
      (¬ st.Breaks rounds seed source s → Numbered r.run (logs (events t)) ∧
        ∀ e, parse source = .error e → r.outcome = .compileFailed e.text ∧
          ∃ entry, events t = [.log entry] ∧ entry.line = (.error, "Compiler Error: " ++ e.text)) ∧
      (st.Breaks rounds seed source s → r.outcome = .errored brokenMessage ∧
        (∃ front back, logs (events t) = front ++ back ∧ Numbered r.run front ∧ Apology r.run brokenMessage back) ∧
        ∀ e, parse source = .error e → ∃ s', st.line (RunContext.logId r.run 1) .error
          ("Compiler Error: " ++ e.text) (st.started s) = .error () s') := by
  obtain ⟨t, ht, t₁, s₁, hreport, hevents⟩ := run_grows hk h
  refine ⟨t, ht, ?_⟩
  rw [hevents]
  refine ⟨hreport.closing, ?_⟩
  obtain ⟨hnumbered, x, d, hok⟩ | ⟨⟨houtcome, hlast⟩, hbreaks⟩ := hreport.ids rfl
  · have hnot : ¬ st.Breaks rounds seed source s := not_breaks_of_ok hok
    refine ⟨fun _ => ⟨hnumbered, fun e he => ?_⟩, fun hb => absurd hb hnot⟩
    obtain ⟨hrejected, -⟩ | ⟨-, hb⟩ := hreport.rejection rfl he
    · exact hrejected
    · exact absurd hb hnot
  · refine ⟨fun hnot => absurd hbreaks hnot, fun _ => ⟨houtcome, hlast, fun e he => ?_⟩⟩
    obtain ⟨-, x, d, hok⟩ | ⟨hline, -⟩ := hreport.rejection rfl he
    · exact absurd hbreaks (not_breaks_of_ok hok)
    · exact hline

theorem Reports.outcome_of_parse {d : Desk τ} {t : List Incident} {s₁ : Shared τ}
    (h : Reports st record rounds source d r t s₁) {p : Program} (hp : parse source = .ok p) :
    (∀ m, r.outcome ≠ .compileFailed m) ∧
      (r.outcome = .completed → (st.interpret rounds p d).2.shared.controls.running = true) := by
  cases h with
  | rejected he => cases hp.symm.trans he
  | closed hp' _ hcompile hrunning =>
    rw [hp] at hp'
    cases hp'
    exact ⟨hcompile, hrunning⟩
  | aborted => exact ⟨nofun, nofun⟩

end Station

theorem Engine.Ran.between {c : Controls} {rs : List RunReport} (h : Engine.Ran c rs) :
    c.phase = .idle ∧ c.running = false ∧ rs.map RunReport.run = List.range' 1 c.run := by
  induction h with
  | new => exact ⟨rfl, rfl, rfl⟩
  | moved m _ ih =>
    cases m with
    | stop | lower => exact ⟨ih.1, rfl, ih.2.2⟩
    | post s => exact ih
  | @run c rs τ st record rounds seed source refusal client r s _ hk hr ih =>
    obtain ⟨hrun, hnumber, hphase, hflag⟩ := Station.run_controls hk hr
    have hrun' : r.run = c.run + 1 := hrun
    refine ⟨hphase, hflag, ?_⟩
    rw [List.map_append, ih.2.2, hnumber, hrun', List.range'_concat]
    simp [hrun', Nat.add_comm]

/-- The life of a run on an engine that has run before, whether the system starts a worker for it or refuses to. -/
theorem Engine.Ran.run_told {c : Controls} {rs : List RunReport} (hc : Engine.Ran c rs) {τ : Type}
    {st : Station τ} {record : τ → List Incident} (hk : st.sink.Records record) (rounds : Nat)
    (seed : UInt64) (source : String) (refusal : Option String) (client : τ) :
    rs.map RunReport.run = List.range' 1 c.run ∧
    (∀ n, st.run rounds seed source ⟨c, client⟩ refusal ≠ .error (.alreadyRunning n)) ∧
    ∀ r s, st.run rounds seed source ⟨c, client⟩ refusal = .ok (r, s) →
      r.run = c.run + 1 ∧ s.controls.phase = .idle ∧ s.controls.running = false ∧
      (∃ t, record s.client = record client ++ t ∧
        closingLines r.outcome <:+ (logs (events t)).map LogEntry.line ∧
        (refusal = none → ¬ st.Breaks rounds seed source ⟨c, client⟩ →
          Numbered r.run (logs (events t)) ∧
          ∀ e, parse source = .error e → r.outcome = .compileFailed e.text ∧
            ∃ entry, events t = [.log entry] ∧ entry.line = (.error, "Compiler Error: " ++ e.text)) ∧
        (refusal = none → st.Breaks rounds seed source ⟨c, client⟩ →
          r.outcome = .errored brokenMessage ∧
          (∃ front back, logs (events t) = front ++ back ∧ Numbered r.run front ∧
            Apology r.run brokenMessage back) ∧
          ∀ e, parse source = .error e → ∃ s', st.line (RunContext.logId r.run 1) .error
            ("Compiler Error: " ++ e.text) (st.started ⟨c, client⟩) = .error () s') ∧
        ∀ reason, refusal = some reason → r.outcome = .errored (unmannedMessage reason) ∧
          ∃ entries, events t = entries.map .log ∧ Apology r.run (unmannedMessage reason) entries) ∧
      ∀ p, parse source = .ok p →
        (∀ m, r.outcome ≠ .compileFailed m) ∧
        ∀ t, record (st.interpret rounds p (st.desk seed source ⟨c, client⟩)).2.shared.client =
            record (st.cleared ⟨c, client⟩).client ++ t →
          (∃ m ∈ moves t, m.clears = true) → r.outcome ≠ .completed := by
  obtain ⟨hphase, -, hruns⟩ := hc.between
  refine ⟨hruns, Station.run_admitted rounds seed source refusal hphase, fun r s hr => ?_⟩
  obtain ⟨hrun, -, hidle, hflag⟩ := Station.run_controls hk hr
  refine ⟨hrun, hidle, hflag, ?_⟩
  cases refusal with
  | some reason =>
    obtain ⟨houtcome, -, -, -, -, t, entries, ht, hevents, hapology⟩ := Station.refused_grows hk hr
    refine ⟨⟨t, ht, ?_, nofun, nofun, ?_⟩, fun p _ => ?_⟩
    · rw [hevents, Station.logs_map_log, hapology.lines, houtcome]
    · intro reason' hreason
      obtain rfl := Option.some.inj hreason
      exact ⟨houtcome, entries, hevents, hapology⟩
    · rw [houtcome]
      exact ⟨nofun, fun _ _ _ => nofun⟩
  | none =>
    obtain ⟨t, ht, hclosing, hsound, hbroken⟩ := Station.run_worked hk hr
    refine ⟨⟨t, ht, hclosing, fun _ => hsound, fun _ => hbroken, nofun⟩, fun p hp => ?_⟩
    obtain ⟨t₁, -, t₂, s₁, hreport, -⟩ := Station.run_grows hk hr
    obtain ⟨hcompile, hrunning⟩ := hreport.outcome_of_parse hp
    refine ⟨hcompile, fun t' ht' hclears hcompleted => ?_⟩
    obtain ⟨t'', ht'', hflag'⟩ := Station.interpret_grows hk rounds seed source p ⟨c, client⟩
    obtain rfl := List.append_cancel_left (ht'.symm.trans ht'')
    rw [hrunning hcompleted, List.any_eq_true.mpr hclears] at hflag'
    cases hflag'

def Controllers.stopping : Controllers where
  meanwhile _ := [.stop]

theorem stopping_told :
    ∃ r s, Controllers.stopping.station.run 0 7 ";" ⟨{}, []⟩ = .ok (r, s) ∧ r.run = 1 ∧
      s.controls.phase = .idle ∧ s.controls.running = false ∧ r.outcome ≠ .completed := by
  have hends : (Controllers.stopping.station.run 0 7 ";" ⟨{}, []⟩).toOption.map (fun _ => ()) = some () := by
    decide +kernel
  have hstops : (parse ";").toOption.map (fun p =>
      (moves ((Controllers.stopping.station.interpret 0 p
        (Controllers.stopping.station.desk 7 ";" ⟨{}, []⟩)).2.shared.client.drop
          (Controllers.stopping.station.cleared ⟨{}, []⟩).client.length)).any Move.clears) = some true := by
    decide +kernel
  obtain ⟨r, s, hr, -⟩ := Station.ran_of_toOption_map hends
  obtain ⟨hrun, hphase, hflag, -, hstop⟩ :=
    (Engine.Ran.run_told .new Controllers.stopping.records 0 7 ";" none []).2.2 r s hr
  refine ⟨r, s, hr, hrun, hphase, hflag, ?_⟩
  cases hp : parse ";" with
  | error e =>
    rw [hp] at hstops
    cases hstops
  | ok p =>
    obtain ⟨t, ht, -⟩ := Station.interpret_grows Controllers.stopping.records 0 7 ";" p ⟨{}, []⟩
    have hclient : (Controllers.stopping.station.interpret 0 p
        (Controllers.stopping.station.desk 7 ";" ⟨{}, []⟩)).2.shared.client =
          (Controllers.stopping.station.cleared ⟨{}, []⟩).client ++ t := ht
    rw [hp] at hstops
    have hclears := Option.some.inj hstops
    dsimp only at hclears
    rw [hclient, List.drop_left] at hclears
    exact (hstop p hp).2 t ht (List.any_eq_true.mp hclears)

def Controllers.refusing : Controllers where
  breaks
    | .log entry => entry.id = "1-1"
    | _ => false

-- A client that breaks down over the line takes the rejection with it.
theorem refusing_aborted :
    ∃ e r s, parse "var x = ;" = .error e ∧
      Controllers.refusing.station.run 0 7 "var x = ;" ⟨{}, []⟩ = .ok (r, s) ∧
      r.outcome = .errored brokenMessage ∧ r.outcome ≠ .compileFailed e.text ∧
      (logs (events s.client)).map LogEntry.id = ["1-1", "1-abort", "1-end"] := by
  have hparse : (parse "var x = ;").isOk = false := by decide +kernel
  have hrun : (Controllers.refusing.station.run 0 7 "var x = ;" ⟨{}, []⟩).toOption.map
      (fun (r, s) => (r.outcome, (logs (events s.client)).map LogEntry.id)) =
        some (.errored brokenMessage, ["1-1", "1-abort", "1-end"]) := by
    decide +kernel
  cases he : parse "var x = ;" with
  | ok p =>
    rw [he] at hparse
    cases hparse
  | error e =>
    obtain ⟨r, s, hr, hresult⟩ := Station.ran_of_toOption_map hrun
    obtain ⟨houtcome, hlogs⟩ := Prod.mk.inj hresult
    refine ⟨e, r, s, rfl, hr, houtcome, ?_, hlogs⟩
    rw [houtcome]
    exact nofun

end Apiary
