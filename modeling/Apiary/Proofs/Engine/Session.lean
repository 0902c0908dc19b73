import Apiary.Proofs.Engine.Report

/-!
The signals that a script reads. Whatever it asks of its host leaves the queue to the controllers, but for
its requests for a signal, and each of these takes the first signal that is there.
-/

namespace Apiary

open Incident RunEvent

def token? : Value → Option Signal
  | .string text => Signal.ofText? text
  | _ => none

def tokens (answers : List Value) : List Signal := answers.filterMap token?

@[simp] theorem tokens_nil : tokens [] = [] := rfl

@[simp] theorem tokens_append (vs vs' : List Value) : tokens (vs ++ vs') = tokens vs ++ tokens vs' :=
  List.filterMap_append

@[simp] theorem tokens_text (x : Signal) : tokens [.string x.text] = [x] := by
  have htoken : token? (.string x.text) = some x := Signal.ofText_text x
  simp only [tokens, List.filterMap_cons, htoken, List.filterMap_nil]

@[simp] theorem tokens_null : tokens [.null] = [] := rfl

variable {τ : Type}

/-- The desk after what a script has asked of its host so far, with the answers to its requests for a
signal. -/
inductive Station.Session (st : Station τ) (start : Desk τ) : List Value → Desk τ → Prop
  | start : Session st start [] start
  | signal {answers : List Value} {d : Desk τ} {args : List Value} {heap : Heap} {v : Value}
    {store : Store (Desk τ)} : Session st start answers d →
    st.host.call .controlGetSignal args ⟨heap, d⟩ = .ok v store →
    Session st start (answers ++ [v]) store.host
  | call {answers : List Value} {d : Desk τ} {f : HostFunction} (args : List Value) (heap : Heap) :
    Session st start answers d → f ≠ .controlGetSignal →
    Session st start answers (Act.final (st.host.call f args ⟨heap, d⟩)).host
  | log {answers : List Value} {d : Desk τ} (line : String) : Session st start answers d →
    Session st start answers (Act.final (st.host.log line d))
  | random {answers : List Value} {d : Desk τ} : Session st start answers d →
    Session st start answers (st.host.random d).2
  | checkpoint {answers : List Value} {d : Desk τ} : Session st start answers d →
    Session st start answers (Act.final (st.host.checkpoint d))

/-- What its script was answered in a run; a source that does not parse asks nothing. -/
def Station.Answered (st : Station τ) (rounds : Nat) (source : String) (d : Desk τ)
    (answers : List Value) : Prop :=
  match parse source with
  | .ok p => st.Session d answers (st.interpret rounds p d).2
  | .error _ => answers = []

/-- The record has grown since a start, and what was posted since then stands behind what was there: first
what is answered, then what is queued. -/
def Shared.Delivers (record : τ → List Incident) (start : Shared τ) (answers : List Value)
    (t : List Incident) (s : Shared τ) : Prop :=
  record s.client = record start.client ++ t ∧
    tokens answers ++ s.controls.signals = start.controls.signals ++ Move.posts (moves t)

namespace Shared.Delivers

variable {record : τ → List Incident} {start s s' : Shared τ} {answers : List Value} {t t' : List Incident}

theorem refl (start : Shared τ) : Delivers record start [] [] start := by
  constructor
  · exact (List.append_nil _).symm
  · exact (List.append_nil _).symm

theorem append (h : Delivers record start answers t s) (hrecord : record s'.client = record s.client ++ t')
    (hsignals : s'.controls.signals = s.controls.signals ++ Move.posts (moves t')) :
    Delivers record start answers (t ++ t') s' := by
  constructor
  · rw [hrecord, h.1, List.append_assoc]
  · rw [hsignals, ← List.append_assoc, h.2, moves_append, Move.posts_append, List.append_assoc]

theorem grows (h : Delivers record start answers t s) (hs : Grows record t' s s') :
    Delivers record start answers (t ++ t') s' := by
  refine h.append hs.1 ?_
  rw [hs.2, Move.play_eq]

theorem passes {d : Desk τ} {c : RunContext Nat} (h : Delivers record start answers t d.shared)
    (ht : Desk.Passes record t' [] d ⟨c, s⟩) : Delivers record start answers (t ++ t') s :=
  h.append ht.record ht.signals

theorem answer {v : Value} {c : Controls} (h : Delivers record start answers t s)
    (hv : tokens [v] ++ c.signals = s.controls.signals) :
    Delivers record start (answers ++ [v]) t ⟨c, s.client⟩ := by
  constructor
  · exact h.1
  · rw [tokens_append, List.append_assoc, hv]
    exact h.2

end Shared.Delivers

def Shared.Heeds (start : Shared τ) (t : List Incident) (s : Shared τ) : Prop :=
  s.controls.running = (start.controls.running && !(moves t).any Move.clears)

namespace Shared.Heeds

variable {record : τ → List Incident} {start s : Shared τ} {t t' : List Incident} {read : List Signal}
  {d : Desk τ} {c : RunContext Nat}

theorem refl (start : Shared τ) : Heeds start [] start := (Bool.and_true _).symm

theorem passes (h : Heeds start t d.shared) (ht : Desk.Passes record t' read d ⟨c, s⟩) :
    Heeds start (t ++ t') s := by
  have hrunning : s.controls.running = (d.shared.controls.running && !(moves t').any Move.clears) := ht.running
  unfold Heeds at h ⊢
  rw [hrunning, h, moves_append, List.any_append, Bool.not_or, Bool.and_assoc]

theorem congr {s' : Shared τ} (h : Heeds start t s) (hs : s'.controls.running = s.controls.running) :
    Heeds start t s' := hs.trans h

end Shared.Heeds

namespace Station

variable {st : Station τ} {record : τ → List Incident} {start d : Desk τ} {answers : List Value}

theorem getSignal_answers (st : Station τ) (args : List Value) (heap : Heap) (d : Desk τ) :
    ∃ v c, st.host.call .controlGetSignal args ⟨heap, d⟩ =
        .ok v ⟨heap, ⟨d.context, ⟨c, (st.sink.meanwhile d.shared).client⟩⟩⟩ ∧
      (v = .null ∨ ∃ x : Signal, v = .string x.text) ∧
      (v = .null ↔ (st.sink.meanwhile d.shared).controls.signals = []) ∧
      c.running = (st.sink.meanwhile d.shared).controls.running ∧
      tokens [v] ++ c.signals = (st.sink.meanwhile d.shared).controls.signals := by
  have hcall : st.host.call .controlGetSignal args = DeskAct.getSignal st := rfl
  obtain ⟨context, shared⟩ := d
  rw [hcall]
  simp only [DeskAct.getSignal, DeskAct.meanwhile, DeskAct.controls, DeskAct.tell, Bind.bind, EStateM.bind]
  cases hpop : (st.sink.meanwhile shared).controls.pop with
  | mk signal c =>
    cases signal with
    | none =>
      have hsignals : (st.sink.meanwhile shared).controls.signals = [] := by
        unfold Controls.pop at hpop
        split at hpop
        · assumption
        · cases hpop
      obtain rfl := Controls.pop_none hpop
      refine ⟨.null, _, rfl, .inl rfl, ⟨fun _ => hsignals, fun _ => rfl⟩, rfl, ?_⟩
      rw [tokens_null, List.nil_append]
    | some x =>
      obtain ⟨hsignals, hrest⟩ := Controls.pop_some hpop
      refine ⟨.string x.text, c, rfl, .inr ⟨x, rfl⟩, ⟨fun hnull => ?_, fun hnil => ?_⟩, by rw [hrest], ?_⟩
      · cases hnull
      · cases hsignals.symm.trans hnil
      · rw [hsignals, tokens_text]
        rfl

theorem logLine_final (hk : st.sink.Records record) (kind : LogKind) (message : String) (d : Desk τ) :
    ∃ c t, Desk.Passes record t [] d ⟨c, (Act.final (st.logLine kind message d)).shared⟩ := by
  obtain ⟨t, -, ht⟩ := Desk.passes_tell hk (d := d) (.log kind message)
  simp only [Sink.pass] at ht
  rw [logLine_eq]
  generalize st.sink.log
    (st.entry d.shared.client (RunContext.logId d.context.run (d.context.logs + 1)) kind message) d.shared = r at ht ⊢
  cases r with
  | ok x s => exact ⟨_, t, ht⟩
  | error x s => exact ⟨_, t, ht⟩

theorem call_final (hk : st.sink.Records record) {f : HostFunction} (hf : f ≠ .controlGetSignal)
    (args : List Value) (heap : Heap) (d : Desk τ) :
    ∃ c t, Desk.Passes record t [] d ⟨c, (Act.final (st.host.call f args ⟨heap, d⟩)).host.shared⟩ := by
  have hstepwise : DeskAct.Stepwise st ⟨HostFunction.Trips st args f, f = .controlGetSignal⟩ (DeskAct.call st f args) :=
    DeskAct.Stepwise.call f args
  have hcall := hstepwise ⟨heap, d⟩
  have hhost : st.host.call f args = DeskAct.call st f args := rfl
  rw [hhost]
  generalize DeskAct.call st f args ⟨heap, d⟩ = r at hcall ⊢
  cases hcall with
  | ok hs =>
    obtain ⟨t, ht⟩ := (hs.silent hf).passes hk
    exact ⟨_, t, ht⟩
  | error he =>
    cases he with
    | plain _ hs | trip _ hs =>
      obtain ⟨t, ht⟩ := (hs.silent hf).passes hk
      exact ⟨_, t, ht⟩
    | broken hs hb =>
      obtain ⟨t, ht⟩ := (hs.silent hf).passes hk
      obtain ⟨c, t', ht'⟩ := hb.passes hk
      exact ⟨c, t ++ t', ht.trans ht'⟩

theorem checkpoint_final (st : Station τ) (d : Desk τ) :
    Act.final (st.host.checkpoint d) = ⟨d.context, st.sink.meanwhile d.shared⟩ := by
  simp only [host, checkpoint, Bind.bind, EStateM.bind, goesOn_eq]
  cases (st.sink.meanwhile d.shared).controls.running <;> rfl

theorem Session.delivers (hk : st.sink.Records record) (h : st.Session start answers d) :
    ∃ t, Shared.Delivers record start.shared answers t d.shared ∧
      Shared.Heeds start.shared t d.shared := by
  induction h with
  | start => exact ⟨[], .refl start.shared, .refl start.shared⟩
  | @signal answers d args heap v store _ hv ih =>
    obtain ⟨t, ht, hflag⟩ := ih
    obtain ⟨t', -, ht'⟩ := Desk.passes_meanwhile hk d
    obtain ⟨v', c, hcall, -, -, hrunning, htokens⟩ := getSignal_answers st args heap d
    rw [hcall] at hv
    cases hv
    exact ⟨t ++ t', (ht.passes ht').answer htokens, (hflag.passes ht').congr hrunning⟩
  | @call answers d f args heap _ hf ih =>
    obtain ⟨t, ht, hflag⟩ := ih
    obtain ⟨c, t', ht'⟩ := call_final hk hf args heap d
    exact ⟨t ++ t', ht.passes ht', hflag.passes ht'⟩
  | @log answers d line _ ih =>
    obtain ⟨t, ht, hflag⟩ := ih
    obtain ⟨c, t', ht'⟩ := logLine_final hk .info line d
    exact ⟨t ++ t', ht.passes ht', hflag.passes ht'⟩
  | random _ ih => exact ih
  | @checkpoint answers d _ ih =>
    obtain ⟨t, ht, hflag⟩ := ih
    obtain ⟨t', -, ht'⟩ := Desk.passes_meanwhile hk d
    rw [checkpoint_final]
    exact ⟨t ++ t', ht.passes ht', hflag.passes ht'⟩

/-- Once a stop has come after the flag was raised, no checkpoint lets the script go on. -/
theorem Session.stopped (hk : st.sink.Records record) {seed : UInt64} {source : String} {s : Shared τ}
    (h : st.Session (st.desk seed source s) answers d) {t : List Incident}
    (ht : record d.shared.client = record (st.cleared s).client ++ t)
    (hclears : ∃ m ∈ moves t, m.clears = true) : ∃ d', st.host.checkpoint d = .error .stopped d' := by
  obtain ⟨a, b, -, -, -, hrb, hcontrols⟩ := started_grows hk s
  obtain ⟨t', ⟨hrecord, -⟩, hflag⟩ := h.delivers hk
  have hdesk : (st.desk seed source s).shared = st.started s := rfl
  rw [hdesk, hrb, List.append_assoc] at hrecord
  obtain rfl := List.append_cancel_left (ht.symm.trans hrecord)
  have hdown : d.shared.controls.running = false := by
    unfold Shared.Heeds at hflag
    rw [hdesk, hcontrols] at hflag
    rw [hflag, ← Bool.not_or, ← List.any_append, ← moves_append, List.any_eq_true.mpr hclears]
    rfl
  obtain ⟨c, -, hc⟩ := Desk.passes_meanwhile hk d
  have hmeanwhile : (st.sink.meanwhile d.shared).controls.running = false := by
    have hrunning := hc.running
    rw [hdown, Bool.false_and] at hrunning
    exact hrunning
  refine ⟨⟨d.context, st.sink.meanwhile d.shared⟩, ?_⟩
  simp only [host, Station.checkpoint, Bind.bind, EStateM.bind, goesOn_eq, hmeanwhile]
  rfl

theorem session_keeps (st : Station τ) (start : Desk τ) :
    st.host.Keeps (fun d => ∃ answers, st.Session start answers d)
      fun _ s => ∃ answers, st.Session start answers s.host where
  call f args := by
    rintro ⟨heap, d⟩ ⟨answers, hs⟩
    by_cases hf : f = .controlGetSignal
    · obtain ⟨v, c, hcall, -⟩ := getSignal_answers st args heap d
      rw [hf, hcall]
      exact .ok ⟨_, hs.signal hcall⟩
    · have hcall := Session.call args heap hs hf
      generalize st.host.call f args ⟨heap, d⟩ = r at hcall ⊢
      cases r with
      | ok v store => exact .ok ⟨answers, hcall⟩
      | error e store => exact .error ⟨answers, hcall⟩
  checkpoint := by
    rintro ⟨heap, d⟩ ⟨answers, hs⟩
    have hcheckpoint := hs.checkpoint
    simp only [HostAct.own]
    generalize st.host.checkpoint d = r at hcheckpoint ⊢
    cases r with
    | ok x d' => exact .ok ⟨answers, hcheckpoint⟩
    | error e d' => exact .error ⟨answers, hcheckpoint⟩
  log line := by
    rintro ⟨heap, d⟩ ⟨answers, hs⟩
    have hlog := hs.log line
    simp only [HostAct.own]
    generalize st.host.log line d = r at hlog ⊢
    cases r with
    | ok x d' => exact .ok ⟨answers, hlog⟩
    | error e d' => exact .error ⟨answers, hlog⟩
  random := fun ⟨answers, hs⟩ => ⟨answers, hs.random⟩
  ofScript hs _ := hs
  limit hs := hs
  error hs := hs

theorem interpret_session (st : Station τ) (rounds : Nat) (p : Program) (d : Desk τ) :
    ∃ answers, st.Session d answers (st.interpret rounds p d).2 := by
  have hrun := (st.session_keeps d).runProgram rounds p (World.startWithHost d) rfl ⟨[], .start⟩
  unfold interpret Program.run
  generalize Act.runProgram st.host rounds p (World.startWithHost d) = r at hrun ⊢
  cases hrun with
  | ok hw => exact hw.2
  | error hw => exact hw.2

theorem perform_delivers (hk : st.sink.Records record) {steps : List (Controls → Controls)}
    (hsteps : ∀ step ∈ steps, ∀ c, (step c).signals = c.signals) {start s : Shared τ} {t : List Incident}
    (h : Shared.Delivers record start answers t s) :
    ∃ t', Shared.Delivers record start answers (t ++ t') (st.sink.perform steps s) := by
  induction steps generalizing s t with
  | nil => exact ⟨[], by rwa [List.append_nil]⟩
  | cons step rest ih =>
    obtain ⟨t₁, -, hrecord, hcontrols⟩ := perform_grows hk step s
    have hsignals : (st.sink.perform [step] s).controls.signals =
        s.controls.signals ++ Move.posts (moves t₁) := by
      rw [hcontrols, Move.play_eq]
      exact congrArg (· ++ Move.posts (moves t₁)) (hsteps step List.mem_cons_self s.controls)
    obtain ⟨t₂, ht₂⟩ := ih (fun f hf => hsteps f (List.mem_cons_of_mem step hf)) (h.append hrecord hsignals)
    exact ⟨t₁ ++ t₂, by rwa [← List.append_assoc]⟩

theorem finishSteps_signals (last : Phase) :
    ∀ step ∈ Controls.finishSteps last, ∀ c : Controls, (step c).signals = c.signals := by
  intro step hstep c
  simp only [Controls.finishSteps, List.mem_cons, List.not_mem_nil, or_false] at hstep
  rcases hstep with rfl | rfl | rfl <;> rfl

theorem execute_delivers (hk : st.sink.Records record) (rounds : Nat) (source : String) (d : Desk τ) :
    Leads
      (fun _ d' => ∃ answers t, st.Answered rounds source d answers ∧
        Shared.Delivers record d.shared answers t d'.shared)
      (fun e d' => (∃ cause, e = .endless cause) ∨ ∃ answers t, st.Answered rounds source d answers ∧
        Shared.Delivers record d.shared answers t d'.shared)
      (st.execute rounds source d) := by
  unfold Answered
  cases hp : parse source with
  | error e =>
    rw [execute_of_error st rounds hp]
    obtain ⟨c, t, ht⟩ := logLine_final hk .error ("Compiler Error: " ++ e.text) d
    have hstart : Shared.Delivers record d.shared [] [] d.shared := .refl d.shared
    have hline := hstart.passes ht
    simp only [Bind.bind, EStateM.bind]
    generalize st.logLine .error ("Compiler Error: " ++ e.text) d = r at hline ⊢
    cases r with
    | ok x d' => exact .ok ⟨[], t, rfl, hline⟩
    | error e d' => exact .error (.inr ⟨[], t, rfl, hline⟩)
  | ok p =>
    rw [execute_eq st rounds hp]
    obtain ⟨answers, hs⟩ := st.interpret_session rounds p d
    obtain ⟨t, ht, -⟩ := hs.delivers hk
    refine (close_passes hk (st.interpret rounds p d).1 (st.interpret rounds p d).2).chain ?_ ?_
    · intro e d' he
      refine he.imp_right fun ⟨c, t', ht'⟩ => ⟨answers, t ++ t', hs, ht.passes ht'⟩
    · rintro o d' ⟨-, -, t', -, ht'⟩
      exact .ok ⟨answers, t ++ t', hs, ht.passes ht'⟩

theorem run_delivers (hk : st.sink.Records record) {rounds : Nat} {seed : UInt64} {source : String}
    {s s' : Shared τ} {r : RunReport} (h : st.run rounds seed source s = .ok (r, s')) :
    ∃ answers t, st.Answered rounds source (st.desk seed source s) answers ∧
      Shared.Delivers record (st.started s) answers t s' := by
  have hexecute := execute_delivers hk rounds source (st.desk seed source s)
  obtain ⟨s₁, rfl, -, ⟨d', hd', rfl⟩ | ⟨-, -, e, d', hd', hendless, hs₁⟩⟩ := run_eq_ok h
  · obtain ⟨answers, t, hs, ht⟩ := hexecute.of_ok hd'
    obtain ⟨t', ht'⟩ := perform_delivers hk (finishSteps_signals _) ht
    exact ⟨answers, t ++ t', hs, ht'⟩
  · rcases hexecute.of_error hd' with ⟨cause, rfl⟩ | ⟨answers, t, hs, ht⟩
    · exact absurd rfl (hendless cause)
    · obtain ⟨t₁, -, -, -, hgrows⟩ := apologize_grows hk hs₁
      obtain ⟨t', ht'⟩ := perform_delivers hk (finishSteps_signals _) (ht.grows hgrows)
      exact ⟨answers, t ++ t₁ ++ t', hs, ht'⟩

/-- What is delivered since the start of a run is delivered since it cleared the queue. -/
theorem delivers_since_cleared (hk : st.sink.Records record) {s s' : Shared τ} {a t : List Incident}
    (ha : record (st.cleared s).client = record s.client ++ a)
    (ht : Shared.Delivers record (st.started s) answers t s') :
    ∃ t, record s'.client = record s.client ++ (a ++ t) ∧
      tokens answers ++ s'.controls.signals = Move.posts (moves (a ++ t)) := by
  obtain ⟨a', b, -, -, hra, hrb, hcontrols⟩ := started_grows hk s
  obtain rfl := List.append_cancel_left (ha.symm.trans hra)
  obtain ⟨hrecord, hsignals⟩ := ht
  refine ⟨b ++ t, ?_, ?_⟩
  · rw [hrecord, hrb, ha]
    simp only [List.append_assoc]
  · rw [hsignals, hcontrols]
    simp only [moves_append, Move.posts_append, List.append_assoc]

theorem signals_in_order (hk : st.sink.Records record) (seed : UInt64) (source : String) {s : Shared τ}
    {a : List Incident} (ha : record (st.cleared s).client = record s.client ++ a) :
    (∀ answers d, st.Session (st.desk seed source s) answers d →
      ∃ t, record d.shared.client = record s.client ++ (a ++ t) ∧
        tokens answers ++ d.shared.controls.signals = Move.posts (moves (a ++ t))) ∧
    (∀ args heap d, ∃ v c, st.host.call .controlGetSignal args ⟨heap, d⟩ =
        .ok v ⟨heap, ⟨d.context, ⟨c, (st.sink.meanwhile d.shared).client⟩⟩⟩ ∧
      (v = .null ∨ ∃ x : Signal, v = .string x.text) ∧
      (v = .null ↔ (st.sink.meanwhile d.shared).controls.signals = []) ∧
      tokens [v] ++ c.signals = (st.sink.meanwhile d.shared).controls.signals) ∧
    (∀ rounds p, ∃ answers,
      st.Session (st.desk seed source s) answers (st.interpret rounds p (st.desk seed source s)).2) ∧
    ∀ rounds r s', st.run rounds seed source s = .ok (r, s') →
      ∃ answers t, st.Answered rounds source (st.desk seed source s) answers ∧
        record s'.client = record s.client ++ (a ++ t) ∧
        tokens answers ++ s'.controls.signals = Move.posts (moves (a ++ t)) := by
  refine ⟨?_, ?_, fun rounds p => interpret_session st rounds p _, ?_⟩
  · intro answers d hs
    obtain ⟨t, ht, -⟩ := hs.delivers hk
    exact delivers_since_cleared hk ha ht
  · intro args heap d
    obtain ⟨v, c, hcall, htext, hnull, -, htokens⟩ := getSignal_answers st args heap d
    exact ⟨v, c, hcall, htext, hnull, htokens⟩
  · intro rounds r s' hr
    obtain ⟨answers, t, hs, ht⟩ := run_delivers hk hr
    obtain ⟨t', hrecord, hsignals⟩ := delivers_since_cleared hk ha ht
    exact ⟨answers, t', hs, hrecord, hsignals⟩

end Station

/-- Controllers that queue two signals as soon as a run has cleared the queue. -/
def Controllers.queueing : Controllers where
  meanwhile t := if t.length = 0 then [.post .pause, .post .resume] else []

def Shared.stale : Shared (List Incident) := ⟨{ signals := [.boostRate] }, []⟩

theorem queueing_in_order :
    ∃ d, Controllers.queueing.station.Session (Controllers.queueing.station.desk 7 ";" .stale)
        [.string "PAUSE"] d ∧
      tokens [.string "PAUSE"] ++ d.shared.controls.signals = [.pause, .resume] := by
  have ha : (Controllers.queueing.station.cleared .stale).client =
      [] ++ [.moved (.post .pause), .moved (.post .resume)] := rfl
  obtain ⟨horder, hanswers, -⟩ := Station.signals_in_order Controllers.queueing.records 7 ";" ha
  obtain ⟨v, c, hcall, -, -, htokens⟩ :=
    hanswers [] {} (Controllers.queueing.station.desk 7 ";" .stale)
  have hv : v = .string "PAUSE" := by
    cases hcall
    rfl
  subst hv
  have hsession := Station.Session.start.signal hcall
  obtain ⟨t, hrecord, hsignals⟩ := horder _ _ hsession
  obtain rfl : t = [] := List.append_cancel_left (hrecord.symm.trans (List.append_nil _).symm)
  exact ⟨_, hsession, hsignals⟩

end Apiary
