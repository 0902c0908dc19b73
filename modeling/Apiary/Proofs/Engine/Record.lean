import Apiary.Proofs.Host.Call
import Apiary.Proofs.Script.Record
import Mathlib.Data.List.Range

/-!
A client that keeps a record: of what it hears from a run, and of what controllers do to the controls
meanwhile. Controllers take the two steps of a stop signal one by one. A course is made of labelled steps of
several parties, one after the other.
-/

namespace Apiary

inductive Move
  | stop
  /-- The first step of posting a stop signal: the flag is cleared. -/
  | lower
  | post (s : Signal)
  deriving DecidableEq, Repr

namespace Move

def act : Move → Controls → Controls
  | stop | lower => Controls.clearFlag
  | post s => Controls.append s

def clears : Move → Bool
  | stop | lower => true
  | post _ => false

def posted? : Move → Option Signal
  | post s => some s
  | stop | lower => none

def play (ms : List Move) (c : Controls) : Controls := ms.foldl (fun c m => m.act c) c

def posts (ms : List Move) : List Signal := ms.filterMap posted?

@[simp] theorem posts_append (ms ms' : List Move) : posts (ms ++ ms') = posts ms ++ posts ms' :=
  List.filterMap_append

@[simp] theorem posts_stop : posts [stop] = [] := rfl

@[simp] theorem posts_lower : posts [lower] = [] := rfl

@[simp] theorem posts_post (s : Signal) : posts [post s] = [s] := rfl

def ofPush (s : Signal) : List Move := if s = .stop then [lower, post .stop] else [post s]

theorem play_ofPush (s : Signal) (c : Controls) : play (ofPush s) c = c.push s := by
  unfold ofPush Controls.push
  split
  · next h => rw [h]; rfl
  · rfl

theorem play_eq (ms : List Move) (c : Controls) :
    play ms c =
      { c with running := c.running && !ms.any clears, signals := c.signals ++ posts ms } := by
  induction ms generalizing c with
  | nil => simp [play, posts]
  | cons m rest ih =>
    have hplay : play (m :: rest) c = play rest (m.act c) := rfl
    rw [hplay, ih]
    cases m <;> simp [act, clears, posts, posted?, List.filterMap_cons, Controls.clearFlag, Controls.append]

end Move

inductive Incident
  | heard (e : RunEvent)
  | moved (m : Move)

namespace RunEvent

def log? : RunEvent → Option LogEntry
  | log entry => some entry
  | _ => none

def update? : RunEvent → Option String
  | codeUpdate source => some source
  | _ => none

def logs (es : List RunEvent) : List LogEntry := es.filterMap log?

def updates (es : List RunEvent) : List String := es.filterMap update?

@[simp] theorem logs_append (es es' : List RunEvent) : logs (es ++ es') = logs es ++ logs es' :=
  List.filterMap_append

@[simp] theorem updates_append (es es' : List RunEvent) :
    updates (es ++ es') = updates es ++ updates es' :=
  List.filterMap_append

end RunEvent

namespace Incident

def heard? : Incident → Option RunEvent
  | heard e => some e
  | moved _ => none

def moved? : Incident → Option Move
  | heard _ => none
  | moved m => some m

def events (t : List Incident) : List RunEvent := t.filterMap heard?

def moves (t : List Incident) : List Move := t.filterMap moved?

@[simp] theorem events_append (t t' : List Incident) : events (t ++ t') = events t ++ events t' :=
  List.filterMap_append

@[simp] theorem moves_append (t t' : List Incident) : moves (t ++ t') = moves t ++ moves t' :=
  List.filterMap_append

end Incident

open Incident RunEvent

variable {τ : Type}

/-- The record grows by incidents, and the controls are as the controllers among them leave them. -/
def Shared.Grows (record : τ → List Incident) (t : List Incident) (s s' : Shared τ) : Prop :=
  record s'.client = record s.client ++ t ∧ s'.controls = Move.play (moves t) s.controls

theorem Shared.Grows.trans {record : τ → List Incident} {t t' : List Incident} {s s' s'' : Shared τ}
    (h : Grows record t s s') (h' : Grows record t' s' s'') : Grows record (t ++ t') s s'' := by
  refine ⟨by rw [h'.1, h.1, List.append_assoc], ?_⟩
  rw [h'.2, h.2, moves_append]
  exact List.foldl_append.symm

structure Sink.Records (k : Sink τ) (record : τ → List Incident) : Prop where
  pass (n : Notice) (s : Shared τ) :
    ∃ t, events t = [n.event] ∧ Shared.Grows record t s (Act.final (k.pass n s))
  meanwhile (s : Shared τ) : ∃ t, events t = [] ∧ Shared.Grows record t s (k.meanwhile s)

theorem Sink.Records.pass_ok {k : Sink τ} {record : τ → List Incident} (hk : k.Records record)
    {n : Notice} {s s' : Shared τ} (h : k.pass n s = .ok () s') :
    ∃ t, events t = [n.event] ∧ Shared.Grows record t s s' := by
  have hpass := hk.pass n s
  rw [h] at hpass
  exact hpass

/-- Controllers of a run: their moves when the client hears of an event, and their moves by themselves, as the
record stands. The client breaks down over some events. -/
structure Controllers where
  on : RunEvent → List Move := fun _ => []
  meanwhile : List Incident → List Move := fun _ => []
  breaks : RunEvent → Bool := fun _ => false

namespace Controllers

def take (k : Controllers) (e : RunEvent) : SinkAct (List Incident) Unit := fun ⟨controls, client⟩ =>
  let s := ⟨Move.play (k.on e) controls, client ++ .heard e :: (k.on e).map .moved⟩
  if k.breaks e then .error () s else .ok () s

def sink (k : Controllers) : Sink (List Incident) where
  log entry := k.take (.log entry)
  plot e := k.take (.plot e)
  code source := k.take (.codeUpdate source)
  checkpoint c := k.take (.ofCheckpoint c)
  confirm p slot := do
    k.take (.confirmation p)
    pure slot
  meanwhile := fun ⟨controls, client⟩ =>
    ⟨Move.play (k.meanwhile client) controls, client ++ (k.meanwhile client).map .moved⟩

def station (k : Controllers) : Station (List Incident) := ⟨k.sink, fun _ => [], .still 0, .standard⟩

theorem moves_moved (ms : List Move) : moves (ms.map .moved) = ms := by
  induction ms with
  | nil => rfl
  | cons m rest ih => exact congrArg (m :: ·) ih

theorem events_moved (ms : List Move) : events (ms.map .moved) = [] := by
  induction ms with
  | nil => rfl
  | cons m rest ih => exact ih

theorem take_grows (k : Controllers) (e : RunEvent) (s : Shared (List Incident)) :
    ∃ t, events t = [e] ∧ Shared.Grows id t s (Act.final (k.take e s)) := by
  refine ⟨.heard e :: (k.on e).map .moved, congrArg (e :: ·) (events_moved _), ?_⟩
  have hmoves : moves (.heard e :: (k.on e).map .moved) = k.on e := moves_moved _
  unfold Shared.Grows take
  rw [hmoves]
  cases k.breaks e <;> simp [Act.final]

theorem records (k : Controllers) : k.station.sink.Records id where
  pass n s := by
    cases n with
    | log | plot | code | checkpoint => exact k.take_grows _ s
    | confirm p =>
      obtain ⟨t, ht, hs⟩ := k.take_grows (.confirmation p) s
      refine ⟨t, ht, ?_⟩
      rw [Sink.pass_confirm]
      simp only [station, sink, Bind.bind, EStateM.bind]
      generalize k.take (.confirmation p) s = r at hs ⊢
      cases r <;> exact hs
  meanwhile s := by
    refine ⟨(k.meanwhile s.client).map .moved, events_moved _, rfl, ?_⟩
    rw [moves_moved]
    rfl

end Controllers

namespace Desk

/-- What a stretch of a run leaves behind. -/
structure Passes (record : τ → List Incident) (t : List Incident) (read : List Signal)
    (d d' : Desk τ) : Prop where
  record : record d'.shared.client = record d.shared.client ++ t
  running : d'.shared.controls.running =
    (d.shared.controls.running && !(moves t).any Move.clears)
  phase : d'.shared.controls.phase = d.shared.controls.phase
  number : d'.shared.controls.run = d.shared.controls.run
  signals : read ++ d'.shared.controls.signals =
    d.shared.controls.signals ++ Move.posts (moves t)
  run : d'.context.run = d.context.run
  logs : d'.context.logs = d.context.logs + (logs (events t)).length
  ids : (RunEvent.logs (events t)).map LogEntry.id =
    (List.range' (d.context.logs + 1) (RunEvent.logs (events t)).length).map
      (RunContext.logId d.context.run)
  code : d'.context.code.text = (updates (events t)).getLast?.getD d.context.code.text

variable {st : Station τ} {record : τ → List Incident} {t t' : List Incident}
  {read read' : List Signal} {d d' d'' : Desk τ}

theorem Passes.refl (d : Desk τ) : Passes record [] [] d d where
  record := (List.append_nil _).symm
  running := by simp [moves]
  phase := rfl
  number := rfl
  signals := by simp [moves, Move.posts]
  run := rfl
  logs := rfl
  ids := rfl
  code := rfl

theorem Passes.trans (h : Passes record t read d d') (h' : Passes record t' read' d' d'') :
    Passes record (t ++ t') (read ++ read') d d'' where
  record := by rw [h'.record, h.record, List.append_assoc]
  running := by simp [h'.running, h.running, Bool.and_assoc]
  phase := h'.phase.trans h.phase
  number := h'.number.trans h.number
  signals := by
    rw [List.append_assoc, h'.signals, ← List.append_assoc, h.signals]
    simp [Move.posts]
  run := h'.run.trans h.run
  logs := by simp [h'.logs, h.logs, Nat.add_assoc]
  ids := by
    have hids' := h'.ids
    rw [h.run, h.logs] at hids'
    simp only [events_append, logs_append, List.map_append, List.length_append, h.ids, hids']
    rw [← List.map_append]
    rw [Nat.add_right_comm, List.range'_append_1]
  code := by
    rw [h'.code, h.code]
    simp only [events_append, updates_append, List.getLast?_append]
    cases (updates (events t')).getLast? <;> rfl

theorem passes_meanwhile (hk : st.sink.Records record) (d : Desk τ) :
    ∃ t, events t = [] ∧ Passes record t [] d ⟨d.context, st.sink.meanwhile d.shared⟩ := by
  obtain ⟨t, ht, hrecord, hcontrols⟩ := hk.meanwhile d.shared
  rw [Move.play_eq] at hcontrols
  refine ⟨t, ht, hrecord, ?_, ?_, ?_, ?_, rfl, ?_, ?_, ?_⟩
  all_goals simp [hcontrols, ht, RunEvent.logs, updates]

theorem passes_tell (hk : st.sink.Records record) {n : Notice} {c : RunContext Nat}
    (hn : st.Says d n c) :
    ∃ t, events t = [n.event] ∧
      Passes record t [] d ⟨c, Act.final (st.sink.pass n d.shared)⟩ := by
  obtain ⟨t, ht, hrecord, hcontrols⟩ := hk.pass n d.shared
  rw [Move.play_eq] at hcontrols
  refine ⟨t, ht, hrecord, ?_, ?_, ?_, ?_, ?_, ?_, ?_, ?_⟩
  case refine_1 | refine_2 | refine_3 | refine_4 => simp [hcontrols]
  case refine_5 => cases hn <;> rfl
  all_goals
    simp only [ht]
    cases hn <;> rfl

theorem Step.passes (hk : st.sink.Records record) (hs : Step st d read d') :
    ∃ t, Passes record t read d d' := by
  cases hs with
  | @quiet c hc =>
    refine ⟨[], ?_, ?_, rfl, rfl, ?_, hc.run, hc.logs, rfl, congrArg CodeBuffer.text hc.code⟩
    all_goals simp [moves, Move.posts]
  | meanwhile =>
    obtain ⟨t, -, ht⟩ := passes_meanwhile hk d
    exact ⟨t, ht⟩
  | @read signal c hpop =>
    have hsignals := Controls.pop_some hpop
    refine ⟨[], (List.append_nil _).symm, ?_, ?_, ?_, ?_, rfl, rfl, rfl, rfl⟩
    · rw [hsignals.2]
      simp [moves]
    · rw [hsignals.2]
    · rw [hsignals.2]
    · simp [hsignals.1, moves, Move.posts]
  | @tell n c s hn hpass =>
    obtain ⟨t, -, ht⟩ := passes_tell hk hn
    rw [hpass] at ht
    exact ⟨t, ht⟩

theorem Path.passes (hk : st.sink.Records record) (hp : Path st d read d') :
    ∃ t, Passes record t read d d' := by
  induction hp with
  | refl => exact ⟨[], .refl d⟩
  | tail _ hs ih =>
    obtain ⟨t, ht⟩ := ih
    obtain ⟨t', ht'⟩ := hs.passes hk
    exact ⟨t ++ t', ht.trans ht'⟩

theorem Breaks.passes (hk : st.sink.Records record) {s : Shared τ} (hb : Breaks st d s) :
    ∃ c t, Passes record t [] d ⟨c, s⟩ := by
  obtain ⟨n, c, hn, hpass⟩ := hb
  obtain ⟨t, -, ht⟩ := passes_tell hk hn
  rw [hpass] at ht
  exact ⟨c, t, ht⟩

-- A client that breaks down leaves a context behind that nobody sees.
theorem Ends.passes (hk : st.sink.Records record) {trip : Store (Desk τ) → Interrupt → Prop} {e : Interrupt}
    {s : Store (Desk τ)} (he : Ends st trip d e s) :
    ∃ c t read, Passes record t read d ⟨c, s.host.shared⟩ := by
  cases he with
  | plain _ hs | trip _ hs =>
    obtain ⟨read, hp⟩ := hs
    obtain ⟨t, ht⟩ := hp.passes hk
    exact ⟨_, t, read, ht⟩
  | broken hs hb =>
    obtain ⟨read, hp⟩ := hs
    obtain ⟨t, ht⟩ := hp.passes hk
    obtain ⟨c, t', ht'⟩ := hb.passes hk
    exact ⟨c, t ++ t', _, ht.trans ht'⟩

end Desk

end Apiary

namespace Apiary

variable {σ τ δ : Type}

inductive Course (step : σ → δ → σ → Prop) (start : σ) : List δ → σ → Prop
  | refl : Course step start [] start
  | tail {ds : List δ} {d : δ} {s s' : σ} :
    Course step start ds s → step s d s' → Course step start (ds ++ [d]) s'

namespace Course

variable {step : σ → δ → σ → Prop} {step' : τ → δ → τ → Prop} {s s' s'' : σ} {ds ds' : List δ}

theorem trans (h : Course step s ds s') (h' : Course step s' ds' s'') : Course step s (ds ++ ds') s'' := by
  induction h' with
  | refl =>
    rw [List.append_nil]
    exact h
  | tail _ hs ih =>
    rw [← List.append_assoc]
    exact ih.tail hs

theorem map (f : σ → τ) (hf : ∀ s d s', step s d s' → step' (f s) d (f s')) (h : Course step s ds s') :
    Course step' (f s) ds (f s') := by
  induction h with
  | refl => exact .refl
  | tail _ hs ih => exact ih.tail (hf _ _ _ hs)

/-- Controllers can make any moves where each single move is a step. -/
theorem moves (place : Controls → σ) (label : Move → δ)
    (hmove : ∀ m c, step (place c) (label m) (place (m.act c))) (ms : List Move) (c : Controls) :
    Course step (place c) (ms.map label) (place (Move.play ms c)) := by
  induction ms using List.reverseRecOn with
  | nil => exact .refl
  | append_singleton ms m ih =>
    have hplay : Move.play (ms ++ [m]) c = m.act (Move.play ms c) := List.foldl_append
    rw [List.map_append, hplay]
    exact ih.tail (hmove m _)

end Course

end Apiary
