import Apiary.Host.Live
import Apiary.Host.Mind
import Apiary.Proofs.Script.Keeps

/-!
The single steps that a run takes at its desk. Whatever a host function does, it does in these steps, and
only a client that breaks down, or one of two calls, cuts it short without an error that scripts can catch.
-/

namespace Apiary

/-- What a run hands over to its client. -/
inductive Notice
  | log (entry : LogEntry)
  | plot (e : PlotEvent)
  | code (source : String)
  | checkpoint (c : ModelCheckpoint)
  | confirm (p : Prompt)

def Notice.event : Notice → RunEvent
  | log entry => .log entry
  | plot e => .plot e
  | code source => .codeUpdate source
  | checkpoint c => .ofCheckpoint c
  | confirm p => .confirmation p

variable {τ α β : Type}

def Sink.pass (k : Sink τ) : Notice → SinkAct τ Unit
  | .log entry => k.log entry
  | .plot e => k.plot e
  | .code source => k.code source
  | .checkpoint c => k.checkpoint c
  | .confirm p => do
    let _ ← k.confirm p {}

theorem Sink.pass_confirm (k : Sink τ) (p : Prompt) (s : Shared τ) :
    k.pass (.confirm p) s = match k.confirm p {} s with
      | .ok _ s' => .ok () s'
      | .error e s' => .error e s' := by
  simp only [Sink.pass, Bind.bind, EStateM.bind]
  cases k.confirm p {} s <;> rfl

theorem Controls.pop_none {c c' : Controls} (h : c.pop = (none, c')) : c' = c := by
  unfold pop at h
  split at h <;> cases h
  rfl

theorem Controls.pop_some {c c' : Controls} {signal : Signal} (h : c.pop = (some signal, c')) :
    c.signals = signal :: c'.signals ∧ c' = { c with signals := c'.signals } := by
  unfold pop at h
  split at h <;> cases h
  next hsignals => exact ⟨hsignals, rfl⟩

structure RunContext.Alike {μ : Type} (c c' : RunContext μ) : Prop where
  run : c'.run = c.run
  code : c'.code = c.code
  logs : c'.logs = c.logs
  prompts : c'.prompts = c.prompts

/-- What a run may say at a desk. A line carries the time at which it is told. -/
inductive Station.Says (st : Station τ) (d : Desk τ) : Notice → RunContext Nat → Prop
  | log (kind : LogKind) (message : String) :
    Says st d
      (.log (st.entry d.shared.client (RunContext.logId d.context.run (d.context.logs + 1)) kind message))
      { d.context with logs := d.context.logs + 1 }
  | plot (e : PlotEvent) : Says st d (.plot e) d.context
  | code (b : CodeBuffer) : Says st d (.code b.text) { d.context with code := b }
  | checkpoint (model path : String) (image : Bytes) :
    Says st d (.checkpoint ⟨UInt64.ofNat d.context.run, model, path, image⟩) d.context
  | confirm (message : String) :
    Says st d
      (.confirm ⟨UInt64.ofNat d.context.run, RunContext.promptId d.context.run (d.context.prompts + 1), message⟩)
      { d.context with prompts := d.context.prompts + 1 }

namespace Desk

/-- One step, with the signals that the script reads in it. -/
inductive Step (st : Station τ) (d : Desk τ) : List Signal → Desk τ → Prop
  | quiet {c : RunContext Nat} : d.context.Alike c → Step st d [] ⟨c, d.shared⟩
  | meanwhile : Step st d [] ⟨d.context, st.sink.meanwhile d.shared⟩
  | read {signal : Signal} {c : Controls} : d.shared.controls.pop = (some signal, c) →
    Step st d [signal] ⟨d.context, ⟨c, d.shared.client⟩⟩
  | tell {n : Notice} {c : RunContext Nat} {s : Shared τ} :
    st.Says d n c → st.sink.pass n d.shared = .ok () s → Step st d [] ⟨c, s⟩

inductive Path (st : Station τ) (d : Desk τ) : List Signal → Desk τ → Prop
  | refl : Path st d [] d
  | tail {read next : List Signal} {d' d'' : Desk τ} :
    Path st d read d' → Step st d' next d'' → Path st d (read ++ next) d''

theorem Path.trans {st : Station τ} {d d' d'' : Desk τ} {read next : List Signal} (h : Path st d read d')
    (h' : Path st d' next d'') : Path st d (read ++ next) d'' := by
  induction h' with
  | refl =>
    rw [List.append_nil]
    exact h
  | tail _ hs ih =>
    rw [← List.append_assoc]
    exact ih.tail hs

def Reaches (st : Station τ) (d d' : Desk τ) : Prop := ∃ read, Path st d read d'

namespace Reaches

variable {st : Station τ} {d d' d'' : Desk τ} {next : List Signal}

theorem refl : Reaches st d d := ⟨[], .refl⟩

theorem tail (h : Reaches st d d') (hs : Step st d' next d'') : Reaches st d d'' := by
  obtain ⟨read, hp⟩ := h
  exact ⟨_, hp.tail hs⟩

theorem single (hs : Step st d next d') : Reaches st d d' := refl.tail hs

theorem trans (h : Reaches st d d') (h' : Reaches st d' d'') : Reaches st d d'' := by
  obtain ⟨read, hp⟩ := h
  obtain ⟨next, hp'⟩ := h'
  exact ⟨_, hp.trans hp'⟩

end Reaches

def Breaks (st : Station τ) (d : Desk τ) (s : Shared τ) : Prop :=
  ∃ n c, st.Says d n c ∧ st.sink.pass n d.shared = .error () s

end Desk

def Interrupt.Plain : Interrupt → Prop
  | .stopped | .error _ _ | .endless _ => True
  | .fault | .overlap _ _ | .reentry _ _ | .oversleep _ => False

inductive Desk.Ends (st : Station τ) (trip : Store (Desk τ) → Interrupt → Prop) (d : Desk τ) :
    Interrupt → Store (Desk τ) → Prop
  | plain {e : Interrupt} {s : Store (Desk τ)} : e.Plain → Reaches st d s.host → Ends st trip d e s
  | trip {e : Interrupt} {s : Store (Desk τ)} :
    trip s e → Reaches st d s.host → Ends st trip d e s
  | broken {d' : Desk τ} {s : Store (Desk τ)} :
    Reaches st d d' → Breaks st d' s.host.shared → Ends st trip d .fault s

namespace Desk.Ends

variable {st : Station τ} {trip trip' : Store (Desk τ) → Interrupt → Prop} {d d' : Desk τ} {e : Interrupt}
  {s : Store (Desk τ)}

theorem after (hd : Reaches st d d') (h : Ends st trip d' e s) : Ends st trip d e s := by
  cases h with
  | plain he hs => exact .plain he (hd.trans hs)
  | trip he hs => exact .trip he (hd.trans hs)
  | broken hs hb => exact .broken (hd.trans hs) hb

theorem mono (h : Ends st trip d e s) (ht : ∀ s e, trip s e → trip' s e) : Ends st trip' d e s := by
  cases h with
  | plain he hs => exact .plain he hs
  | trip he hs => exact .trip (ht _ _ he) hs
  | broken hs hb => exact .broken hs hb

end Desk.Ends

def DeskAct.Traced (st : Station τ) (trip : Store (Desk τ) → Interrupt → Prop) (a : DeskAct τ α) : Prop :=
  ∀ s, Leads (fun _ s' => Desk.Reaches st s.host s'.host) (Desk.Ends st trip s.host) (a s)

/-- What an act may do that most acts do not: break a run by itself, and read signals. -/
structure DeskAct.Leave (τ : Type) where
  trip : Store (Desk τ) → Interrupt → Prop
  reads : Prop

def Desk.Walks (st : Station τ) (reads : Prop) (d d' : Desk τ) : Prop :=
  ∃ read, Path st d read d' ∧ (read = [] ∨ reads)

namespace Desk.Walks

variable {st : Station τ} {reads : Prop} {d d' d'' : Desk τ}

theorem refl : Walks st reads d d := ⟨[], .refl, .inl rfl⟩

theorem trans (h : Walks st reads d d') (h' : Walks st reads d' d'') : Walks st reads d d'' := by
  obtain ⟨read, hp, hread⟩ := h
  obtain ⟨next, hp', hnext⟩ := h'
  refine ⟨read ++ next, hp.trans hp', ?_⟩
  rcases hread with rfl | hr
  · exact hnext
  · exact .inr hr

theorem single (hs : Step st d [] d') : Walks st reads d d' := ⟨[], Path.refl.tail hs, .inl rfl⟩

theorem tail (h : Walks st reads d d') (hs : Step st d' [] d'') : Walks st reads d d'' :=
  h.trans (single hs)

theorem reading {read : List Signal} (hr : reads) (hs : Step st d read d') : Walks st reads d d' :=
  ⟨read, Path.refl.tail hs, .inr hr⟩

theorem reaches (h : Walks st reads d d') : Reaches st d d' := by
  obtain ⟨read, hp, -⟩ := h
  exact ⟨read, hp⟩

theorem silent (h : Walks st reads d d') (hr : ¬ reads) : Path st d [] d' := by
  obtain ⟨read, hp, hread⟩ := h
  rcases hread with rfl | hreads
  · exact hp
  · exact absurd hreads hr

end Desk.Walks

inductive Desk.Halts (st : Station τ) (leave : DeskAct.Leave τ) (d : Desk τ) :
    Interrupt → Store (Desk τ) → Prop
  | plain {e : Interrupt} {s : Store (Desk τ)} :
    e.Plain → Walks st leave.reads d s.host → Halts st leave d e s
  | trip {e : Interrupt} {s : Store (Desk τ)} :
    leave.trip s e → Walks st leave.reads d s.host → Halts st leave d e s
  | broken {d' : Desk τ} {s : Store (Desk τ)} :
    Walks st leave.reads d d' → Breaks st d' s.host.shared → Halts st leave d .fault s

namespace Desk.Halts

variable {st : Station τ} {leave : DeskAct.Leave τ} {d d' : Desk τ} {e : Interrupt} {s : Store (Desk τ)}

theorem after (hd : Walks st leave.reads d d') (h : Halts st leave d' e s) : Halts st leave d e s := by
  cases h with
  | plain he hs => exact .plain he (hd.trans hs)
  | trip he hs => exact .trip he (hd.trans hs)
  | broken hs hb => exact .broken (hd.trans hs) hb

theorem ends (h : Halts st leave d e s) : Ends st leave.trip d e s := by
  cases h with
  | plain he hs => exact .plain he hs.reaches
  | trip he hs => exact .trip he hs.reaches
  | broken hs hb => exact .broken hs.reaches hb

end Desk.Halts

/-- An act that works in single steps at the desk, within its leave. -/
def DeskAct.Stepwise (st : Station τ) (leave : DeskAct.Leave τ) (a : DeskAct τ α) : Prop :=
  ∀ s, Leads (fun _ s' => Desk.Walks st leave.reads s.host s'.host) (Desk.Halts st leave s.host) (a s)

theorem DeskAct.Stepwise.traced {st : Station τ} {leave : DeskAct.Leave τ} {a : DeskAct τ α}
    (ha : Stepwise st leave a) : Traced st leave.trip a :=
  fun s => (ha s).mono (fun _ _ h => h.reaches) fun _ _ h => h.ends

namespace DeskAct.Stepwise

variable {st : Station τ} {leave : DeskAct.Leave τ}

theorem ret (x : α) : Stepwise st leave (pure x) := fun _ => .ok .refl

theorem bind {a : DeskAct τ α} {f : α → DeskAct τ β} (ha : Stepwise st leave a)
    (hf : ∀ x, Stepwise st leave (f x)) : Stepwise st leave (a >>= f) := by
  intro s
  refine (ha s).bind fun x v hv => ?_
  exact (hf x v).mono (fun _ _ hw => hv.trans hw) fun _ _ hw => hw.after hv

theorem steady {a : DeskAct τ α} (ha : ∀ s, ∃ x v, a s = .ok x v ∧ Desk.Walks st leave.reads s.host v.host) :
    Stepwise st leave a := by
  intro s
  obtain ⟨x, v, hv, hp⟩ := ha s
  rw [hv]
  exact .ok hp

theorem plain {e : Interrupt} (he : e.Plain) : Stepwise st leave (throw e : DeskAct τ α) :=
  fun _ => .error (.plain he .refl)

theorem alloc (f : Heap → α × Heap) : Stepwise st leave (HostAct.alloc f) :=
  steady fun _ => ⟨_, _, rfl, .refl⟩

theorem after_look {I : β → Store (Desk τ) → Prop} {E : Interrupt → Store (Desk τ) → Prop}
    {f : Heap → α} {g : α → DeskAct τ β} {s : Store (Desk τ)} (h : Leads I E (g (f s.heap) s)) :
    Leads I E ((HostAct.look f >>= g) s) := h

theorem convert_same (values : List Value) (f : Heap → Option α) (s : Store (Desk τ)) :
    Leads (fun _ s' => s' = s) (Desk.Halts st leave s.host) (HostAct.convert values f s) := by
  unfold HostAct.convert
  split
  · exact .ok rfl
  · exact .error (.plain trivial .refl)

theorem convert (values : List Value) (f : Heap → Option α) :
    Stepwise st leave (HostAct.convert values f) := by
  intro s
  refine (convert_same values f s).mono (fun _ s' hs => ?_) fun _ _ hs => hs
  subst hs
  exact .refl

theorem context : Stepwise st leave context := steady fun _ => ⟨_, _, rfl, .refl⟩

theorem ofClient (f : τ → α) : Stepwise st leave (ofClient f) := steady fun _ => ⟨_, _, rfl, .refl⟩

theorem served : Stepwise st leave st.served := ofClient st.files

theorem setContext {f : RunContext Nat → α × RunContext Nat} (hf : ∀ c : RunContext Nat, c.Alike (f c).2) :
    Stepwise st leave (setContext f) :=
  steady fun s => ⟨_, _, rfl, .single (.quiet (hf s.host.context))⟩

theorem meanwhile : Stepwise st leave (meanwhile st) :=
  steady fun _ => ⟨_, _, rfl, .single .meanwhile⟩

theorem time : Stepwise st leave (time st) := meanwhile.bind fun _ => ofClient st.clock.now

theorem isRunning : Stepwise st leave (isRunning st) :=
  meanwhile.bind fun _ => steady fun _ => ⟨_, _, rfl, .refl⟩

theorem popSignal (hr : leave.reads) : Stepwise st leave (controls Controls.pop) := by
  rintro ⟨heap, c, controls, client⟩
  unfold DeskAct.controls DeskAct.tell
  cases h : controls.pop with
  | mk signal controls' =>
    cases signal with
    | none =>
      simp only [h, Controls.pop_none h]
      exact .ok .refl
    | some signal =>
      simp only [h]
      exact .ok (.reading hr (.read h))

theorem emit (kind : LogKind) (message : String) : Stepwise st leave (st.emit kind message) := by
  rintro ⟨heap, c, s⟩
  have hsay : st.Says ⟨c, s⟩ _ _ := .log kind message
  simp only [Station.emit, Station.line, DeskAct.setContext, DeskAct.tell, Bind.bind, EStateM.bind]
  cases h : st.sink.log (st.entry s.client (RunContext.logId c.run (c.logs + 1)) kind message) s with
  | ok x s' => exact .ok (.single (.tell hsay h))
  | error x s' => exact .error (.broken .refl ⟨_, _, hsay, h⟩)

theorem tellPlot (e : PlotEvent) : Stepwise st leave (tell (st.sink.plot e)) := by
  rintro ⟨heap, c, s⟩
  simp only [DeskAct.tell]
  cases h : st.sink.plot e s with
  | ok x s' => exact .ok (.single (.tell (.plot e) h))
  | error x s' => exact .error (.broken .refl ⟨_, _, .plot e, h⟩)

theorem tellCheckpoint (model path : String) (image : Bytes) :
    Stepwise st leave (do
      let c ← DeskAct.context
      tell (st.sink.checkpoint ⟨UInt64.ofNat c.run, model, path, image⟩)) := by
  rintro ⟨heap, c, s⟩
  simp only [DeskAct.context, DeskAct.tell, Bind.bind, EStateM.bind]
  cases h : st.sink.checkpoint ⟨UInt64.ofNat c.run, model, path, image⟩ s with
  | ok x s' => exact .ok (.single (.tell (.checkpoint model path image) h))
  | error x s' => exact .error (.broken .refl ⟨_, _, .checkpoint model path image, h⟩)

theorem ask (message : String) : Stepwise st leave (ask st message) := by
  rintro ⟨heap, c, s⟩
  have hsay : st.Says ⟨c, s⟩ _ _ := .confirm message
  simp only [DeskAct.ask, DeskAct.setContext, DeskAct.tell, Bind.bind, EStateM.bind]
  cases h : st.sink.confirm
      ⟨UInt64.ofNat c.run, RunContext.promptId c.run (c.prompts + 1), message⟩ {} s with
  | ok x s' => exact .ok (.single (.tell hsay (by rw [Sink.pass_confirm, h])))
  | error x s' => exact .error (.broken .refl ⟨_, _, hsay, by rw [Sink.pass_confirm, h]⟩)

theorem adopt (code : CodeBuffer) : Stepwise st leave (adopt st (pure ()) code) := by
  rintro ⟨heap, c, s⟩
  simp only [DeskAct.adopt, DeskAct.modifyContext, DeskAct.setContext, DeskAct.tell, Bind.bind, EStateM.bind,
    pure, EStateM.pure]
  cases h : st.sink.code code.text s with
  | ok x s' => exact .ok (.single (.tell (.code code) h))
  | error x s' => exact .error (.broken .refl ⟨_, _, .code code, h⟩)

-- The text is taken over before the line is told, which makes no difference to the line.
theorem adoptNoted (kind : LogKind) (message : String) (code : CodeBuffer) :
    Stepwise st leave (DeskAct.adopt st (st.emit kind message) code) := by
  rintro ⟨heap, c, s⟩
  have hsay : st.Says ⟨c, s⟩ _ _ := .log kind message
  simp only [DeskAct.adopt, Station.emit, Station.line, DeskAct.modifyContext, DeskAct.setContext, DeskAct.tell,
    Bind.bind, EStateM.bind]
  cases h : st.sink.log (st.entry s.client (RunContext.logId c.run (c.logs + 1)) kind message) s with
  | error x s' => exact .error (.broken .refl ⟨_, _, hsay, h⟩)
  | ok x s' =>
    have hlog : Desk.Walks st leave.reads ⟨c, s⟩ ⟨{ c with logs := c.logs + 1 }, s'⟩ := .single (.tell hsay h)
    dsimp only
    cases h' : st.sink.code code.text s' with
    | ok x s'' => exact .ok (hlog.tail (.tell (.code code) h'))
    | error x s'' => exact .error (.broken hlog ⟨_, _, .code code, h'⟩)

end DeskAct.Stepwise

end Apiary
