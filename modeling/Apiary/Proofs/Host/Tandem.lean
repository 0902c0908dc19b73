import Apiary.Proofs.Host.Inherited
import Apiary.Proofs.Script.Tandem

/-!
A run on a used engine beside the same run on a fresh one: their desks differ in the number of the run alone. A
client that treats the two alike makes every host function answer both alike.
-/

namespace Apiary

open DeskAct

/-- What two runs tell their clients, the same but for the number of the run and the ids made of it. -/
inductive Notice.Renumbered (run run' : Nat) : Notice → Notice → Prop
  | log (mark time : String) (kind : LogKind) (message : String) :
    Renumbered run run' (.log ⟨toString run ++ "-" ++ mark, time, kind, message⟩)
      (.log ⟨toString run' ++ "-" ++ mark, time, kind, message⟩)
  | plot (e : PlotEvent) : Renumbered run run' (.plot e) (.plot e)
  | code (source : String) : Renumbered run run' (.code source) (.code source)
  | checkpoint (model path : String) (image : Bytes) :
    Renumbered run run' (.checkpoint ⟨UInt64.ofNat run, model, path, image⟩)
      (.checkpoint ⟨UInt64.ofNat run', model, path, image⟩)
  | confirm (n : Nat) (message : String) :
    Renumbered run run' (.confirm ⟨UInt64.ofNat run, RunContext.promptId run n, message⟩)
      (.confirm ⟨UInt64.ofNat run', RunContext.promptId run' n, message⟩)

def Controls.after (earlier : Nat) (c : Controls) : Controls := { c with run := earlier + c.run }

theorem Controls.pop_after (earlier : Nat) (c : Controls) :
    (c.after earlier).pop = (c.pop.1, c.pop.2.after earlier) := by
  obtain ⟨running, phase, run, signals⟩ := c
  cases signals <;> rfl

variable {τ α : Type} {st : Station τ} {earlier : Nat} {same : τ → τ → Prop}

structure Shared.Twin (earlier : Nat) (same : τ → τ → Prop) (s s' : Shared τ) : Prop where
  controls : s.controls = s'.controls.after earlier
  client : same s.client s'.client

inductive Desk.Twin (earlier : Nat) (same : τ → τ → Prop) : Desk τ → Desk τ → Prop
  | mk {c : RunContext Nat} {s s' : Shared τ} : Shared.Twin earlier same s s' →
    Twin earlier same ⟨{ c with run := earlier + 1 }, s⟩ ⟨{ c with run := 1 }, s'⟩

/-- A client that treats a run alike whether `earlier` runs went before it or none. The relation says which
clients of the two runs count as alike; what it leaves out has no bearing on what they do. -/
structure Station.EvenHanded (st : Station τ) (earlier : Nat) (same : τ → τ → Prop) : Prop where
  files {x x' : τ} : same x x' → st.files x = st.files x'
  now {x x' : τ} : same x x' → st.clock.now x = st.clock.now x'
  horizon {x x' : τ} : same x x' → st.clock.horizon x = st.clock.horizon x'
  pass {n n' : Notice} : n.Renumbered (earlier + 1) 1 n' →
    Tandem (Shared.Twin earlier same) (st.sink.pass n) (st.sink.pass n')
  confirm {p p' : Prompt} : (Notice.confirm p).Renumbered (earlier + 1) 1 (.confirm p') →
    Tandem (Shared.Twin earlier same) (st.sink.confirm p {}) (st.sink.confirm p' {})
  meanwhile {s s' : Shared τ} : Shared.Twin earlier same s s' →
    Shared.Twin earlier same (st.sink.meanwhile s) (st.sink.meanwhile s')

theorem DeskAct.tell_tandem {a b : SinkAct τ α} (hab : Tandem (Shared.Twin earlier same) a b) :
    Tandem (Store.Twin (Desk.Twin earlier same)) (tell a) (tell b) := by
  rintro _ _ @⟨heap, _, _, @⟨c, s, s', hs⟩⟩
  have hr := hab s s' hs
  simp only [tell]
  generalize a s = r, b s' = r' at hr ⊢
  cases hr with
  | ok hs => exact .ok (.mk (.mk hs))
  | error hs => exact .error (.mk (.mk hs))

theorem DeskAct.controls_tandem {f : Controls → α × Controls}
    (hf : ∀ c, f (c.after earlier) = ((f c).1, (f c).2.after earlier)) :
    Tandem (Store.Twin (Desk.Twin earlier same)) (controls f : DeskAct τ α) (controls f) := by
  refine tell_tandem ?_
  rintro ⟨_, x⟩ ⟨c, x'⟩ ⟨rfl, hx⟩
  dsimp only
  rw [hf]
  exact .ok ⟨rfl, hx⟩

/-- An act that does the same on a used engine and on a fresh one. -/
def DeskAct.Even (earlier : Nat) (same : τ → τ → Prop) (a : DeskAct τ α) : Prop :=
  Tandem (Store.Twin (Desk.Twin earlier same)) a a

namespace Station.EvenHanded

theorem reads {f : τ → α} (hf : ∀ {x x' : τ}, same x x' → f x = f x') :
    Even earlier same (ofClient f) := by
  rintro _ _ ⟨⟨hs⟩⟩
  simp only [DeskAct.ofClient, hf hs.client]
  exact .ok (.mk (.mk hs))

variable (hst : st.EvenHanded earlier same)

include hst

theorem waits : Even earlier same (DeskAct.meanwhile st) :=
  tell_tandem fun _ _ hs => .ok (hst.meanwhile hs)

theorem tellsTime : Even earlier same (time st) := hst.waits.bind fun _ => reads hst.now

theorem lines (mark : String) (kind : LogKind) (message : String) :
    Tandem (Shared.Twin earlier same) (st.line (toString (earlier + 1) ++ "-" ++ mark) kind message)
      (st.line (toString 1 ++ "-" ++ mark) kind message) := by
  intro s s' hs
  have hlog := hst.pass (.log mark (clockText (st.clock.now s.client / 1000)) kind message) s s' hs
  simp only [Station.line, Station.entry]
  rw [← hst.now hs.client]
  exact hlog

theorem emits (kind : LogKind) (message : String) : Even earlier same (st.emit kind message) := by
  rintro _ _ @⟨heap, _, _, @⟨c, s, s', hs⟩⟩
  have hline := tell_tandem (hst.lines (toString (c.logs + 1)) kind message)
  simp only [Station.emit, setContext, Bind.bind, EStateM.bind, RunContext.logId]
  exact hline _ _ (.mk (.mk (c := { c with logs := c.logs + 1 }) hs))

theorem adopts {note : DeskAct τ Unit} (hnote : Even earlier same note) (code : CodeBuffer) :
    Even earlier same (adopt st note code) := by
  refine Tandem.bind ?_ fun _ => hnote.bind fun _ => tell_tandem (hst.pass (.code code.text))
  rintro _ _ @⟨heap, _, _, @⟨c, s, s', hs⟩⟩
  exact .ok (.mk (.mk (c := { c with code := code }) hs))

theorem inherited : Inherited st fun _ a => Even earlier same a where
  ret := .ret
  bind := .bind
  interrupt _ _ := .interrupt _
  convert values f := by
    rintro _ _ @⟨heap, _, _, hd⟩
    simp only [HostAct.convert]
    cases f heap with
    | none => exact .error (.mk hd)
    | some x => exact .ok (.mk hd)
  alloc f _ := by
    rintro _ _ ⟨hd⟩
    exact .ok (.mk hd)
  context {_ k} hk hn := by
    rintro _ _ @⟨heap, _, _, @⟨c, s, s', hs⟩⟩
    change Paired _ (k { c with run := earlier + 1 } _) (k { c with run := 1 } _)
    rw [hn c (earlier + 1), hn c 1]
    exact hk c _ _ (.mk (.mk hs))
  setContext {_ f} _ hn := by
    rintro _ _ @⟨heap, _, _, @⟨c, s, s', hs⟩⟩
    simp only [setContext]
    rw [hn c (earlier + 1), hn c 1]
    exact .ok (.mk (.mk hs))
  served := reads hst.files
  time := hst.tellsTime
  isRunning := hst.waits.bind fun _ => controls_tandem fun _ => rfl
  emit := hst.emits
  tellPlot e := tell_tandem (hst.pass (.plot e))
  tellCheckpoint model path image := by
    rintro _ _ ⟨⟨hs⟩⟩
    exact tell_tandem (hst.pass (.checkpoint model path image)) _ _ (.mk (.mk hs))
  ask message := by
    rintro _ _ @⟨heap, _, _, @⟨c, s, s', hs⟩⟩
    have hask := hst.confirm (.confirm (c.prompts + 1) message)
    exact tell_tandem hask _ _ (.mk (.mk (c := { c with prompts := c.prompts + 1 }) hs))
  adopt := hst.adopts (.ret _)
  adoptNoted kind message := hst.adopts (hst.emits kind message)

theorem remembers (args : List Value) : Even earlier same (remember args) := by
  have hP := hst.inherited
  refine hP.bind (hP.network? _) fun found => ?_
  cases found with
  | none => exact hP.ret _
  | some found =>
    refine hP.bind (hP.display _) fun key => hP.bind (hP.look _) fun shown => ?_
    split
    · exact .interrupt _
    · exact hP.bind (hP.json _) fun data => hP.bind (hP.setNetwork _ _) fun _ => hP.ret _

theorem readsSignal : Even earlier same (getSignal st) := by
  refine hst.waits.bind fun _ => ?_
  refine (controls_tandem (Controls.pop_after earlier)).bind fun signal => ?_
  split <;> exact .ret _

theorem sleeps (args : List Value) : Even earlier same (sleep st args) := by
  have hhorizon : Even earlier same (ofClient st.clock.horizon) := reads hst.horizon
  refine hst.inherited.bind (hst.inherited.number _) fun ms => ?_
  split
  · refine hst.inherited.bind hhorizon fun horizon => ?_
    split
    · exact .interrupt _
    · exact hst.waits.bind fun _ => .ret _
  · exact .ret _

theorem logLine (kind : LogKind) (message : String) :
    Tandem (Desk.Twin earlier same) (st.logLine kind message) (st.logLine kind message) := by
  intro d d' hd
  have hr := hst.emits kind message ⟨{}, d⟩ ⟨{}, d'⟩ (.mk hd)
  simp only [Station.logLine]
  generalize st.emit kind message ⟨{}, d⟩ = r, st.emit kind message ⟨{}, d'⟩ = r' at hr ⊢
  cases hr with
  | ok hs =>
    obtain ⟨hd⟩ := hs
    exact .ok hd
  | error hs =>
    obtain ⟨hd⟩ := hs
    exact .error hd

theorem goesOn : Tandem (Desk.Twin earlier same) st.goesOn st.goesOn := by
  rintro _ _ ⟨hs⟩
  have hs' := hst.meanwhile hs
  have hrunning := congrArg Controls.running hs'.controls
  simp only [Station.goesOn, hrunning]
  exact .ok (.mk hs')

theorem host : st.host.Even (Desk.Twin earlier same) where
  call f args := hst.inherited.call f args (fun _ => hst.remembers args) (fun _ => hst.readsSignal)
    fun _ => hst.sleeps args
  checkpoint := by
    refine hst.goesOn.bind fun running => ?_
    cases running with
    | true => exact .ret _
    | false => exact .interrupt _
  log line := hst.logLine .info line
  random := by
    rintro _ _ @⟨c, s, s', hs⟩
    exact ⟨rfl, .mk (c := { c with generator := c.generator.unit64.2 }) hs⟩
  clock := by
    rintro _ _ ⟨hs⟩
    exact hst.now hs.client

end Station.EvenHanded

end Apiary
