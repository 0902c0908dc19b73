import Apiary.Proofs.Engine.Lifecycle
import Apiary.Proofs.Host.Tandem

/-!
Runs of one engine do not show in each other. What a run tells its client and how it ends are the same whether
other runs went before it on the engine or none; only its number differs, and the ids that are made of it.
-/

namespace Apiary

open Incident

variable {τ : Type} {st : Station τ} {earlier : Nat} {same : τ → τ → Prop} {rounds : Nat} {seed : UInt64}
  {source : String} {c : Controls} {x x' : τ}

namespace Station.EvenHanded

variable (hst : st.EvenHanded earlier same)

include hst

section Run

theorem performs {steps : List (Controls → Controls)}
    (hsteps : ∀ step ∈ steps, ∀ c, step (c.after earlier) = (step c).after earlier) {s s' : Shared τ}
    (hs : Shared.Twin earlier same s s') :
    Shared.Twin earlier same (st.sink.perform steps s) (st.sink.perform steps s') := by
  induction steps generalizing s s' with
  | nil => exact hs
  | cons step rest ih =>
    obtain ⟨hstep, hrest⟩ := List.forall_mem_cons.mp hsteps
    refine ih hrest (hst.meanwhile ⟨?_, hs.client⟩)
    rw [hs.controls]
    exact hstep s'.controls

-- The queue and the flag are all that earlier runs can leave behind, and the first step clears the queue.
theorem starts (hphase : c.phase = .idle) (hflag : c.running = false) (hrun : c.run = earlier)
    (hx : same x x') : Shared.Twin earlier same (st.started ⟨c, x⟩) (st.started ⟨{}, x'⟩) := by
  have hcleared : c.clearQueue = (Controls.clearQueue {}).after earlier := by
    obtain ⟨running, phase, run, signals⟩ := c
    cases hphase
    cases hflag
    cases hrun
    rfl
  have hsteps : ∀ step ∈ [Controls.setFlag, Controls.begin],
      ∀ c, step (c.after earlier) = (step c).after earlier := by
    intro step hstep c
    rcases List.mem_pair.mp hstep with rfl | rfl <;> rfl
  exact hst.performs hsteps (hst.meanwhile ⟨hcleared, hx⟩)

theorem interprets (rounds : Nat) (p : Program) {d d' : Desk τ} (hd : Desk.Twin earlier same d d') :
    (st.interpret rounds p d).1 = (st.interpret rounds p d').1 ∧
      Desk.Twin earlier same (st.interpret rounds p d).2 (st.interpret rounds p d').2 := by
  have hstart : World.Twin (Desk.Twin earlier same) 0 (World.startWithHost d) (World.startWithHost d') := by
    rw [World.startWithHost_eq, World.startWithHost_eq]
    exact .mk hd
  obtain ⟨hending, hw⟩ := hst.host.program rounds p hstart
  refine ⟨hending, ?_⟩
  unfold interpret
  generalize p.run st.host rounds (World.startWithHost d) = r,
    p.run st.host rounds (World.startWithHost d') = r' at hw ⊢
  obtain ⟨ending, w⟩ := r
  obtain ⟨ending', w'⟩ := r'
  obtain ⟨hd⟩ := hw
  exact hd

theorem closes (ending : Ending) :
    Tandem (Desk.Twin earlier same) (st.close ending) (st.close ending) := by
  have hstopped : Tandem (Desk.Twin earlier same) (close.stopped st) (close.stopped st) :=
    (hst.logLine _ _).bind fun _ => (hst.logLine _ _).bind fun _ => .ret _
  cases ending with
  | completed =>
    refine hst.goesOn.bind fun running => ?_
    cases running with
    | true => exact (hst.logLine _ _).bind fun _ => .ret _
    | false => exact hstopped
  | stopped => exact hstopped
  | failed message thrown =>
    exact (hst.logLine _ _).bind fun _ => (hst.logLine _ _).bind fun _ => .ret _
  | broken | endless => exact .interrupt _

theorem executes (rounds : Nat) (source : String) :
    Tandem (Desk.Twin earlier same) (st.execute rounds source) (st.execute rounds source) := by
  intro d d' hd
  cases hp : parse source with
  | error e =>
    rw [execute_of_error st rounds hp, execute_of_error st rounds hp]
    exact (hst.logLine _ _).bind (fun _ => .ret _) d d' hd
  | ok p =>
    obtain ⟨hending, hd⟩ := hst.interprets rounds p hd
    rw [execute_eq st rounds hp, execute_eq st rounds hp, hending]
    refine (hst.closes _).bind (fun o => ?_) _ _ hd
    rintro _ _ ⟨hs⟩
    exact .ok (.mk hs)

theorem apologizes (message : String) :
    Tandem (Shared.Twin earlier same) (st.apologize message (earlier + 1)) (st.apologize message 1) := by
  have hmark (run : Nat) (mark : String) : toString run ++ ("-" ++ mark) = toString run ++ "-" ++ mark :=
    String.append_assoc.symm
  have habort := hst.lines "abort" .error (runtimeError message)
  have hend := hst.lines "end" .system finishedText
  rw [← hmark, ← hmark] at habort hend
  exact habort.bind fun _ => hend

theorem finishes (last : Phase) {s s' : Shared τ} (hs : Shared.Twin earlier same s s') :
    Shared.Twin earlier same (st.sink.perform (Controls.finishSteps last) s)
      (st.sink.perform (Controls.finishSteps last) s') := by
  refine hst.performs (fun step hstep c => ?_) hs
  simp only [Controls.finishSteps, List.mem_cons, List.not_mem_nil, or_false] at hstep
  rcases hstep with rfl | rfl | rfl <;> rfl

/-- The desks at which a run after `earlier` others and a first run start. -/
theorem desks {record : τ → List Incident} (hk : st.sink.Records record) (seed : UInt64) (source : String)
    (hphase : c.phase = .idle) (hflag : c.running = false) (hrun : c.run = earlier) (hx : same x x') :
    Desk.Twin earlier same (st.desk seed source ⟨c, x⟩) (st.desk seed source ⟨{}, x'⟩) := by
  have hused : (st.started ⟨c, x⟩).controls.run = c.run + 1 := desk_run hk seed source ⟨c, x⟩
  have hfresh : (st.started ⟨{}, x'⟩).controls.run = 1 := desk_run hk seed source ⟨{}, x'⟩
  have hs := hst.starts hphase hflag hrun hx
  unfold desk
  dsimp only
  rw [hused, hfresh, hrun]
  exact .mk (c := RunContext.new 0 source (Prng.ofSeed seed)) hs

end Run

end Station.EvenHanded

/-- Two runs of one script that come to the same: the same report but for its number, or the same failure after
the same work. -/
inductive Station.Agree (st : Station τ) (rounds : Nat) (seed : UInt64) (source : String)
    (alike : τ → τ → Prop) (s s' : Shared τ) : Prop
  | reported {r r' : RunReport} {u u' : Shared τ} :
    st.run rounds seed source s = .ok (r, u) → st.run rounds seed source s' = .ok (r', u') →
    r.outcome = r'.outcome → r.source = r'.source → alike u.client u'.client →
    Agree st rounds seed source alike s s'
  | failed {f : RunFailure} {e : Interrupt} {d d' : Desk τ} : (∀ n, f ≠ .alreadyRunning n) →
    st.run rounds seed source s = .error f → st.run rounds seed source s' = .error f →
    st.execute rounds source (st.desk seed source s) = .error e d →
    st.execute rounds source (st.desk seed source s') = .error e d' →
    alike d.shared.client d'.shared.client → Agree st rounds seed source alike s s'

namespace Station

variable {s : Shared τ} (hidle : s.controls.phase = .idle)

include hidle

theorem run_of_ok {outcome : RunOutcome} {text : String} {d : Desk τ}
    (h : st.execute rounds source (st.desk seed source s) = .ok (outcome, text) d) :
    st.run rounds seed source s =
      .ok (st.finish (st.desk seed source s).context.run outcome text d.shared) := by
  simp only [run, hidle, ne_eq, not_true_eq_false, if_false, h]

theorem run_of_endless {cause : Endless} {d : Desk τ}
    (h : st.execute rounds source (st.desk seed source s) = .error (.endless cause) d) :
    st.run rounds seed source s = .error .endless := by
  simp only [run, hidle, ne_eq, not_true_eq_false, if_false, h]

theorem run_of_error {e : Interrupt} {d : Desk τ} (he : ∀ cause, e ≠ .endless cause)
    (h : st.execute rounds source (st.desk seed source s) = .error e d) :
    st.run rounds seed source s = st.giveUp brokenMessage (st.desk seed source s).context.run source d.shared := by
  unfold run
  rw [if_neg (not_not.mpr hidle)]
  dsimp only
  rw [h]
  cases e with
  | endless cause => exact absurd rfl (he cause)
  | _ => rfl

end Station

theorem Station.EvenHanded.agrees {record : τ → List Incident} (hst : st.EvenHanded earlier same)
    (hk : st.sink.Records record) (rounds : Nat) (seed : UInt64) (source : String)
    (hphase : c.phase = .idle) (hflag : c.running = false) (hrun : c.run = earlier) (hx : same x x') :
    st.Agree rounds seed source same ⟨c, x⟩ ⟨{}, x'⟩ := by
  have hexecute := hst.executes rounds source _ _ (hst.desks hk seed source hphase hflag hrun hx)
  generalize hr : st.execute rounds source (st.desk seed source ⟨c, x⟩) = r,
    hr' : st.execute rounds source (st.desk seed source ⟨{}, x'⟩) = r' at hexecute
  cases hexecute with
  | @ok result d d' hd =>
    obtain ⟨hs⟩ := hd
    exact .reported (run_of_ok hphase hr) (run_of_ok rfl hr') rfl rfl (hst.finishes _ hs).client
  | @error e d d' hd =>
    obtain ⟨hs⟩ := hd
    by_cases he : ∃ cause, e = .endless cause
    · obtain ⟨cause, rfl⟩ := he
      exact .failed (f := .endless) nofun (run_of_endless hphase hr) (run_of_endless rfl hr') hr hr' hs.client
    · have he' : ∀ cause, e ≠ .endless cause := fun cause h => he ⟨cause, h⟩
      have hnumber : (st.desk seed source ⟨c, x⟩).context.run = earlier + 1 := by
        rw [desk_run hk, hrun]
      have hfirst : (st.desk seed source ⟨{}, x'⟩).context.run = 1 := desk_run hk _ _ _
      have hused := run_of_error hphase he' hr
      have hfresh := run_of_error rfl he' hr'
      rw [hnumber] at hused
      rw [hfirst] at hfresh
      have hlast := hst.apologizes brokenMessage _ _ hs
      unfold giveUp at hused hfresh
      generalize st.apologize brokenMessage (earlier + 1) _ = a, st.apologize brokenMessage 1 _ = a' at hlast hused hfresh
      cases hlast with
      | ok hs => exact .reported hused hfresh rfl rfl (hst.finishes _ hs).client
      | error => exact .failed (f := .lost) nofun hused hfresh hr hr' hs.client

/-- What two clients have heard since they were as at first is the same but for the number of the run. -/
def HeardAlike (record : τ → List Incident) (run run' : Nat) (first first' x x' : τ) : Prop :=
  ∃ t t' ns ns', record x = record first ++ t ∧ record x' = record first' ++ t' ∧
    events t = ns.map Notice.event ∧ events t' = ns'.map Notice.event ∧
    List.Forall₂ (Notice.Renumbered run run') ns ns'

theorem HeardAlike.grow {record : τ → List Incident} {run run' : Nat} {first first' : τ}
    {s s' v v' : Shared τ} {t t' : List Incident} {ns ns' : List Notice}
    (h : HeardAlike record run run' first first' s.client s'.client) (ht : Shared.Grows record t s v)
    (ht' : Shared.Grows record t' s' v') (hns : events t = ns.map Notice.event)
    (hns' : events t' = ns'.map Notice.event) (hsame : List.Forall₂ (Notice.Renumbered run run') ns ns') :
    HeardAlike record run run' first first' v.client v'.client := by
  obtain ⟨u, u', ms, ms', hu, hu', hms, hms', hforall⟩ := h
  refine ⟨u ++ t, u' ++ t', ms ++ ns, ms' ++ ns', ?_, ?_, ?_, ?_, List.rel_append hforall hsame⟩
  · rw [ht.1, hu, List.append_assoc]
  · rw [ht'.1, hu', List.append_assoc]
  · rw [events_append, hms, hns, List.map_append]
  · rw [events_append, hms', hns', List.map_append]

theorem HeardAlike.pass {record : τ → List Incident} (hk : st.sink.Records record) {run run' : Nat}
    {first first' : τ} {n n' : Notice} (hn : n.Renumbered run run' n') {s s' : Shared τ}
    (h : HeardAlike record run run' first first' s.client s'.client) :
    HeardAlike record run run' first first' (Act.final (st.sink.pass n s)).client
      (Act.final (st.sink.pass n' s')).client := by
  obtain ⟨t, ht, hgrows⟩ := hk.pass n s
  obtain ⟨t', ht', hgrows'⟩ := hk.pass n' s'
  have hns : events t = [n].map Notice.event := ht
  have hns' : events t' = [n'].map Notice.event := ht'
  exact h.grow hgrows hgrows' hns hns' (.cons hn .nil)

theorem Paired.mono {ε S α : Type} {P Q : S → S → Prop} {r r' : EStateM.Result ε S α} (h : Paired P r r')
    (hq : P (Act.final r) (Act.final r') → Q (Act.final r) (Act.final r')) : Paired Q r r' := by
  cases h with
  | ok h => exact .ok (hq h)
  | error h => exact .error (hq h)

theorem Sink.final_confirm (k : Sink τ) (p : Prompt) (s : Shared τ) :
    Act.final (k.confirm p {} s) = Act.final (k.pass (.confirm p) s) := by
  rw [pass_confirm]
  cases k.confirm p {} s <;> rfl

/-- A client that treats two runs alike also hears the same from them. -/
theorem Station.EvenHanded.heard {record : τ → List Incident} (hst : st.EvenHanded earlier same)
    (hk : st.sink.Records record) (first first' : τ) :
    st.EvenHanded earlier fun x x' =>
      same x x' ∧ HeardAlike record (earlier + 1) 1 first first' x x' where
  files h := hst.files h.1
  now h := hst.now h.1
  horizon h := hst.horizon h.1
  pass hn s s' hs :=
    (hst.pass hn s s' ⟨hs.controls, hs.client.1⟩).mono fun hv =>
      ⟨hv.controls, hv.client, hs.client.2.pass hk hn⟩
  confirm {p p'} hp s s' hs := by
    refine (hst.confirm hp s s' ⟨hs.controls, hs.client.1⟩).mono fun hv => ⟨hv.controls, hv.client, ?_⟩
    rw [Sink.final_confirm, Sink.final_confirm]
    exact hs.client.2.pass hk hp
  meanwhile {s s'} hs := by
    obtain ⟨t, ht, hgrows⟩ := hk.meanwhile s
    obtain ⟨t', ht', hgrows'⟩ := hk.meanwhile s'
    have hv := hst.meanwhile ⟨hs.controls, hs.client.1⟩
    have hns : events t = [].map Notice.event := ht
    have hns' : events t' = [].map Notice.event := ht'
    exact ⟨hv.controls, hv.client, hs.client.2.grow hgrows hgrows' hns hns' .nil⟩

/-- A run after any others on an engine agrees with the same run on a new engine, if its client treats them alike:
the same report but for its number, and the same told to the client but for the number and the ids made of it.
The others may have come to their reports in any way. -/
theorem Engine.Ran.run_as_first {rs : List RunReport} (hc : Engine.Ran c rs) {record : τ → List Incident}
    (hk : st.sink.Records record) (hst : st.EvenHanded rs.length same) (x x' : τ) (hx : same x x')
    (rounds : Nat) (seed : UInt64) (source : String) :
    (∀ r s, st.run rounds seed source ⟨c, x⟩ = .ok (r, s) → r.run = rs.length + 1) ∧
    (∀ r s, st.run rounds seed source ⟨{}, x'⟩ = .ok (r, s) → r.run = 1) ∧
    st.Agree rounds seed source
      (fun y y' => same y y' ∧ HeardAlike record (rs.length + 1) 1 x x' y y') ⟨c, x⟩ ⟨{}, x'⟩ := by
  obtain ⟨hphase, hflag, hruns⟩ := hc.between
  have hrun : c.run = rs.length := by
    have hlength := congrArg List.length hruns
    rw [List.length_map, List.length_range'] at hlength
    exact hlength.symm
  have hfirst : HeardAlike record (rs.length + 1) 1 x x' x x' :=
    ⟨[], [], [], [], (List.append_nil _).symm, (List.append_nil _).symm, rfl, rfl, .nil⟩
  refine ⟨fun r s hr => ?_, fun r s hr => ?_, ?_⟩
  · rw [(Station.run_controls hk hr).1, hrun]
  · exact (Station.run_controls hk hr).1
  · exact (hst.heard hk x x').agrees hk rounds seed source hphase hflag hrun ⟨hx, hfirst⟩

theorem Controllers.evenHanded (k : Controllers) (earlier : Nat)
    (hon : ∀ n n' : Notice, n.Renumbered (earlier + 1) 1 n' → k.on n.event = k.on n'.event)
    (hbreaks : ∀ n n' : Notice, n.Renumbered (earlier + 1) 1 n' → k.breaks n.event = k.breaks n'.event)
    (hmeanwhile : ∀ x x', k.meanwhile x = k.meanwhile x') :
    k.station.EvenHanded earlier fun _ _ => True := by
  have hplay (ms : List Move) (c : Controls) :
      Move.play ms (c.after earlier) = (Move.play ms c).after earlier := by
    simp only [Move.play_eq, Controls.after]
  have htake {n n' : Notice} (hn : n.Renumbered (earlier + 1) 1 n') :
      Tandem (Shared.Twin earlier fun _ _ => True) (k.take n.event) (k.take n'.event) := by
    rintro ⟨_, x⟩ ⟨c, x'⟩ ⟨rfl, -⟩
    simp only [take, hon n n' hn, hbreaks n n' hn]
    cases k.breaks n'.event with
    | true => exact .error ⟨hplay _ c, trivial⟩
    | false => exact .ok ⟨hplay _ c, trivial⟩
  refine ⟨fun _ => rfl, fun _ => rfl, fun _ => rfl, fun hn => ?_, fun hp => (htake hp).bind fun _ => .ret _, ?_⟩
  · cases hn with
    | log mark time kind message => exact htake (.log mark time kind message)
    | plot e => exact htake (.plot e)
    | code source => exact htake (.code source)
    | checkpoint model path image => exact htake (.checkpoint model path image)
    | confirm n message =>
      exact ((htake (.confirm n message)).bind fun _ => .ret _).bind fun _ => .ret _
  · rintro ⟨_, x⟩ ⟨c, x'⟩ ⟨rfl, -⟩
    simp only [station, sink]
    rw [hmeanwhile x x']
    exact ⟨hplay _ c, trivial⟩

def signalReader : String := "GB.Utils.log('go'); GB.Utils.log(GB.Control.getSignal());"

def Controllers.jolting : Controllers where
  on
    | .log entry => if entry.message = "go" then [.post .resume] else []
    | _ => []
  breaks
    | .log entry => entry.message = "boom"
    | _ => false

-- The earlier run is broken by its client, and a stop signal arrives between the runs.
theorem jolting_as_first :
    ∃ r₀ c x r s r' s', Engine.Ran c [r₀] ∧ r₀.outcome = .errored brokenMessage ∧ c.signals = [.stop] ∧
      Controllers.jolting.station.run 0 7 signalReader ⟨c, x⟩ = .ok (r, s) ∧
      Controllers.jolting.station.run 0 7 signalReader ⟨{}, []⟩ = .ok (r', s') ∧
      r.run = 2 ∧ r'.run = 1 ∧ r.outcome = r'.outcome ∧ HeardAlike id 2 1 x [] s.client s'.client := by
  have hbroken : (Controllers.jolting.station.run 0 7 "GB.Utils.log('boom');" ⟨{}, []⟩).toOption.map
      (fun (r, s) => (r.outcome, s.controls.signals)) = some (.errored brokenMessage, []) := by
    rw [Station.run_of_chars _ (rfl : "GB.Utils.log('boom');" = String.ofList _)]
    decide +kernel
  obtain ⟨r₀, s₀, hr₀, hresult⟩ := Station.ran_of_toOption_map hbroken
  obtain ⟨houtcome, hsignals⟩ := Prod.mk.inj hresult
  have hran : Engine.Ran (s₀.controls.append .stop) [r₀] :=
    .moved (.post .stop) (.run .new Controllers.jolting.records hr₀)
  have heven : Controllers.jolting.station.EvenHanded [r₀].length fun _ _ => True := by
    refine Controllers.jolting.evenHanded 1 ?_ ?_ fun _ _ => rfl
    all_goals
      intro n n' hn
      cases hn <;> rfl
  have hends : (Controllers.jolting.station.run 0 7 signalReader ⟨{}, []⟩).toOption.map (fun _ => ()) =
      some () := by
    rw [Station.run_of_chars _ (rfl : signalReader = String.ofList _)]
    decide +kernel
  obtain ⟨r₁, s₁, hr₁, -⟩ := Station.ran_of_toOption_map hends
  obtain ⟨hused, hfresh, hagree⟩ := hran.run_as_first Controllers.jolting.records heven s₀.client []
    trivial 0 7 signalReader
  cases hagree with
  | reported hr hr' ho _ halike =>
    exact ⟨r₀, _, _, _, _, _, _, hran, houtcome, by rw [Controls.append, hsignals]; rfl, hr, hr',
      hused _ _ hr, hfresh _ _ hr', ho, halike.2⟩
  | failed _ _ hr' => cases hr'.symm.trans hr₁

end Apiary
