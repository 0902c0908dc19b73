import Apiary.Proofs.Engine.Report

/-!
Stop signals on their way to a run. A controller lowers the flag first and posts the signal in a step of its
own, and a run clears the queue before it raises the flag: a signal that is there while the flag is up was
under way when the run started.
-/

namespace Apiary

open Incident RunEvent

/-- What any number of controllers do, with the number of stop signals that are under way: lowered for, and
not yet posted. -/
inductive Move.Underway : List Move → Nat → Prop
  | none : Underway [] 0
  | stop {ms : List Move} {n : Nat} : Underway ms n → Underway (ms ++ [stop]) n
  | lower {ms : List Move} {n : Nat} : Underway ms n → Underway (ms ++ [lower]) (n + 1)
  | arrive {ms : List Move} {n : Nat} : Underway ms (n + 1) → Underway (ms ++ [post .stop]) n
  | post {ms : List Move} {n : Nat} {s : Signal} : s ≠ .stop → Underway ms n → Underway (ms ++ [post s]) n

namespace Move

theorem Underway.push {ms : List Move} {n : Nat} (h : Underway ms n) (s : Signal) :
    Underway (ms ++ ofPush s) n := by
  unfold ofPush
  split
  · have hpush := h.lower.arrive
    rwa [List.append_assoc] at hpush
  · next hs => exact h.post hs

theorem Underway.count_eq {ms : List Move} {n : Nat} (h : Underway ms n) :
    (posts ms).count .stop + n = ms.count .lower := by
  induction h with
  | none => rfl
  | stop _ ih => simpa using ih
  | lower _ ih => simp; omega
  | arrive _ ih => simp; omega
  | post hs _ ih => simpa [hs] using ih

theorem Underway.arrivals {ms ms' : List Move} {k n : Nat} (h : Underway ms k)
    (h' : Underway (ms ++ ms') n) : (posts ms').count .stop + n = k + ms'.count .lower := by
  have hstart := h.count_eq
  have hall := h'.count_eq
  rw [posts_append, List.count_append, List.count_append] at hall
  omega

theorem count_lower {ms : List Move} (h : ms.any clears = false) : ms.count .lower = 0 := by
  refine List.count_eq_zero.mpr fun hlower => ?_
  rw [List.any_eq_true.mpr ⟨lower, hlower, rfl⟩] at h
  cases h

end Move

namespace Station

variable {τ : Type} {st : Station τ} {record : τ → List Incident} {seed : UInt64} {source : String}
  {s : Shared τ}

theorem path_grows (hk : st.sink.Records record) {a : List Incident}
    (ha : record (st.cleared s).client = record s.client ++ a) {read : List Signal} {d : Desk τ}
    (hp : Desk.Path st (st.desk seed source s) read d) :
    ∃ t, record d.shared.client = record s.client ++ (a ++ t) ∧
      read ++ d.shared.controls.signals = Move.posts (moves (a ++ t)) ∧
      d.shared.controls.running = !(moves t).any Move.clears := by
  obtain ⟨a', b, -, -, hra, hrb, hcontrols⟩ := started_grows hk s
  obtain rfl := List.append_cancel_left (ha.symm.trans hra)
  obtain ⟨t, ht⟩ := hp.passes hk
  have hrecord : record d.shared.client = record (st.started s).client ++ t := ht.record
  have hsignals : read ++ d.shared.controls.signals =
      (st.started s).controls.signals ++ Move.posts (moves t) := ht.signals
  have hrunning : d.shared.controls.running =
      ((st.started s).controls.running && !(moves t).any Move.clears) := ht.running
  rw [hcontrols] at hsignals hrunning
  refine ⟨b ++ t, ?_, ?_, ?_⟩
  · rw [hrecord, hrb, ha, List.append_assoc, List.append_assoc]
  · rw [hsignals]
    simp [Move.posts]
  · rw [hrunning, moves_append, List.any_append, Bool.not_or]

/-- While the flag is up, the stop signals that have come and those that are under way are those that were
under way when the flag was raised. -/
theorem arrived (hk : st.sink.Records record) {k n : Nat} {a : List Incident}
    (hs : Move.Underway (moves (record s.client)) k)
    (ha : record (st.cleared s).client = record s.client ++ a) {read : List Signal} {d : Desk τ}
    (hp : Desk.Path st (st.desk seed source s) read d)
    (hd : Move.Underway (moves (record d.shared.client)) n) (hrunning : d.shared.controls.running = true) :
    read.count .stop + d.shared.controls.signals.count .stop + n = k + (moves a).count .lower := by
  obtain ⟨t, hrecord, hsignals, hflag⟩ := path_grows hk ha hp
  rw [hrunning] at hflag
  have hquiet : (moves t).any Move.clears = false := Bool.not_eq_true' _ |>.mp hflag.symm
  rw [hrecord, moves_append] at hd
  have harrivals := hs.arrivals hd
  rw [← hsignals, List.count_append, moves_append, List.count_append, Move.count_lower hquiet] at harrivals
  exact harrivals

theorem getSignal_path {store store' : Store (Desk τ)} {v : Value}
    (h : DeskAct.getSignal st store = .ok v store') :
    ∃ read, Desk.Path st store.host read store'.host ∧ (v = .string Signal.stop.text → read = [.stop]) := by
  obtain ⟨heap, c, s⟩ := store
  have hmeanwhile : Desk.Path st ⟨c, s⟩ [] ⟨c, st.sink.meanwhile s⟩ := Desk.Path.refl.tail .meanwhile
  simp only [DeskAct.getSignal, DeskAct.meanwhile, DeskAct.controls, DeskAct.tell, Bind.bind, EStateM.bind] at h
  cases hpop : (st.sink.meanwhile s).controls.pop with
  | mk signal controls =>
    rw [hpop] at h
    cases signal with
    | none =>
      cases h
      rw [Controls.pop_none hpop]
      exact ⟨[], hmeanwhile, fun hv => by cases hv⟩
    | some signal =>
      cases h
      refine ⟨[signal], hmeanwhile.tail (.read hpop), fun hv => ?_⟩
      have htext : signal.text = Signal.stop.text := Value.string.inj hv
      have hsignal := congrArg Signal.ofText? htext
      rw [Signal.ofText_text, Signal.ofText_text] at hsignal
      rw [Option.some.inj hsignal]

theorem interpret_path_of_ne (st : Station τ) (rounds : Nat) (p : Program) (d : Desk τ)
    (h : (st.interpret rounds p d).1 ≠ .broken) : Desk.Reaches st d (st.interpret rounds p d).2 := by
  have hpath := st.interpret_path rounds p d
  unfold interpret Program.run at h ⊢
  generalize Act.runProgram st.host rounds p (World.startWithHost d) = result at hpath h ⊢
  cases hpath with
  | ok hw => exact hw
  | error hw =>
    cases hw with
    | plain _ hw | trip _ hw => exact hw
    | broken => exact absurd rfl h

theorem completed_path {rounds : Nat} {s' : Shared τ} {r : RunReport} (hk : st.sink.Records record)
    (h : st.run rounds seed source s = .ok (r, s')) (ho : r.outcome = .completed) :
    ∃ p, parse source = .ok p ∧
      Desk.Reaches st (st.desk seed source s) (st.interpret rounds p (st.desk seed source s)).2 ∧
      (st.interpret rounds p (st.desk seed source s)).2.shared.controls.running = true := by
  obtain ⟨t, s₁, hreport, -⟩ := run_reports hk h
  cases hreport with
  | rejected => cases ho
  | aborted => cases ho
  | @closed p o t read d hp hx hcompile hrunning ht hlines =>
    refine ⟨p, hp, interpret_path_of_ne st rounds p _ fun hbroken => ?_, hrunning ho⟩
    rw [execute_eq st rounds hp, hbroken] at hx
    cases hx

theorem stop_delivered (hk : st.sink.Records record) (seed : UInt64) (source : String) {k : Nat}
    {a : List Incident} (hs : Move.Underway (moves (record s.client)) k)
    (ha : record (st.cleared s).client = record s.client ++ a) :
    (∀ read d n, Desk.Path st (st.desk seed source s) read d →
      Move.Underway (moves (record d.shared.client)) n →
      (Signal.stop ∈ read ∨ Signal.stop ∈ d.shared.controls.signals →
        d.shared.controls.running = false ∨ 0 < k + (moves a).count .lower) ∧
      (d.shared.controls.running = true →
        read.count .stop + d.shared.controls.signals.count .stop + n = k + (moves a).count .lower)) ∧
    (∀ args store store' n, Desk.Reaches st (st.desk seed source s) store.host →
      st.host.call .controlGetSignal args store = .ok (.string Signal.stop.text) store' →
      Move.Underway (moves (record store'.host.shared.client)) n →
      store'.host.shared.controls.running = false ∨ 0 < k + (moves a).count .lower) ∧
    ∀ rounds r s', st.run rounds seed source s = .ok (r, s') → r.outcome = .completed →
      ∃ p read, parse source = .ok p ∧
        Desk.Path st (st.desk seed source s) read (st.interpret rounds p (st.desk seed source s)).2 ∧
        ∀ n, Move.Underway
            (moves (record (st.interpret rounds p (st.desk seed source s)).2.shared.client)) n →
          Signal.stop ∈ read ∨ Signal.stop ∈
              (st.interpret rounds p (st.desk seed source s)).2.shared.controls.signals →
            0 < k + (moves a).count .lower := by
  have hpath (read : List Signal) (d : Desk τ) (n : Nat) (hp : Desk.Path st (st.desk seed source s) read d)
      (hd : Move.Underway (moves (record d.shared.client)) n)
      (hstop : Signal.stop ∈ read ∨ Signal.stop ∈ d.shared.controls.signals) :
      d.shared.controls.running = false ∨ 0 < k + (moves a).count .lower := by
    cases hrunning : d.shared.controls.running with
    | false => exact .inl rfl
    | true =>
      have harrived := arrived hk hs ha hp hd hrunning
      have hcount := hstop.imp List.count_pos_iff.mpr List.count_pos_iff.mpr
      exact .inr (by omega)
  refine ⟨fun read d n hp hd => ⟨hpath read d n hp hd, arrived hk hs ha hp hd⟩, ?_, ?_⟩
  · rintro args store store' n ⟨read, hp⟩ hsignal hd
    obtain ⟨next, hnext, hread⟩ := getSignal_path hsignal
    refine hpath (read ++ next) _ n (hp.trans hnext) hd (.inl ?_)
    rw [hread rfl]
    exact List.mem_append_right read (List.mem_singleton_self _)
  · intro rounds r s' hr ho
    obtain ⟨p, hparse, ⟨read, hp⟩, hrunning⟩ := completed_path hk hr ho
    refine ⟨p, read, hparse, hp, fun n hd hstop => ?_⟩
    rcases hpath read _ n hp hd hstop with hflag | hunderway
    · cases hrunning.symm.trans hflag
    · exact hunderway

end Station

/-- Controllers that queue a signal at each of the first two steps of a run, and stop it when it is active. -/
def Controllers.prompt : Controllers where
  meanwhile t := if t.length < 2 then [.post .pause] else if t.length = 2 then Move.ofPush .stop else []

theorem prompt_delivered :
    Signal.stop ∈ (Controllers.prompt.station.desk 7 ";" ⟨{}, []⟩).shared.controls.signals ∧
      (Controllers.prompt.station.desk 7 ";" ⟨{}, []⟩).shared.controls.running = false := by
  have hstop : Signal.stop ∈ (Controllers.prompt.station.desk 7 ";" ⟨{}, []⟩).shared.controls.signals := by
    decide +kernel
  have hmoves : moves (Controllers.prompt.station.desk 7 ";" ⟨{}, []⟩).shared.client =
      [.post .pause, .post .pause, .lower, .post .stop] := by
    decide +kernel
  have hpause : Move.Underway [.post .pause, .post .pause] 0 :=
    (Move.Underway.none.post (s := .pause) nofun).post (s := .pause) nofun
  have hunderway : ¬ 0 < 0 + (moves (Controllers.prompt.station.cleared ⟨{}, []⟩).client).count .lower := by
    decide +kernel
  have hdelivered := (Station.stop_delivered Controllers.prompt.records 7 ";" (s := ⟨{}, []⟩) .none
    (List.nil_append _).symm).1 [] _ 0 .refl (hmoves ▸ hpause.push .stop)
  exact ⟨hstop, (hdelivered.1 (.inr hstop)).resolve_right hunderway⟩

/-- A controller that lowered the flag before the run and posts its stop signal when the queue is cleared. -/
def Controllers.astride : Controllers where
  meanwhile t := if t.length = 1 then [.post .stop] else []

def Controllers.late : Controllers where
  on
    | .log entry => if entry.message = finishedText then Move.ofPush .stop else []
    | _ => []

def reading : String := "GB.Utils.log(GB.Control.getSignal());"

theorem astride_completes :
    (∃ r s, Controllers.astride.station.run 9 7 reading ⟨{}, [.moved .lower]⟩ = .ok (r, s) ∧
      Move.Underway (moves s.client) 0 ∧ r.outcome = .completed ∧
      (logs (events s.client)).map LogEntry.message = ["STOP", finishedText]) ∧
    ∃ r s, Controllers.late.station.run 0 7 ";" ⟨{}, []⟩ = .ok (r, s) ∧
      Move.Underway (moves s.client) 0 ∧ r.outcome = .completed ∧ s.controls.signals = [.stop] := by
  have hastride : (Controllers.astride.station.run 9 7 reading ⟨{}, [.moved .lower]⟩).toOption.map
      (fun (r, s) => (moves s.client, r.outcome, (logs (events s.client)).map LogEntry.message)) =
        some ([.lower, .post .stop], .completed, ["STOP", finishedText]) := by
    rw [Station.run_of_chars _ (rfl : reading = String.ofList _)]
    decide +kernel
  have hlate : (Controllers.late.station.run 0 7 ";" ⟨{}, []⟩).toOption.map
      (fun (r, s) => (moves s.client, r.outcome, s.controls.signals)) =
        some ([.lower, .post .stop], .completed, [.stop]) := by
    decide +kernel
  have hpush : Move.Underway [.lower, .post .stop] 0 := .arrive (.lower .none)
  constructor
  · obtain ⟨r, s, hr, hresult⟩ := Station.ran_of_toOption_map hastride
    obtain ⟨hmoves, hrest⟩ := Prod.mk.inj hresult
    obtain ⟨houtcome, hlogs⟩ := Prod.mk.inj hrest
    exact ⟨r, s, hr, hmoves ▸ hpush, houtcome, hlogs⟩
  · obtain ⟨r, s, hr, hresult⟩ := Station.ran_of_toOption_map hlate
    obtain ⟨hmoves, hrest⟩ := Prod.mk.inj hresult
    obtain ⟨houtcome, hsignals⟩ := Prod.mk.inj hrest
    exact ⟨r, s, hr, hmoves ▸ hpush, houtcome, hsignals⟩

end Apiary
