import Apiary.Proofs.Engine.Client
import Apiary.Proofs.Engine.Lifecycle
import Apiary.Proofs.Number.Digits
import Apiary.Proofs.Service.Board
import Mathlib.Data.List.Nodup

/-!
The ids that an engine gives out over its life: those of lines, which are texts, and those of prompts, which are
words. A run may end in any way, and a client may hear of it for as long as it likes; no id comes up twice.
-/

namespace Apiary

open Incident RunEvent

variable {τ : Type}

namespace RunEvent

def prompt? : RunEvent → Option Prompt
  | confirmation p => some p
  | _ => none

def prompts (es : List RunEvent) : List Prompt := es.filterMap prompt?

@[simp] theorem prompts_append (es es' : List RunEvent) : prompts (es ++ es') = prompts es ++ prompts es' :=
  List.filterMap_append

theorem logs_flatten (runs : List (List RunEvent)) : logs runs.flatten = (runs.map logs).flatten := by
  induction runs with
  | nil => rfl
  | cons es rest ih => rw [List.flatten_cons, logs_append, ih, List.map_cons, List.flatten_cons]

theorem prompts_flatten (runs : List (List RunEvent)) : prompts runs.flatten = (runs.map prompts).flatten := by
  induction runs with
  | nil => rfl
  | cons es rest ih => rw [List.flatten_cons, prompts_append, ih, List.map_cons, List.flatten_cons]

end RunEvent

/-- The id of a line, which names its run and a mark of its own. -/
def lineId (run : Nat) (mark : String) : String := toString run ++ "-" ++ mark

section Texts

theorem toList_toString (n : Nat) : (toString n).toList = decimalDigits n := String.toList_ofList

theorem isDigit_of_mem_decimalDigits {n : Nat} {c : Char} (h : c ∈ decimalDigits n) : c.isDigit = true :=
  Nat.isDigit_of_mem_toDigits (by decide) (by decide) h

theorem toString_injective : Function.Injective (toString : Nat → String) := by
  intro m n h
  have hdigits : decimalDigits m = decimalDigits n := by rw [← toList_toString, h, toList_toString]
  have hvalue := valueOf_decimalDigits m
  rw [hdigits, valueOf_decimalDigits] at hvalue
  exact (Option.some.inj hvalue).symm

-- No digit is a hyphen, so the digits in front of the first hyphen are the number of the run.
theorem lineId_inj {run run' : Nat} {mark mark' : String} (h : lineId run mark = lineId run' mark') :
    run = run' ∧ mark = mark' := by
  have hlist (n : Nat) (m : String) : (lineId n m).toList = decimalDigits n ++ '-' :: m.toList := by
    rw [lineId, String.toList_append, String.toList_append, toList_toString, List.append_assoc]
    rfl
  have hnumber (n : Nat) (m : String) : (lineId n m).toList.takeWhile Char.isDigit = decimalDigits n := by
    rw [hlist, List.takeWhile_append_of_pos fun c => isDigit_of_mem_decimalDigits]
    exact List.append_nil _
  have hrun : decimalDigits run = decimalDigits run' := by rw [← hnumber run mark, h, hnumber]
  have hmark : mark.toList = mark'.toList := by
    have hrest := congrArg String.toList h
    rw [hlist, hlist, hrun] at hrest
    exact List.tail_eq_of_cons_eq (List.append_cancel_left hrest)
  refine ⟨toString_injective ?_, String.toList_inj.mp hmark⟩
  rw [← String.toList_inj, toList_toString, hrun, toList_toString]

end Texts

namespace RunContext

variable {μ : Type} {c c' c'' : RunContext μ} {es es' : List RunEvent}

/-- The prompts of a stretch of a run are numbered on from those before it. -/
structure Asks (es : List RunEvent) (c c' : RunContext μ) : Prop where
  count : c'.prompts = c.prompts + (RunEvent.prompts es).length
  ids : (RunEvent.prompts es).map Prompt.id =
    (List.range' (c.prompts + 1) (RunEvent.prompts es).length).map (promptId c.run)

theorem Asks.refl (c : RunContext μ) : Asks [] c c := ⟨rfl, rfl⟩

theorem Asks.trans (hrun : c'.run = c.run) (h : Asks es c c') (h' : Asks es' c' c'') : Asks (es ++ es') c c'' where
  count := by rw [h'.count, h.count, prompts_append, List.length_append, Nat.add_assoc]
  ids := by
    have hids' := h'.ids
    rw [hrun, h.count] at hids'
    simp only [prompts_append, List.map_append, List.length_append, h.ids, hids']
    rw [← List.map_append, Nat.add_right_comm, List.range'_append_1]

end RunContext

namespace Desk

variable {st : Station τ} {record : τ → List Incident} {d d' d'' : Desk τ}

theorem asks_tell {n : Notice} {c : RunContext Nat} (hn : st.Says d n c) :
    d.context.Asks [n.event] c := by
  cases hn with
  | log | plot | code | checkpoint | confirm => exact ⟨rfl, rfl⟩

theorem Step.asks (hk : st.sink.Records record) {t : List Incident} {read : List Signal}
    (hs : Step st d read d') (ht : record d'.shared.client = record d.shared.client ++ t) :
    d.context.Asks (events t) d'.context := by
  cases hs with
  | @quiet c hc =>
    obtain rfl := List.append_right_eq_self.mp ht.symm
    exact ⟨hc.prompts, rfl⟩
  | read =>
    obtain rfl := List.append_right_eq_self.mp ht.symm
    exact .refl _
  | meanwhile =>
    obtain ⟨t', hevents, ht', -⟩ := hk.meanwhile d.shared
    obtain rfl := List.append_cancel_left (ht.symm.trans ht')
    rw [hevents]
    exact .refl _
  | tell hn hpass =>
    obtain ⟨t', hevents, ht', -⟩ := hk.pass_ok hpass
    obtain rfl := List.append_cancel_left (ht.symm.trans ht')
    rw [hevents]
    exact asks_tell hn

/-- What a stretch of a run tells, up to what the client breaks down over. -/
def Tells (record : τ → List Incident) (d d' : Desk τ) : Prop :=
  ∃ t read, Passes record t read d d' ∧ d.context.Asks (events t) d'.context

theorem covers_tells (hk : st.sink.Records record) : Covers st (Tells record) where
  refl := ⟨[], [], .refl _, .refl _⟩
  trans := by
    rintro d d' d'' ⟨t, read, ht, hasks⟩ ⟨t', read', ht', hasks'⟩
    refine ⟨t ++ t', read ++ read', ht.trans ht', ?_⟩
    rw [events_append]
    exact hasks.trans ht.run hasks'
  step := by
    intro d d' read hs
    obtain ⟨t, ht⟩ := hs.passes hk
    exact ⟨t, read, ht, hs.asks hk ht.record⟩
  broken := by
    intro d n c s hn hpass
    obtain ⟨t, hevents, ht⟩ := passes_tell hk hn
    rw [hpass] at ht
    refine ⟨t, [], ht, ?_⟩
    rw [hevents]
    exact asks_tell hn

end Desk

/-- The client hears of events, and the number of the run stays. -/
structure Shared.Hears (record : τ → List Incident) (es : List RunEvent) (s s' : Shared τ) : Prop where
  record : ∃ t, record s'.client = record s.client ++ t ∧ events t = es
  run : s'.controls.run = s.controls.run

theorem Shared.Hears.trans {record : τ → List Incident} {es es' : List RunEvent} {s s' s'' : Shared τ}
    (h : Hears record es s s') (h' : Hears record es' s' s'') : Hears record (es ++ es') s s'' := by
  obtain ⟨⟨t, ht, rfl⟩, hrun⟩ := h
  obtain ⟨⟨t', ht', rfl⟩, hrun'⟩ := h'
  exact ⟨⟨t ++ t', by rw [ht', ht, List.append_assoc], events_append t t'⟩, hrun'.trans hrun⟩

theorem Sink.Records.hears {k : Sink τ} {record : τ → List Incident} (hk : k.Records record) (n : Notice)
    (s : Shared τ) : Shared.Hears record [n.event] s (Act.final (k.pass n s)) := by
  obtain ⟨t, hevents, ht, hcontrols⟩ := hk.pass n s
  rw [Move.play_eq] at hcontrols
  exact ⟨⟨t, ht, hevents⟩, by rw [hcontrols]⟩

/-- What a client hears of one run: its numbered lines, then lines with marks, and its numbered prompts. -/
structure Told (run : Nat) (marks : List String) (es : List RunEvent) : Prop where
  lines : ∃ n, (logs es).map LogEntry.id = ((List.range' 1 n).map toString ++ marks).map (lineId run)
  prompts : (prompts es).map Prompt.id =
    (List.range' 1 (RunEvent.prompts es).length).map (RunContext.promptId run)

/-- The marks of the last lines of a run that broke down. -/
def lastMarks : List String := ["abort", "end"]

namespace Told

variable {run run' : Nat} {marks marks' : List String} {es es' : List RunEvent}

theorem append (h : Told run [] es) (hlines : (logs es').map LogEntry.id = marks.map (lineId run))
    (hprompts : RunEvent.prompts es' = []) : Told run marks (es ++ es') where
  lines := by
    obtain ⟨n, hn⟩ := h.lines
    refine ⟨n, ?_⟩
    rw [logs_append, List.map_append, hn, hlines, List.append_nil, List.map_append]
  prompts := by
    rw [prompts_append, hprompts, List.append_nil]
    exact h.prompts

theorem toString_not_mem_lastMarks (n : Nat) : toString n ∉ lastMarks := by
  have hdigits (mark : String) (hmark : toString n = mark) : ∀ c ∈ mark.toList, c.isDigit = true := by
    rw [← hmark, toList_toString]
    exact fun c => isDigit_of_mem_decimalDigits
  intro hmem
  rcases List.mem_pair.mp hmem with h | h
  · exact absurd (hdigits _ h 'a' (by decide)) (by decide)
  · exact absurd (hdigits _ h 'e' (by decide)) (by decide)

theorem nodup_lines (h : Told run marks es) (hmarks : marks <+: lastMarks) :
    ((logs es).map LogEntry.id).Nodup := by
  obtain ⟨n, hn⟩ := h.lines
  have hnumbers : ((List.range' 1 n).map toString).Nodup := (List.nodup_range' 1).map toString_injective
  have hlast : marks.Nodup := hmarks.sublist.nodup (by decide)
  have hapart : List.Disjoint ((List.range' 1 n).map toString) marks := by
    intro mark hnumber hmark
    obtain ⟨k, -, rfl⟩ := List.mem_map.mp hnumber
    exact toString_not_mem_lastMarks k (hmarks.subset hmark)
  rw [hn]
  exact (hnumbers.append hlast hapart).map fun _ _ hid => (lineId_inj hid).2

theorem disjoint_lines (h : Told run marks es) (h' : Told run' marks' es') (hne : run ≠ run') :
    List.Disjoint ((logs es).map LogEntry.id) ((logs es').map LogEntry.id) := by
  obtain ⟨n, hn⟩ := h.lines
  obtain ⟨n', hn'⟩ := h'.lines
  rw [hn, hn']
  intro id hid hid'
  obtain ⟨mark, -, rfl⟩ := List.mem_map.mp hid
  obtain ⟨mark', -, heq⟩ := List.mem_map.mp hid'
  exact hne (lineId_inj heq).1.symm

theorem of_mem_prompts (h : Told run marks es) {id : UInt64} (hid : id ∈ (RunEvent.prompts es).map Prompt.id) :
    ∃ n ≤ (RunEvent.prompts es).length, id = RunContext.promptId run n := by
  rw [h.prompts] at hid
  obtain ⟨n, hn, rfl⟩ := List.mem_map.mp hid
  have hrange := List.mem_range'_1.mp hn
  exact ⟨n, by omega, rfl⟩

theorem nodup_prompts (h : Told run marks es) (hrun : run < UInt32.size)
    (hes : (RunEvent.prompts es).length < UInt32.size) : ((RunEvent.prompts es).map Prompt.id).Nodup := by
  rw [h.prompts]
  refine (List.nodup_range' 1).map_on fun n hn m hm hid => ?_
  have hn := List.mem_range'_1.mp hn
  have hm := List.mem_range'_1.mp hm
  exact (RunContext.promptId_inj hrun (by omega) hrun (by omega) hid).2

theorem disjoint_prompts (h : Told run marks es) (h' : Told run' marks' es') (hne : run ≠ run')
    (hrun : run < UInt32.size) (hrun' : run' < UInt32.size) (hes : (RunEvent.prompts es).length < UInt32.size)
    (hes' : (RunEvent.prompts es').length < UInt32.size) :
    List.Disjoint ((RunEvent.prompts es).map Prompt.id) ((RunEvent.prompts es').map Prompt.id) := by
  intro id hid hid'
  obtain ⟨n, hn, rfl⟩ := h.of_mem_prompts hid
  obtain ⟨m, hm, heq⟩ := h'.of_mem_prompts hid'
  exact hne (RunContext.promptId_inj hrun (by omega) hrun' (by omega) heq).1

end Told

namespace Station

variable {st : Station τ} {record : τ → List Incident} {rounds : Nat} {seed : UInt64} {source : String}
  {s s' : Shared τ}

/-- What is left of a run that comes to no end of its own. If the client breaks down over the last lines, the run stays
active. -/
def givenUp (st : Station τ) (message : String) (run : Nat) (s : Shared τ) : Shared τ :=
  match st.apologize message run s with
  | .ok () s => st.sink.perform (Controls.finishSteps .errored) s
  | .error () s => s

/-- What a run leaves behind, whatever it comes to. One that does not end is cut off. -/
def left (st : Station τ) (rounds : Nat) (seed : UInt64) (source : String) (s : Shared τ)
    (refusal : Option String := none) : Shared τ :=
  let d := st.desk seed source s
  match refusal with
  | some reason => st.givenUp (unmannedMessage reason) d.context.run d.shared
  | none =>
    match st.execute rounds source d with
    | .ok (outcome, _) d' => st.sink.perform (Controls.finishSteps (lastPhase outcome)) d'.shared
    | .error (.endless _) d' => d'.shared
    | .error _ d' => st.givenUp brokenMessage d.context.run d'.shared

theorem left_of_refused {r : RunReport} {reason : String}
    (h : st.run rounds seed source s (some reason) = .ok (r, s')) :
    st.left rounds seed source s (some reason) = s' := by
  obtain ⟨s₁, hs₁, -, rfl⟩ := run_refused h
  have hleft : st.left rounds seed source s (some reason) =
      st.givenUp (unmannedMessage reason) (st.started s).controls.run (st.started s) := rfl
  rw [hleft, givenUp, hs₁]

theorem left_of_worked {r : RunReport} (h : st.run rounds seed source s = .ok (r, s')) :
    st.left rounds seed source s = s' := by
  obtain ⟨s₁, rfl, hrun, ⟨d, hd, rfl⟩ | ⟨houtcome, -, e, d, hd, hendless, habort⟩⟩ := run_eq_ok h
  · unfold left
    dsimp only
    rw [hd]
  · rw [hrun] at habort
    unfold left givenUp
    dsimp only
    rw [hd]
    split
    · next heq => cases heq
    · next heq =>
      cases heq
      exact absurd rfl (hendless _)
    · next heq =>
      cases heq
      rw [habort, houtcome]
      rfl

theorem left_of_run {r : RunReport} {refusal : Option String}
    (h : st.run rounds seed source s refusal = .ok (r, s')) : st.left rounds seed source s refusal = s' := by
  cases refusal with
  | some reason => exact left_of_refused h
  | none => exact left_of_worked h

theorem hears_finish (hk : st.sink.Records record) (last : Phase) (s : Shared τ) :
    Shared.Hears record [] s (st.sink.perform (Controls.finishSteps last) s) := by
  obtain ⟨t, hevents, ht, -, -, hrun⟩ := finish_grows hk last s
  exact ⟨⟨t, ht, hevents⟩, hrun⟩

theorem lineId_lastIds (run : Nat) : lastIds run = lastMarks.map (lineId run) := by
  simp only [lastIds, lastMarks, List.map_cons, List.map_nil, lineId, String.append_assoc]
  rfl

theorem givenUp_told (hk : st.sink.Records record) (message : String) (run : Nat) (s : Shared τ) :
    ∃ es marks, Shared.Hears record es s (st.givenUp message run s) ∧ marks <+: lastMarks ∧
      (logs es).map LogEntry.id = marks.map (lineId run) ∧ RunEvent.prompts es = [] := by
  have hids := lineId_lastIds run
  have habort := hk.hears (.log (st.abortEntry s.client message run)) s
  unfold givenUp apologize line
  simp only [Sink.pass, abortEntry, Bind.bind, EStateM.bind] at habort ⊢
  generalize st.sink.log (st.entry s.client (toString run ++ "-abort") .error (runtimeError message)) s = result
    at habort ⊢
  cases result with
  | error u s₁ => exact ⟨_, ["abort"], habort, by decide, congrArg (List.take 1) hids, rfl⟩
  | ok u s₁ =>
    have hend := hk.hears (.log (st.endEntry s₁.client run)) s₁
    simp only [Sink.pass, endEntry] at hend
    dsimp only
    generalize st.sink.log (st.entry s₁.client (toString run ++ "-end") .system finishedText) s₁ = result at hend ⊢
    cases result with
    | error u s₂ => exact ⟨_, lastMarks, habort.trans hend, List.prefix_rfl, hids, rfl⟩
    | ok u s₂ =>
      exact ⟨_, lastMarks, (habort.trans hend).trans (hears_finish hk .errored s₂), List.prefix_rfl, hids, rfl⟩

end Station

/-- One run is over, or cut off, and its client has heard of it. -/
def Shared.RunsOnce (record : τ → List Incident) (s s' : Shared τ) : Prop :=
  s'.controls.run = s.controls.run + 1 ∧ ∃ t marks, record s'.client = record s.client ++ t ∧
    marks <+: lastMarks ∧ Told (s.controls.run + 1) marks (events t)

namespace Station

variable {st : Station τ} {record : τ → List Incident} {s s' : Shared τ}

theorem tells_told {d d' : Desk τ} (hlogs : d.context.logs = 0) (hprompts : d.context.prompts = 0)
    (h : Desk.Tells record d d') :
    ∃ es, Shared.Hears record es d.shared d'.shared ∧ Told d.context.run [] es := by
  obtain ⟨t, read, ht, hasks⟩ := h
  have hids := hasks.ids
  rw [hprompts] at hids
  refine ⟨events t, ⟨⟨t, ht.record, rfl⟩, ht.number⟩, ⟨(logs (events t)).length, ?_⟩, hids⟩
  rw [numbered_of_passes hlogs ht, List.append_nil, List.map_map]
  rfl

theorem runsOnce_of_started (hk : st.sink.Records record) {es : List RunEvent} {marks : List String}
    (hs : Shared.Hears record es (st.started s) s') (hmarks : marks <+: lastMarks)
    (hes : Told (s.controls.run + 1) marks es) : Shared.RunsOnce record s s' := by
  obtain ⟨a, b, ha, hb, hra, hrb, hcontrols⟩ := started_grows hk s
  obtain ⟨⟨t, ht, rfl⟩, hrun⟩ := hs
  refine ⟨by rw [hrun, hcontrols], a ++ b ++ t, marks, ?_, hmarks, ?_⟩
  · rw [ht, hrb, hra, List.append_assoc, List.append_assoc, List.append_assoc]
  · rw [events_append, events_append, ha, hb]
    exact hes

theorem worked_runsOnce (hk : st.sink.Records record) (rounds : Nat) (seed : UInt64) (source : String)
    (s : Shared τ) : Shared.RunsOnce record s (st.left rounds seed source s) := by
  have hdesk := desk_run hk seed source s
  have hexecute := (Desk.covers_tells hk).execute rounds source (st.desk seed source s)
  unfold left
  dsimp only
  split
  · next outcome text d' hd =>
    obtain ⟨es, hes, htold⟩ := tells_told rfl rfl (hexecute.of_ok hd)
    have hfinished := hes.trans (hears_finish hk (lastPhase outcome) d'.shared)
    rw [List.append_nil] at hfinished
    rw [hdesk] at htold
    exact runsOnce_of_started hk hfinished List.nil_prefix htold
  · next cause d' hd =>
    obtain ⟨c, hc⟩ := hexecute.of_error hd
    obtain ⟨es, hes, htold⟩ := tells_told rfl rfl hc
    rw [hdesk] at htold
    exact runsOnce_of_started hk hes List.nil_prefix htold
  · next e d' _ hd =>
    obtain ⟨c, hc⟩ := hexecute.of_error hd
    obtain ⟨es, hes, htold⟩ := tells_told rfl rfl hc
    obtain ⟨es', marks, hes', hmarks, hlines, hprompts⟩ :=
      givenUp_told hk brokenMessage (st.desk seed source s).context.run d'.shared
    have hall := htold.append hlines hprompts
    rw [hdesk] at hall
    exact runsOnce_of_started hk (hes.trans hes') hmarks hall

theorem refused_runsOnce (hk : st.sink.Records record) (rounds : Nat) (seed : UInt64) (source reason : String)
    (s : Shared τ) : Shared.RunsOnce record s (st.left rounds seed source s (some reason)) := by
  have hdesk := desk_run hk seed source s
  obtain ⟨es, marks, hes, hmarks, hlines, hprompts⟩ :=
    givenUp_told hk (unmannedMessage reason) (st.desk seed source s).context.run (st.desk seed source s).shared
  have hnothing : Told (s.controls.run + 1) [] [] := ⟨⟨0, rfl⟩, rfl⟩
  rw [hdesk] at hlines
  exact runsOnce_of_started hk hes hmarks (hnothing.append hlines hprompts)

theorem left_runsOnce (hk : st.sink.Records record) (rounds : Nat) (seed : UInt64) (source : String)
    (s : Shared τ) (refusal : Option String) : Shared.RunsOnce record s (st.left rounds seed source s refusal) := by
  cases refusal with
  | some reason => exact refused_runsOnce hk rounds seed source reason s
  | none => exact worked_runsOnce hk rounds seed source s

end Station

/-- An engine over its life, with what was heard of each of its runs. -/
inductive Engine.Life : Controls → List (List RunEvent) → Prop
  | new : Life {} []
  | moved {c : Controls} {runs : List (List RunEvent)} (m : Move) : Life c runs → Life (m.act c) runs
  | ran {c : Controls} {runs : List (List RunEvent)} {τ : Type} {st : Station τ} {record : τ → List Incident}
    {rounds : Nat} {seed : UInt64} {source : String} {refusal : Option String} {client : τ} {t : List Incident} :
    Life c runs → c.phase = .idle → st.sink.Records record →
    record (st.left rounds seed source ⟨c, client⟩ refusal).client = record client ++ t →
    Life (st.left rounds seed source ⟨c, client⟩ refusal).controls (runs ++ [events t])

namespace Engine.Life

variable {c : Controls} {runs : List (List RunEvent)}

/-- The runs of an engine are numbered from one on. -/
def Numbers (runs : List (List RunEvent)) : Prop :=
  ∀ i (h : i < runs.length), ∃ marks, marks <+: lastMarks ∧ Told (i + 1) marks runs[i]

theorem Numbers.concat (h : Numbers runs) {es : List RunEvent} {marks : List String} (hmarks : marks <+: lastMarks)
    (hes : Told (runs.length + 1) marks es) : Numbers (runs ++ [es]) := by
  intro i hi
  by_cases hlt : i < runs.length
  · rw [List.getElem_append_left hlt]
    exact h i hlt
  · rw [List.length_append, List.length_singleton] at hi
    obtain rfl : i = runs.length := by omega
    rw [List.getElem_concat_length rfl]
    exact ⟨marks, hmarks, hes⟩

theorem Numbers.run {record : τ → List Incident} {s s' : Shared τ} {t : List Incident}
    (h : Shared.RunsOnce record s s') (ht : record s'.client = record s.client ++ t)
    (hs : s.controls.run = runs.length ∧ Numbers runs) :
    s'.controls.run = (runs ++ [events t]).length ∧ Numbers (runs ++ [events t]) := by
  obtain ⟨hrun, t', marks, ht', hmarks, htold⟩ := h
  obtain rfl := List.append_cancel_left (ht.symm.trans ht')
  rw [hs.1] at hrun htold
  exact ⟨by rw [hrun, List.length_append, List.length_singleton], hs.2.concat hmarks htold⟩

theorem numbers (h : Engine.Life c runs) : c.run = runs.length ∧ Numbers runs := by
  induction h with
  | new => exact ⟨rfl, nofun⟩
  | moved m _ ih => exact ⟨by cases m <;> exact ih.1, ih.2⟩
  | ran _ _ hk ht ih => exact Numbers.run (Station.left_runsOnce hk _ _ _ _ _) ht ih

theorem nodup_flatten {α : Type} {f : List RunEvent → List α}
    (hself : ∀ i (hi : i < runs.length), (f runs[i]).Nodup)
    (hapart : ∀ i j (hi : i < runs.length) (hj : j < runs.length), i < j → List.Disjoint (f runs[i]) (f runs[j])) :
    (runs.map f).flatten.Nodup := by
  refine List.nodup_flatten.mpr ⟨fun xs hxs => ?_, ?_⟩
  · obtain ⟨es, hes, rfl⟩ := List.mem_map.mp hxs
    obtain ⟨i, hi, rfl⟩ := List.getElem_of_mem hes
    exact hself i hi
  · exact List.pairwise_map.mpr (List.pairwise_iff_getElem.mpr hapart)

theorem ids_nodup (h : Engine.Life c runs) :
    c.run = runs.length ∧ ((logs runs.flatten).map LogEntry.id).Nodup ∧
    (runs.length < UInt32.size → (∀ es ∈ runs, (prompts es).length < UInt32.size) →
      ((prompts runs.flatten).map Prompt.id).Nodup) ∧
    (c.phase = .idle → ∀ {τ : Type} {st : Station τ} {record : τ → List Incident},
      st.sink.Records record → ∀ rounds seed source client refusal,
        (∀ r s, st.run rounds seed source ⟨c, client⟩ refusal = .ok (r, s) →
          st.left rounds seed source ⟨c, client⟩ refusal = s) ∧
        ∃ t, record (st.left rounds seed source ⟨c, client⟩ refusal).client = record client ++ t ∧
          Engine.Life (st.left rounds seed source ⟨c, client⟩ refusal).controls (runs ++ [events t])) := by
  obtain ⟨hrun, hnumbers⟩ := h.numbers
  refine ⟨hrun, ?_, fun hruns hprompts => ?_, ?_⟩
  · rw [logs_flatten, List.map_flatten, List.map_map]
    refine nodup_flatten (fun i hi => ?_) fun i j hi hj hij => ?_
    · obtain ⟨marks, hmarks, htold⟩ := hnumbers i hi
      exact htold.nodup_lines hmarks
    · obtain ⟨marks, -, htold⟩ := hnumbers i hi
      obtain ⟨marks', -, htold'⟩ := hnumbers j hj
      exact htold.disjoint_lines htold' (by omega)
  · rw [prompts_flatten, List.map_flatten, List.map_map]
    refine nodup_flatten (fun i hi => ?_) fun i j hi hj hij => ?_
    · obtain ⟨marks, -, htold⟩ := hnumbers i hi
      exact htold.nodup_prompts (by omega) (hprompts _ (List.getElem_mem hi))
    · obtain ⟨marks, -, htold⟩ := hnumbers i hi
      obtain ⟨marks', -, htold'⟩ := hnumbers j hj
      exact htold.disjoint_prompts htold' (by omega) (by omega) (by omega) (hprompts _ (List.getElem_mem hi))
        (hprompts _ (List.getElem_mem hj))
  · intro hphase τ st record hk rounds seed source client refusal
    obtain ⟨-, t, -, ht, -⟩ := Station.left_runsOnce hk rounds seed source ⟨c, client⟩ refusal
    exact ⟨fun r s hr => Station.left_of_run hr, t, ht, .ran h hphase hk ht⟩

/-- The ids in a client's record, beside the controls. -/
def given (s : Shared (List Incident)) : Controls × List String × List UInt64 :=
  (s.controls, (logs (events s.client)).map LogEntry.id, (prompts (events s.client)).map Prompt.id)

theorem grows (h : Engine.Life c runs) (hphase : c.phase = .idle) (k : Controllers) {rounds : Nat} {seed : UInt64}
    {source : String} {c' : Controls} {lines : List String} {numbers : List UInt64}
    (hgiven : given (k.station.left rounds seed source ⟨c, []⟩) = (c', lines, numbers)) :
    ∃ es, Engine.Life c' (runs ++ [es]) ∧ (logs es).map LogEntry.id = lines ∧
      (prompts es).map Prompt.id = numbers := by
  obtain ⟨-, t, -, ht, -⟩ := Station.left_runsOnce k.records rounds seed source ⟨c, []⟩ none
  have hlife := h.ran hphase k.records ht
  have hclient : (k.station.left rounds seed source ⟨c, []⟩).client = t := ht
  unfold given at hgiven
  rw [hclient] at hgiven
  obtain ⟨rfl, rfl, rfl⟩ : _ ∧ _ ∧ _ := by simpa only [Prod.mk.injEq] using hgiven
  exact ⟨events t, hlife, rfl, rfl⟩

theorem given_left {k : Controllers} {rounds : Nat} {seed : UInt64} {source : String} {s : Shared (List Incident)}
    {ids : Controls × List String × List UInt64}
    (h : (k.station.run rounds seed source s).toOption.map (given ·.2) = some ids) :
    given (k.station.left rounds seed source s) = ids := by
  obtain ⟨r, s', hr, hids⟩ := Station.ran_of_toOption_map h
  rw [Station.left_of_run hr]
  exact hids

def stoppingAsked : Controllers where
  on
    | .confirmation _ => [.stop]
    | _ => []

def breaking : Controllers where
  breaks _ := true

def asking : String := "GB.Control.requestConfirmation('deploy?');"

-- The first run breaks down and is reported, the second is stopped while it asks, and the third is lost.
theorem three_runs_nodup :
    ∃ c runs, Engine.Life c runs ∧ c.phase = .running ∧ runs.length < UInt32.size ∧
      (∀ es ∈ runs, (prompts es).length < UInt32.size) ∧
      (logs runs.flatten).map LogEntry.id = ["1-1", "1-abort", "1-end", "2-1", "2-2", "3-1", "3-abort"] ∧
      (prompts runs.flatten).map Prompt.id = [RunContext.promptId 2 1] ∧
      ((logs runs.flatten).map LogEntry.id).Nodup ∧ ((prompts runs.flatten).map Prompt.id).Nodup := by
  have hrefused : (Controllers.refusing.station.run 0 7 "var x = ;" ⟨{}, []⟩).toOption.map (given ·.2) =
      some (⟨false, .idle, 1, []⟩, ["1-1", "1-abort", "1-end"], []) := by
    decide +kernel
  have hasked : (stoppingAsked.station.run 10 7 asking ⟨⟨false, .idle, 1, []⟩, []⟩).toOption.map (given ·.2) =
      some (⟨false, .idle, 2, []⟩, ["2-1", "2-2"], [RunContext.promptId 2 1]) := by
    rw [Station.run_of_chars _ (rfl : asking = String.ofList _)]
    decide +kernel
  have hlost : given (breaking.station.left 0 7 "var x = ;" ⟨⟨false, .idle, 2, []⟩, []⟩) =
      (⟨true, .running, 3, []⟩, ["3-1", "3-abort"], []) := by
    decide +kernel
  obtain ⟨es₁, h₁, hlines₁, hnumbers₁⟩ := grows .new rfl Controllers.refusing (given_left hrefused)
  obtain ⟨es₂, h₂, hlines₂, hnumbers₂⟩ := grows h₁ rfl stoppingAsked (given_left hasked)
  obtain ⟨es₃, h₃, hlines₃, hnumbers₃⟩ := grows h₂ rfl breaking hlost
  have hfew : ∀ es ∈ [es₁, es₂, es₃], (prompts es).length < UInt32.size := by
    have hlength (es : List RunEvent) : (prompts es).length = ((prompts es).map Prompt.id).length :=
      (List.length_map _).symm
    simp only [List.forall_mem_cons, hlength, hnumbers₁, hnumbers₂, hnumbers₃]
    decide
  have hcount : [es₁, es₂, es₃].length < UInt32.size := show 3 < UInt32.size by decide
  obtain ⟨-, hlines, hprompts, -⟩ := ids_nodup h₃
  refine ⟨_, [es₁, es₂, es₃], h₃, rfl, hcount, hfew, ?_, ?_, hlines, hprompts hcount hfew⟩
  · rw [logs_flatten]
    simp [hlines₁, hlines₂, hlines₃]
  · rw [prompts_flatten]
    simp [hnumbers₁, hnumbers₂, hnumbers₃]

end Engine.Life

end Apiary
