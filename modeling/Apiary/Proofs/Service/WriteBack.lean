import Apiary.Proofs.Engine.Breakage
import Apiary.Proofs.Engine.Lifecycle
import Apiary.Proofs.Files.ReadBack
import Apiary.Proofs.Service.Clients

/-!
The source that a run reports, the source that its client was told last, and the file that the service writes
back: they are one text unless the run broke down.
-/

namespace Apiary

open Incident RunEvent

def SourceTold (es : List RunEvent) (source : String) : String := (updates es).getLast?.getD source

namespace Station

variable {τ : Type} {st : Station τ} {record : τ → List Incident} {rounds : Nat} {seed : UInt64}
  {source : String} {s s' : Shared τ} {r : RunReport}

theorem run_source (hk : st.sink.Records record) (h : st.run rounds seed source s = .ok (r, s')) :
    ∃ t, record s'.client = record s.client ++ t ∧
      (¬ st.Breaks rounds seed source s → r.source = SourceTold (events t) source) ∧
      (st.Breaks rounds seed source s → r.outcome = .errored brokenMessage ∧ r.source = source) := by
  obtain ⟨t, ht, t₁, s₁, hreport, hevents⟩ := run_grows hk h
  refine ⟨t, ht, ?_⟩
  rw [hevents]
  cases hreport with
  | rejected _ hx _ hlog =>
    refine ⟨fun _ => by rw [hlog]; rfl, fun ⟨e, d, hbreaks⟩ => ?_⟩
    cases hx.symm.trans hbreaks
  | closed _ hx _ _ hpass =>
    refine ⟨fun _ => hpass.code, fun ⟨e, d, hbreaks⟩ => ?_⟩
    cases hx.symm.trans hbreaks
  | aborted hx => exact ⟨fun hb => absurd ⟨_, _, hx⟩ hb, fun _ => ⟨rfl, rfl⟩⟩

end Station

namespace Project

/-- Texts written to one path, one after the other; a write that fails changes nothing. -/
def writeAll (path : String) (texts : List String) (p : Project) : Project :=
  texts.foldl (fun p text => (p.write path text).toOption.getD p) p

theorem writeAll_append (path : String) (texts texts' : List String) (p : Project) :
    p.writeAll path (texts ++ texts') = (p.writeAll path texts).writeAll path texts' :=
  List.foldl_append

theorem writeAll_of_ok {path : String} {texts : List String} {p p' : Project}
    (h : texts.foldlM (fun p text => Project.write p path text) p = .ok p') :
    p.writeAll path texts = p' ∧ ∀ text, texts.getLast? = some text → p'.read path = .ok text := by
  induction texts using List.reverseRecOn generalizing p' with
  | nil =>
    cases h
    exact ⟨rfl, nofun⟩
  | append_singleton texts text ih =>
    rw [List.foldlM_append] at h
    cases hq : texts.foldlM (fun p text => Project.write p path text) p with
    | error e =>
      rw [hq] at h
      cases h
    | ok q =>
      have hwrite : q.write path text = .ok p' := by
        simp only [hq, bind, Except.bind, List.foldlM_cons, List.foldlM_nil] at h
        cases hw : q.write path text with
        | error e =>
          rw [hw] at h
          cases h
        | ok q' =>
          rw [hw] at h
          exact h
      refine ⟨?_, fun last hlast => ?_⟩
      · rw [writeAll_append, (ih hq).1]
        simp only [writeAll, List.foldl_cons, List.foldl_nil, hwrite]
        rfl
      · rw [List.getLast?_concat] at hlast
        cases hlast
        exact read_of_write hwrite

end Project

namespace ServicePlan

variable {κ : Type} {plan : ServicePlan κ} {record : κ → List Incident} {path : String}

/-- The listener keeps a record, and nobody but the run writes to the project. -/
def Records (plan : ServicePlan κ) (record : κ → List Incident) : Prop :=
  ∀ e s, (Act.final (plan.listen e s)).client.project = s.client.project ∧
    ∃ t, events t = [e] ∧ Shared.Grows (heardBy record) t s (Act.final (plan.listen e s))

theorem station_records (hp : plan.Records record) (path : String) :
    (plan.station (.script path)).sink.Records (heardBy record) := by
  have hrecorded : plan.Recorded id record :=
    ⟨fun e s => (hp e s).2, fun _ => ⟨[], rfl, (List.append_nil _).symm, rfl⟩⟩
  exact among_records hrecorded (.script path)

theorem prepare_project (path : String) (n : Notice) (service : Service κ) :
    (service.prepare (.script path) n).project = service.project.writeAll path (updates [n.event]) := by
  cases n with
  | log | plot | confirm => rfl
  | checkpoint c =>
    obtain ⟨d, hd⟩ := service.save_eq c
    rw [Service.prepare, hd]
    rfl
  | code source =>
    have hwritten : service.project.writeAll path (updates [.codeUpdate source]) =
        (service.project.write path source).toOption.getD service.project := rfl
    simp only [Service.prepare, Service.writeBack, Notice.event, hwritten]
    cases service.project.write path source <;> rfl

theorem settle_project (n : Notice) (service : Service κ) : (service.settle n).project = service.project := by
  cases n <;> rfl

theorem pass_project (hp : plan.Records record) (path : String) (n : Notice) (s : Shared (Service κ)) :
    (Act.final ((plan.station (.script path)).sink.pass n s)).client.project =
      s.client.project.writeAll path (updates [n.event]) := by
  have hlisten := (hp n.event ⟨s.controls, s.client.prepare (.script path) n⟩).1
  have hpass := plan.pass_eq id (.script path) n s
  have hstation : plan.among id (.script path) = plan.station (.script path) := rfl
  rw [← hstation, hpass, ← prepare_project]
  generalize plan.listen n.event ⟨s.controls, s.client.prepare (.script path) n⟩ = r at hlisten ⊢
  cases r with
  | ok x s' => exact (settle_project n s'.client).trans hlisten
  | error x s' => exact hlisten

theorem station_keeps (hp : plan.Records record) (path : String) (start : Service κ) :
    (plan.station (.script path)).sink.Keeps fun service =>
      ∃ t, heardBy record service = heardBy record start ++ t ∧
        service.project = start.project.writeAll path (updates (events t)) where
  pass {n s} := by
    rintro ⟨t, ht, hproject⟩
    obtain ⟨t', hevents, hgrows⟩ := (station_records hp path).pass n s
    refine ⟨t ++ t', by rw [hgrows.1, ht, List.append_assoc], ?_⟩
    rw [pass_project hp, hproject, events_append, updates_append, hevents, Project.writeAll_append]
  meanwhile h := h

theorem finish_grows (hp : plan.Records record) (r : RunReport) (s : Shared (Service κ)) :
    (plan.finish r s).client.project = s.client.project ∧
      ∃ t, updates (events t) = [] ∧
        heardBy record (plan.finish r s).client = heardBy record s.client ++ t := by
  have hlisten := hp (.runFinished (UInt64.ofNat r.run) r.outcome 0)
    ⟨s.controls, s.client.onBoard fun b => b.close.release⟩
  unfold ServicePlan.finish
  dsimp only
  generalize plan.listen (.runFinished (UInt64.ofNat r.run) r.outcome 0)
    ⟨s.controls, s.client.onBoard fun b => b.close.release⟩ = result at hlisten ⊢
  obtain ⟨hproject, t, hevents, hgrows⟩ := hlisten
  have ht : updates (events t) = [] := by rw [hevents]; rfl
  cases result with
  | ok x s' => exact ⟨hproject, t, ht, hgrows.1⟩
  | error x s' => exact ⟨hproject, t, ht, hgrows.1⟩

theorem run_written (hp : plan.Records record) {source : String} {s s' : Shared (Service κ)}
    {r : RunReport} (h : plan.run (.script path) source s = .ok (r, s')) :
    ∃ t s₁, heardBy record s'.client = heardBy record s.client ++ t ∧
      begin? (.script path) s = some s₁ ∧
      s'.client.project = s.client.project.writeAll path (updates (events t)) ∧
      (¬ (plan.station (.script path)).Breaks plan.rounds plan.seed source s₁ →
        r.source = SourceTold (events t) source) ∧
      ((plan.station (.script path)).Breaks plan.rounds plan.seed source s₁ →
        r.outcome = .errored brokenMessage ∧ r.source = source) := by
  unfold ServicePlan.run at h
  cases hb : begin? (.script path) s with
  | none =>
    rw [hb] at h
    cases h
  | some s₁ =>
    obtain ⟨b, -, hs₁⟩ := begin?_eq hb
    have hlistener : s₁.client.listener = s.client.listener := congrArg (·.client.listener) hs₁
    have hproject : s₁.client.project = s.client.project := congrArg (·.client.project) hs₁
    rw [hb] at h
    simp only [bind, Except.bind] at h
    cases hr : (plan.station (.script path)).run plan.rounds plan.seed source s₁ with
    | error failure =>
      rw [hr] at h
      cases h
    | ok result =>
      rw [hr] at h
      cases h
      obtain ⟨t, ht, hsource, hbroken⟩ := Station.run_source (station_records hp path) hr
      obtain ⟨t₁, ht₁, hwritten⟩ := (station_keeps hp path s₁.client).run hr
        ⟨[], (List.append_nil _).symm, rfl⟩
      obtain rfl := List.append_cancel_left (ht.symm.trans ht₁)
      obtain ⟨hfinish, t₂, hupdates, ht₂⟩ := finish_grows hp result.1 result.2
      have hevents : updates (events (t ++ t₂)) = updates (events t) := by
        rw [events_append, updates_append, hupdates, List.append_nil]
      have htold : SourceTold (events (t ++ t₂)) source = SourceTold (events t) source := by
        rw [SourceTold, SourceTold, hevents]
      refine ⟨t ++ t₂, s₁, ?_, rfl, ?_, ?_, hbroken⟩
      · have hstart : heardBy record s₁.client = heardBy record s.client := congrArg record hlistener
        rw [ht₂, ht, hstart, List.append_assoc]
      · rw [hfinish, hwritten, hproject, hevents]
      · rw [htold]
        exact hsource

end ServicePlan

theorem source_told (source : String) :
    (∀ {τ : Type} {st : Station τ} {record : τ → List Incident}, st.sink.Records record →
      ∀ rounds seed s r s', st.run rounds seed source s = .ok (r, s') →
        ∃ t, record s'.client = record s.client ++ t ∧
          (¬ st.Breaks rounds seed source s → r.source = SourceTold (events t) source) ∧
          (st.Breaks rounds seed source s → r.outcome = .errored brokenMessage ∧ r.source = source)) ∧
    ∀ {κ : Type} {plan : ServicePlan κ} {record : κ → List Incident}, plan.Records record →
      ∀ path s r s', plan.run (.script path) source s = .ok (r, s') →
        ∃ t s₁, ServicePlan.heardBy record s'.client = ServicePlan.heardBy record s.client ++ t ∧
          ServicePlan.begin? (.script path) s = some s₁ ∧
          ∀ p', (updates (events t)).foldlM (fun p text => Project.write p path text) s.client.project = .ok p' →
            updates (events t) ≠ [] →
            s'.client.project.read path = .ok (SourceTold (events t) source) ∧
            (¬ (plan.station (.script path)).Breaks plan.rounds plan.seed source s₁ →
              s'.client.project.read path = .ok r.source) := by
  refine ⟨fun hk rounds seed s r s' h => Station.run_source hk h, ?_⟩
  intro κ plan record hp path s r s' h
  obtain ⟨t, s₁, ht, hbegin, hwritten, hsource, -⟩ := ServicePlan.run_written hp h
  refine ⟨t, s₁, ht, hbegin, fun p' hwrites hne => ?_⟩
  obtain ⟨hproject, hread⟩ := Project.writeAll_of_ok hwrites
  have hlast : (updates (events t)).getLast? = some (SourceTold (events t) source) := by
    rw [SourceTold, List.getLast?_eq_some_getLast hne]
    rfl
  have htold : s'.client.project.read path = .ok (SourceTold (events t) source) := by
    rw [hwritten, hproject]
    exact hread _ hlast
  refine ⟨htold, fun hends => ?_⟩
  rw [hsource hends]
  exact htold

def ServicePlan.noting : ServicePlan (List Incident) where
  listen e := fun ⟨controls, service⟩ =>
    .ok () ⟨controls, { service with listener := service.listener ++ [.heard e] }⟩
  seed := 7
  clock := .still 0
  codec := .standard
  rounds := 9

theorem ServicePlan.noting_records : ServicePlan.noting.Records id :=
  fun e _ => ⟨rfl, [.heard e], rfl, rfl, rfl⟩

def selfEditing : String := "GB.Code.selfEdit('x', 'y');"

def ServicePlan.fresh : Shared (Service (List Incident)) := ⟨{}, ⟨⟨some []⟩, [], {}, []⟩⟩

theorem selfEditing_run :
    ∃ r s, ServicePlan.noting.run (.script "main.gb") selfEditing ServicePlan.fresh = .ok (r, s) ∧
      (r.outcome, updates (events s.client.listener)) =
        (.completed, ["GB.Code.selfEdit('y', 'y');"]) := by
  have hrun : (ServicePlan.noting.run (.script "main.gb") selfEditing ServicePlan.fresh).toOption.map
      (fun (r, s) => (r.outcome, updates (events s.client.listener))) =
        some (.completed, ["GB.Code.selfEdit('y', 'y');"]) := by
    rw [ServicePlan.run, Station.run_of_chars _ (rfl : selfEditing = String.ofList _)]
    decide +kernel
  exact Station.ran_of_toOption_map hrun

theorem selfEditing_told :
    (∃ r s, Controllers.quiet.station.run 9 7 ";" ⟨{}, []⟩ = .ok (r, s) ∧ r.source = ";") ∧
    ∃ r s, ServicePlan.noting.run (.script "main.gb") selfEditing ServicePlan.fresh = .ok (r, s) ∧
      s.client.project.read "main.gb" = .ok r.source := by
  constructor
  · have hrun : (Controllers.quiet.station.run 9 7 ";" ⟨{}, []⟩).toOption.map
        (fun (r, s) => (r.outcome, updates (events s.client))) = some (.completed, []) := by
      rw [Station.run_of_chars _ (rfl : ";" = String.ofList _)]
      decide +kernel
    obtain ⟨r, s, hr, hresult⟩ := Station.ran_of_toOption_map hrun
    obtain ⟨houtcome, hupdates⟩ := Prod.mk.inj hresult
    obtain ⟨t, ht, hsource, hbroken⟩ := (source_told ";").1 Controllers.quiet.records 9 7 _ _ _ hr
    have hends : ¬ Controllers.quiet.station.Breaks 9 7 ";" ⟨{}, []⟩ := fun hb => by
      cases houtcome.symm.trans (hbroken hb).1
    obtain rfl : s.client = t := ht
    refine ⟨r, s, hr, ?_⟩
    rw [hsource hends, SourceTold, hupdates]
    rfl
  · obtain ⟨r, s, hr, hresult⟩ := selfEditing_run
    obtain ⟨houtcome, hupdates⟩ := Prod.mk.inj hresult
    obtain ⟨t, s₁, ht, hbegin, hwrites⟩ :=
      (source_told selfEditing).2 ServicePlan.noting_records "main.gb" _ r s hr
    have hends : ¬ (ServicePlan.noting.station (.script "main.gb")).Breaks 9 7 selfEditing s₁ := by
      obtain ⟨t', s₁', -, hbegin', -, -, hbroken⟩ := ServicePlan.run_written ServicePlan.noting_records hr
      obtain rfl := Option.some.inj (hbegin.symm.trans hbegin')
      exact fun hb => by cases houtcome.symm.trans (hbroken hb).1
    obtain rfl : s.client.listener = t := ht
    rw [hupdates] at hwrites
    have hok : (["GB.Code.selfEdit('y', 'y');"].foldlM (fun p text => Project.write p "main.gb" text)
        ServicePlan.fresh.client.project).isOk = true := by
      decide +kernel
    cases hp : ["GB.Code.selfEdit('y', 'y');"].foldlM (fun p text => Project.write p "main.gb" text)
        ServicePlan.fresh.client.project with
    | error e =>
      rw [hp] at hok
      cases hok
    | ok p => exact ⟨r, s, hr, (hwrites p hp (List.cons_ne_nil _ _)).2 hends⟩

def storingAfterEdit : String := "GB.Code.selfEdit('x', 'y'); " ++ selfStore

-- The worker that breaks down takes the edit with it; its client was told of the edit.
theorem storingAfterEdit_untold :
    ∃ r s, Controllers.quiet.station.run 9 7 storingAfterEdit ⟨{}, []⟩ = .ok (r, s) ∧
      r.source ≠ SourceTold (events s.client) storingAfterEdit := by
  have hrun : (Controllers.quiet.station.run 9 7 storingAfterEdit ⟨{}, []⟩).toOption.map
      (fun (r, s) => decide (r.source = SourceTold (events s.client) storingAfterEdit)) = some false := by
    have hchars : storingAfterEdit = String.ofList _ := String.ofList_append.symm
    rw [Station.run_of_chars _ hchars]
    decide +kernel
  obtain ⟨r, s, hr, hsource⟩ := Station.ran_of_toOption_map hrun
  exact ⟨r, s, hr, of_decide_eq_false hsource⟩

end Apiary
