import Apiary.Proofs.Engine.Client
import Apiary.Proofs.Service.Clients
import Apiary.Proofs.Service.Floor

/-!
The service on its floor: what clients ask of it, and what its runs do, are steps there.
-/

namespace Apiary

abbrev Hall.Path : Hall → List Deed → Hall → Prop := Course Hall.Step

def Floor.Reaches (F F' : Floor) : Prop := ∃ ds, Floor.Path F ds F'

namespace Floor

variable {F F' F'' : Floor} {ds ds' : List Deed} {d : Deed}

theorem Reaches.refl : Reaches F F := ⟨[], .refl⟩

theorem Reaches.trans (hr : Reaches F F') (hr' : Reaches F' F'') : Reaches F F'' := by
  obtain ⟨ds, hp⟩ := hr
  obtain ⟨ds', hp'⟩ := hr'
  exact ⟨ds ++ ds', hp.trans hp'⟩

theorem Step.reaches (hs : Step F d F') : Reaches F F' := ⟨_, Course.refl.tail hs⟩

end Floor

theorem Job.Step.reaches {h h' : Hall} {j j' : Job} {d : Deed} (hs : Job.Step h j d h' j') :
    Floor.Reaches ⟨h, some j⟩ ⟨h', some j'⟩ := (Floor.Step.worker hs).reaches

namespace Hall.Path

variable {h h' : Hall} {ds : List Deed}

theorem run_eq (hp : Path h ds h') : h'.controls.run = h.controls.run := by
  induction hp with
  | refl => rfl
  | tail _ hs ih => exact hs.eases.run.trans ih

theorem onFloor (hp : Path h ds h') (job : Option Job) : Floor.Path ⟨h, job⟩ ds ⟨h', job⟩ :=
  hp.map (fun h => (⟨h, job⟩ : Floor)) fun _ _ _ => .client

theorem reaches (hp : Path h ds h') (job : Option Job) : Floor.Reaches ⟨h, job⟩ ⟨h', job⟩ :=
  ⟨ds, hp.onFloor job⟩

end Hall.Path

variable {κ : Type}

/-- The hall of a service whose listener knows what clients have withdrawn. -/
def ServicePlan.hall (held : κ → List UInt64) (s : Shared (Service κ)) : Hall :=
  ⟨s.controls, s.client.board, held s.client.listener⟩

namespace ServiceAct

/-- An act that clients can do in steps of theirs. -/
def Visits {α : Type} (held : κ → List UInt64) (a : ServiceAct κ α) : Prop :=
  ∀ s, ∃ ds, Hall.Path (ServicePlan.hall held s) ds (ServicePlan.hall held (Act.final (a s)))

variable {α β : Type} {held : κ → List UInt64}

theorem visits_pure (x : α) : Visits held (pure x) := fun _ => ⟨[], .refl⟩

theorem visits_status : Visits held (status (κ := κ)) := fun _ => ⟨[], .refl⟩

theorem visits_bind {a : ServiceAct κ α} {f : α → ServiceAct κ β} (ha : Visits held a)
    (hf : ∀ x, Visits held (f x)) : Visits held (a >>= f) := by
  intro s
  obtain ⟨ds, hp⟩ := ha s
  simp only [Bind.bind, EStateM.bind]
  generalize a s = r at hp ⊢
  cases r with
  | error e s' => exact ⟨ds, hp⟩
  | ok x s' =>
    obtain ⟨ds', hp'⟩ := hf x s'
    exact ⟨ds ++ ds', hp.trans hp'⟩

theorem visits_push (signal : Signal) : Visits held (push (κ := κ) signal) := by
  intro s
  have hp : Hall.Path (ServicePlan.hall held s) _ _ :=
    Course.moves (fun c => (⟨c, s.client.board, held s.client.listener⟩ : Hall)) Deed.moved
      (fun m _ => .moved m) (Move.ofPush signal) s.controls
  rw [Move.play_ofPush] at hp
  exact ⟨_, hp⟩

theorem visits_stop : Visits held (stop (κ := κ)) := visits_push .stop

theorem confirm_eq (id : UInt64) (approved : Bool) (controls : Controls) (service : Service κ) :
    confirm id approved ⟨controls, service⟩ = match service.board.withdraw? id with
      | none => .ok (.error (.noPrompt id)) ⟨controls, service⟩
      | some b => match b.answer? id approved with
        | none => .ok (.error (.stalePrompt id)) ⟨controls, { service with board := b }⟩
        | some b' => .ok (.ok ()) ⟨controls, { service with board := b' }⟩ := by
  simp only [confirm, withdraw, Bind.bind, EStateM.bind]
  cases hwithdraw : service.board.withdraw? id with
  | none => rfl
  | some b =>
    simp only [if_true, EStateM.bind, answer]
    cases b.answer? id approved <;> rfl

theorem confirm_path (id : UInt64) (approved : Bool) (s : Shared (Service κ)) (taken : List UInt64) :
    ∃ result s' ds, confirm id approved s = .ok result s' ∧ s'.client.listener = s.client.listener ∧
      Hall.Path ⟨s.controls, s.client.board, taken⟩ ds ⟨s'.controls, s'.client.board, taken⟩ ∧
      (answers ds = [id] ∧ result.isOk = true ∨ answers ds = [] ∧ result.isOk = false) := by
  -- The withdrawal and the answer are two steps; on the floor any other client may come between them.
  obtain ⟨controls, service⟩ := s
  rw [confirm_eq]
  cases hwithdraw : service.board.withdraw? id with
  | none => exact ⟨_, _, _, rfl, rfl, Course.refl.tail (.missing hwithdraw), .inr ⟨rfl, rfl⟩⟩
  | some b =>
    have htaken := Course.refl.tail
      (Hall.Step.withdrawn (h := ⟨controls, service.board, taken⟩) hwithdraw)
    have herase : (id :: taken).erase id = taken := List.erase_cons_head id taken
    dsimp only
    cases hanswer : b.answer? id approved with
    | none =>
      have hstale := htaken.tail (.stale List.mem_cons_self hanswer)
      rw [herase] at hstale
      exact ⟨_, _, _, rfl, rfl, hstale, .inr ⟨rfl, rfl⟩⟩
    | some b' =>
      have hanswered := htaken.tail (.answered List.mem_cons_self hanswer)
      rw [herase] at hanswered
      exact ⟨_, _, _, rfl, rfl, hanswered, .inl ⟨rfl, rfl⟩⟩

theorem visits_confirm (id : UInt64) (approved : Bool) : Visits held (confirm (κ := κ) id approved) := by
  intro s
  obtain ⟨result, s', ds, hconfirm, hlistener, hp, -⟩ := confirm_path id approved s (held s.client.listener)
  have hhall : ServicePlan.hall held s' = ⟨s'.controls, s'.client.board, held s.client.listener⟩ := by
    rw [ServicePlan.hall, hlistener]
  rw [hconfirm]
  refine ⟨ds, ?_⟩
  simp only [Act.final, hhall]
  exact hp

end ServiceAct

namespace ServicePlan

variable {plan : ServicePlan κ} {others : Shared (Service κ) → Shared (Service κ)}
  {held : κ → List UInt64} {o : RunOrigin} {s s' : Shared (Service κ)} {d d' : Desk (Service κ)}
  {asked : List Prompt}

def active (held : κ → List UInt64) (s : Shared (Service κ)) (asked : List Prompt) : Floor :=
  ⟨hall held s, some ⟨.active, asked⟩⟩

/-- Whatever happens at the listener, or by itself, is the doing of clients. -/
structure Polite (plan : ServicePlan κ) (others : Shared (Service κ) → Shared (Service κ))
    (held : κ → List UInt64) : Prop where
  listen (e : RunEvent) : (plan.listen e).Visits held
  others (s : Shared (Service κ)) : ∃ ds, Hall.Path (hall held s) ds (hall held (others s))

theorem prepare_hall (o : RunOrigin) (n : Notice) (s : Shared (Service κ)) :
    hall held ⟨s.controls, s.client.prepare o n⟩ =
      ⟨s.controls, (s.client.prepare o n).board, held s.client.listener⟩ := by
  rw [hall, Service.prepare_listener]

theorem prepare_reaches {d : Desk (Service κ)} {c : RunContext Nat} {n : Notice}
    (hn : (plan.among others o).Says d n c) (hrun : d.context.run = s.controls.run)
    (hprompts : d.context.prompts = asked.length) :
    ∃ asked', Floor.Reaches (active held s asked)
        (active held ⟨s.controls, s.client.prepare o n⟩ asked') ∧
      c.run = d.context.run ∧ c.prompts = asked'.length := by
  unfold active
  rw [prepare_hall]
  cases hn with
  | log kind message => exact ⟨asked, .refl, rfl, hprompts⟩
  | plot e => exact ⟨asked, (Job.Step.plot e).reaches, rfl, hprompts⟩
  | code b =>
    obtain ⟨p, hp⟩ := s.client.writeBack_eq o b.text
    rw [Service.prepare, hp]
    exact ⟨asked, .refl, rfl, hprompts⟩
  | checkpoint model path image =>
    obtain ⟨d, hd⟩ := s.client.save_eq ⟨_, model, path, image⟩
    rw [Service.prepare, hd]
    exact ⟨asked, .refl, rfl, hprompts⟩
  | confirm message =>
    have hask : Job.Step (hall held s) ⟨.active, asked⟩ (.asked s.controls.run (asked.length + 1) message) _ _ :=
      .ask message
    rw [hrun, hprompts]
    refine ⟨_, hask.reaches, rfl, ?_⟩
    rw [List.length_append]
    rfl

theorem heard_reaches (hp : plan.Polite others held) (o : RunOrigin) (n : Notice) (s : Shared (Service κ))
    (asked : List Prompt) :
    Floor.Reaches (active held ⟨s.controls, s.client.prepare o n⟩ asked)
        (active held (Act.final ((plan.among others o).sink.pass n s)) asked) ∧
      (Act.final ((plan.among others o).sink.pass n s)).controls.run = s.controls.run := by
  obtain ⟨ds, hpath⟩ := hp.listen n.event ⟨s.controls, s.client.prepare o n⟩
  have hlisten := hpath.reaches (some ⟨.active, asked⟩)
  have hrun : (Act.final (plan.listen n.event ⟨s.controls, s.client.prepare o n⟩)).controls.run =
      s.controls.run := hpath.run_eq
  rw [pass_eq]
  generalize plan.listen n.event ⟨s.controls, s.client.prepare o n⟩ = r at hlisten hrun ⊢
  cases r with
  | error x s' => exact ⟨hlisten, hrun⟩
  | ok x s' =>
    refine ⟨hlisten.trans ?_, hrun⟩
    cases n with
    | log | plot | code | checkpoint => exact .refl
    | confirm p => exact (Job.Step.collect (h := hall held s')).reaches

/-- The desk of a run counts the prompts that the job on the floor has asked. -/
structure Keeping (d : Desk (Service κ)) (asked : List Prompt) : Prop where
  run : d.context.run = d.shared.controls.run
  prompts : d.context.prompts = asked.length

theorem told_reaches (hp : plan.Polite others held) {n : Notice} {c : RunContext Nat}
    (hn : (plan.among others o).Says d n c) (hd : Keeping d asked) :
    ∃ asked', Floor.Reaches (active held d.shared asked)
        (active held (Act.final ((plan.among others o).sink.pass n d.shared)) asked') ∧
      Keeping ⟨c, Act.final ((plan.among others o).sink.pass n d.shared)⟩ asked' := by
  obtain ⟨asked', hprepare, hrun, hprompts⟩ := prepare_reaches hn hd.run hd.prompts
  obtain ⟨hheard, hrun'⟩ := heard_reaches hp o n d.shared asked'
  refine ⟨asked', hprepare.trans hheard, ?_, hprompts⟩
  exact (hrun.trans hd.run).trans hrun'.symm

theorem stride_reaches (hp : plan.Polite others held) (hs : Desk.Stride (plan.among others o) d d')
    (hd : Keeping d asked) :
    ∃ asked', Floor.Reaches (active held d.shared asked) (active held d'.shared asked') ∧
      Keeping d' asked' := by
  cases hs with
  | step hs =>
    cases hs with
    | quiet hc => exact ⟨asked, .refl, hc.run.trans hd.run, hc.prompts.trans hd.prompts⟩
    | meanwhile =>
      obtain ⟨ds, hpath⟩ := hp.others d.shared
      exact ⟨asked, hpath.reaches _, hd.run.trans hpath.run_eq.symm, hd.prompts⟩
    | @read signal c hpop =>
      have hread : Job.Step (hall held d.shared) ⟨.active, asked⟩ .worked _ ⟨.active, asked⟩ := .read
      have hc : c = d.shared.controls.pop.2 := (congrArg Prod.snd hpop).symm
      subst hc
      exact ⟨asked, hread.reaches, hd.run.trans d.shared.controls.pop_keeps.1.symm, hd.prompts⟩
    | tell hn hpass =>
      have htold := told_reaches hp hn hd
      rw [hpass] at htold
      exact htold
  | broken hn hpass =>
    have htold := told_reaches hp hn hd
    rw [hpass] at htold
    exact htold
  | @closing entry s hpass =>
    obtain ⟨hheard, hrun⟩ := heard_reaches hp o (.log entry) d.shared asked
    rw [hpass] at hheard hrun
    exact ⟨asked, hheard, hd.run.trans hrun.symm, hd.prompts⟩

theorem strides_reach (hp : plan.Polite others held) (hs : Desk.Strides (plan.among others o) d d')
    (hd : Keeping d asked) :
    ∃ asked', Floor.Reaches (active held d.shared asked) (active held d'.shared asked') ∧
      Keeping d' asked' := by
  induction hs with
  | refl => exact ⟨asked, .refl, hd⟩
  | tail _ hstride ih =>
    obtain ⟨asked₁, hr₁, hd₁⟩ := ih
    obtain ⟨asked₂, hr₂, hd₂⟩ := stride_reaches hp hstride hd₁
    exact ⟨asked₂, hr₁.trans hr₂, hd₂⟩

theorem perform_reaches (hp : plan.Polite others held) (o : RunOrigin) (asked : List Prompt)
    {stage : List (Controls → Controls) → Stage}
    (hstage : ∀ h f rest, Job.Step h ⟨stage (f :: rest), asked⟩ .worked { h with controls := f h.controls }
      ⟨stage rest, asked⟩) (steps : List (Controls → Controls)) (s : Shared (Service κ)) :
    Floor.Reaches ⟨hall held s, some ⟨stage steps, asked⟩⟩
      ⟨hall held ((plan.among others o).sink.perform steps s), some ⟨stage [], asked⟩⟩ := by
  induction steps generalizing s with
  | nil => exact .refl
  | cons f rest ih =>
    obtain ⟨ds, hpath⟩ := hp.others ⟨f s.controls, s.client⟩
    have hstep := (hstage (hall held s) f rest).reaches
    exact (hstep.trans (hpath.reaches _)).trans (ih _)

theorem idle_of_run {rounds : Nat} {seed : UInt64} {source : String} {st : Station (Service κ)}
    {r : RunReport} (h : st.run rounds seed source s = .ok (r, s')) : s.controls.phase = .idle := by
  by_contra hactive
  unfold Station.run at h
  rw [if_pos hactive] at h
  cases h

theorem finish_reaches (hp : plan.Polite others held) (r : RunReport) (s : Shared (Service κ)) :
    Floor.Reaches ⟨hall held s, some ⟨.returned, asked⟩⟩ ⟨hall held (plan.finish r s), none⟩ := by
  have hclose : Job.Step (hall held s) ⟨.returned, asked⟩ .worked _ ⟨.cleared, asked⟩ := .close
  obtain ⟨ds, hpath⟩ := hp.listen (.runFinished (UInt64.ofNat r.run) r.outcome 0)
    ⟨s.controls, s.client.onBoard fun b => b.close.release⟩
  refine (hclose.reaches.trans Floor.Step.release.reaches).trans ?_
  have hlisten := hpath.reaches none
  unfold finish
  dsimp only
  generalize plan.listen (.runFinished (UInt64.ofNat r.run) r.outcome 0)
    ⟨s.controls, s.client.onBoard fun b => b.close.release⟩ = result at hlisten ⊢
  cases result <;> exact hlisten

/-- A run of the service, from the client that starts it to its end, is a path on the floor. -/
theorem run_reaches (hp : plan.Polite others held) {s₁ s₂ s₃ : Shared (Service κ)} (hb : begin? o s = some s₁)
    {ds : List Deed} (hclients : Hall.Path (hall held s₁) ds (hall held s₂)) {source : String} {r : RunReport}
    (hr : (plan.among others o).run plan.rounds plan.seed source s₂ = .ok (r, s₃)) :
    Floor.Reaches ⟨hall held s, none⟩ ⟨hall held (plan.finish r s₃), none⟩ := by
  have hidle := idle_of_run hr
  obtain ⟨b, hacquire, rfl⟩ := begin?_eq hb
  obtain ⟨d, hstrides, rfl⟩ := Station.run_strides hr
  have hadmitted : Floor.Step ⟨hall held s, none⟩ .admitted _ := .acquire hacquire
  have hready : Job.Step { hall held s with board := b } ⟨.admitted, []⟩ .worked _ _ := .reset o
  have hbetween := hclients.reaches (some ⟨.ready, []⟩)
  have hentered : Job.Step (hall held s₂) ⟨.ready, []⟩ .worked _ _ := .enter hidle
  have hstarted := perform_reaches hp o [] (fun _ _ _ => .start) Controls.startSteps s₂
  obtain ⟨asked, hactive, -⟩ : ∃ asked, Floor.Reaches (active held ((plan.among others o).started s₂) [])
      (active held d.shared asked) ∧ Keeping d asked := strides_reach hp hstrides ⟨rfl, rfl⟩
  have hconcluded : Job.Step (hall held d.shared) ⟨.active, asked⟩ .worked _ _ :=
    .conclude (Station.lastPhase r.outcome)
  have hfinished := perform_reaches hp o asked (fun _ _ _ => .finish)
    (Controls.finishSteps (Station.lastPhase r.outcome)) d.shared
  have hbegun := ((hadmitted.reaches.trans hready.reaches).trans hbetween).trans hentered.reaches
  have hended := (hconcluded.reaches.trans hfinished).trans Job.Step.report.reaches
  exact ((((hbegun.trans hstarted).trans Job.Step.run.reaches).trans hactive).trans hended).trans
    (finish_reaches hp r _)

end ServicePlan

end Apiary
