import Apiary.Proofs.Engine.Lifecycle
import Apiary.Proofs.Engine.Record
import Apiary.Proofs.Service.Board
import Apiary.Service.Run

/-!
The floor of a service: any number of clients, and the worker of the run that holds the engine, each in steps of
its own and in any order.
-/

namespace Apiary

/-- What clients and workers share, with the numbers of the prompts that clients have withdrawn and not answered
yet. -/
structure Hall where
  controls : Controls := {}
  board : RunBoard := {}
  taken : List UInt64 := []

inductive Deed
  | moved (m : Move)
  | refused
  | missing (id : UInt64)
  | withdrawn (id : UInt64)
  | stale (id : UInt64)
  | answered (id : UInt64) (approved : Bool)
  | admitted
  | asked (run n : Nat) (message : String)
  | rejected
  | worked
  deriving DecidableEq

/-- A step of a client that leaves the engine where it is. -/
inductive Hall.Step (h : Hall) : Deed → Hall → Prop
  | moved (m : Move) : Step h (.moved m) { h with controls := m.act h.controls }
  | refused : h.board.acquire?.isNone → Step h .refused h
  | missing {id : UInt64} : h.board.withdraw? id = none → Step h (.missing id) h
  | withdrawn {id : UInt64} {b : RunBoard} : h.board.withdraw? id = some b →
    Step h (.withdrawn id) { h with board := b, taken := id :: h.taken }
  | stale {id : UInt64} {approved : Bool} : id ∈ h.taken → h.board.answer? id approved = none →
    Step h (.stale id) { h with taken := h.taken.erase id }
  | answered {id : UInt64} {approved : Bool} {b : RunBoard} :
    id ∈ h.taken → h.board.answer? id approved = some b →
    Step h (.answered id approved) { h with board := b, taken := h.taken.erase id }

inductive Stage
  | admitted
  | ready
  | starting (rest : List (Controls → Controls))
  | active
  | finishing (rest : List (Controls → Controls))
  | returned
  | cleared

/-- The job that holds the engine, with the prompts of its run so far. -/
structure Job where
  stage : Stage
  asked : List Prompt

def promptOf (run n : Nat) (message : String) : Prompt :=
  ⟨UInt64.ofNat run, RunContext.promptId run n, message⟩

inductive Job.Step (h : Hall) : Job → Deed → Hall → Job → Prop
  | reset {asked : List Prompt} (o : RunOrigin) :
    Step h ⟨.admitted, asked⟩ .worked { h with board := h.board.reset o } ⟨.ready, asked⟩
  | enter {asked : List Prompt} : h.controls.phase = .idle →
    Step h ⟨.ready, asked⟩ .worked h ⟨.starting Controls.startSteps, asked⟩
  | reject {asked : List Prompt} : h.controls.phase ≠ .idle →
    Step h ⟨.ready, asked⟩ .rejected h ⟨.returned, asked⟩
  | start {asked : List Prompt} {f : Controls → Controls} {rest : List (Controls → Controls)} :
    Step h ⟨.starting (f :: rest), asked⟩ .worked { h with controls := f h.controls } ⟨.starting rest, asked⟩
  | run {asked : List Prompt} : Step h ⟨.starting [], asked⟩ .worked h ⟨.active, asked⟩
  | ask {asked : List Prompt} (message : String) :
    Step h ⟨.active, asked⟩ (.asked h.controls.run (asked.length + 1) message)
      { h with board := h.board.ask (promptOf h.controls.run (asked.length + 1) message) {} }
      ⟨.active, asked ++ [promptOf h.controls.run (asked.length + 1) message]⟩
  -- Until the slot is given up in the step after this one, a client may answer again.
  | receive {asked : List Prompt} {id : UInt64} {slot : Slot} : h.board.waiting = some (id, slot) →
    Step h ⟨.active, asked⟩ .worked { h with board := { h.board with waiting := some (id, slot.take.2) } }
      ⟨.active, asked⟩
  | collect {asked : List Prompt} :
    Step h ⟨.active, asked⟩ .worked { h with board := h.board.collect.2 } ⟨.active, asked⟩
  | read {asked : List Prompt} :
    Step h ⟨.active, asked⟩ .worked { h with controls := h.controls.pop.2 } ⟨.active, asked⟩
  | plot {asked : List Prompt} (e : PlotEvent) :
    Step h ⟨.active, asked⟩ .worked { h with board := h.board.merge e } ⟨.active, asked⟩
  | conclude {asked : List Prompt} (last : Phase) :
    Step h ⟨.active, asked⟩ .worked h ⟨.finishing (Controls.finishSteps last), asked⟩
  | finish {asked : List Prompt} {f : Controls → Controls} {rest : List (Controls → Controls)} :
    Step h ⟨.finishing (f :: rest), asked⟩ .worked { h with controls := f h.controls } ⟨.finishing rest, asked⟩
  | report {asked : List Prompt} : Step h ⟨.finishing [], asked⟩ .worked h ⟨.returned, asked⟩
  | close {asked : List Prompt} :
    Step h ⟨.returned, asked⟩ .worked { h with board := h.board.close } ⟨.cleared, asked⟩

structure Floor where
  hall : Hall := {}
  job : Option Job := none

namespace Floor

inductive Step : Floor → Deed → Floor → Prop
  | client {h h' : Hall} {job : Option Job} {deed : Deed} : h.Step deed h' → Step ⟨h, job⟩ deed ⟨h', job⟩
  | acquire {h : Hall} {job : Option Job} {b : RunBoard} : h.board.acquire? = some b →
    Step ⟨h, job⟩ .admitted ⟨{ h with board := b }, some ⟨.admitted, []⟩⟩
  | worker {h h' : Hall} {j j' : Job} {deed : Deed} : Job.Step h j deed h' j' →
    Step ⟨h, some j⟩ deed ⟨h', some j'⟩
  | release {h : Hall} {asked : List Prompt} :
    Step ⟨h, some ⟨.cleared, asked⟩⟩ .worked ⟨{ h with board := h.board.release }, none⟩

abbrev Path : Floor → List Deed → Floor → Prop := Course Step

end Floor

section Accounts

def Deed.answered? : Deed → Option UInt64
  | .answered id _ => some id
  | _ => none

def Deed.number? : Deed → Option (Nat × Nat)
  | .asked run n _ => some (run, n)
  | _ => none

/-- The prompts that were answered, by their numbers, an entry for each answer. -/
def answers (ds : List Deed) : List UInt64 := ds.filterMap Deed.answered?

/-- The prompts that were asked: the number of the run, and which prompt of the run it was. -/
def numbers (ds : List Deed) : List (Nat × Nat) := ds.filterMap Deed.number?

def promptIds (ds : List Deed) : List UInt64 := (numbers ds).map fun q => RunContext.promptId q.1 q.2

@[simp] theorem answers_append (ds ds' : List Deed) : answers (ds ++ ds') = answers ds ++ answers ds' :=
  List.filterMap_append

@[simp] theorem numbers_append (ds ds' : List Deed) : numbers (ds ++ ds') = numbers ds ++ numbers ds' :=
  List.filterMap_append

@[simp] theorem promptIds_append (ds ds' : List Deed) :
    promptIds (ds ++ ds') = promptIds ds ++ promptIds ds' := by
  simp only [promptIds, numbers_append, List.map_append]

/-- How many answers to a prompt may still come. -/
def Hall.due (id : UInt64) (h : Hall) : Nat := h.taken.count id + h.board.listed id

def Hall.Accounts (id : UInt64) (h : Hall) (d : Deed) (h' : Hall) : Prop :=
  (answers [d]).count id + h'.due id ≤ (promptIds [d]).count id + h.due id

theorem Hall.due_of_listed {h h' : Hall} {id : UInt64} (htaken : h'.taken = h.taken)
    (hboard : h'.board.pending.Sublist h.board.pending) : h'.due id ≤ h.due id := by
  have hlisted : h'.board.listed id ≤ h.board.listed id := hboard.countP_le
  unfold due
  rw [htaken]
  omega

theorem Hall.count_erase {id other : UInt64} {l : List UInt64} (h : id ∈ l) :
    [id].count other + (l.erase id).count other = l.count other := by
  by_cases hother : other = id
  · have hpos : 0 < l.count id := List.count_pos_iff.mpr h
    rw [hother, List.count_singleton_self, List.count_erase_self]
    omega
  · rw [List.count_erase_of_ne hother, List.count_eq_zero_of_not_mem, Nat.zero_add]
    exact fun hmem => hother (List.mem_singleton.mp hmem)

theorem Hall.Accounts.of_silent {h h' : Hall} {d : Deed} {id : UInt64} (hanswers : answers [d] = [])
    (hids : promptIds [d] = []) (hdue : h'.due id ≤ h.due id) : h.Accounts id d h' := by
  unfold Accounts
  rw [hanswers, hids]
  exact Nat.add_le_add_left hdue _

theorem Hall.Step.accounts {h h' : Hall} {d : Deed} (hs : h.Step d h') (id : UInt64) : h.Accounts id d h' := by
  cases hs with
  | moved | refused | missing => exact .of_silent rfl rfl (Nat.le_refl _)
  | @withdrawn other b hb =>
    have hlisted := RunBoard.listed_withdraw hb id
    have htaken : (other :: h.taken).count id = [other].count id + h.taken.count id := by
      rw [← List.singleton_append, List.count_append]
    refine .of_silent rfl rfl ?_
    simp only [due, htaken]
    omega
  | @stale other approved hmem =>
    have herase : [other].count id + (h.taken.erase other).count id = h.taken.count id := count_erase hmem
    refine .of_silent rfl rfl ?_
    unfold due
    dsimp only
    omega
  | @answered other approved b hmem hb =>
    have herase : [other].count id + (h.taken.erase other).count id = h.taken.count id := count_erase hmem
    obtain ⟨waiting, rfl⟩ := RunBoard.answer?_eq_some hb
    have hlisted : RunBoard.listed id { h.board with waiting := waiting } = h.board.listed id := rfl
    have hanswers : answers [.answered other approved] = [other] := rfl
    have hids : promptIds [.answered other approved] = [] := rfl
    simp only [Accounts, due, hlisted, hanswers, hids, List.count_nil]
    omega

theorem Job.Step.accounts {h h' : Hall} {j j' : Job} {d : Deed} (hs : Job.Step h j d h' j') (id : UInt64) :
    h.Accounts id d h' := by
  cases hs with
  | reset | close => exact .of_silent rfl rfl (Hall.due_of_listed rfl (List.nil_sublist h.board.pending))
  | @ask asked message =>
    have hask := RunBoard.listed_ask id (promptOf h.controls.run (asked.length + 1) message) {} h.board
    have hanswers : answers [.asked h.controls.run (asked.length + 1) message] = [] := rfl
    have hids : promptIds [.asked h.controls.run (asked.length + 1) message] =
        [(promptOf h.controls.run (asked.length + 1) message).id] := rfl
    simp only [Hall.Accounts, Hall.due, hanswers, hids, List.count_nil]
    omega
  | enter | reject | start | run | receive | collect | read | plot | conclude | finish | report =>
    exact .of_silent rfl rfl (Nat.le_refl _)

theorem Floor.Step.accounts {F F' : Floor} {d : Deed} (hs : Floor.Step F d F') (id : UInt64) :
    F.hall.Accounts id d F'.hall := by
  cases hs with
  | client hs => exact hs.accounts id
  | worker hs => exact hs.accounts id
  | acquire hb =>
    obtain ⟨-, rfl⟩ := RunBoard.acquire?_eq_some hb
    exact .of_silent rfl rfl (Nat.le_refl _)
  | release => exact .of_silent rfl rfl (Nat.le_refl _)

theorem Floor.Path.accounts {start F : Floor} {ds : List Deed} (hp : Floor.Path start ds F) (id : UInt64) :
    (answers ds).count id + F.hall.due id ≤ (promptIds ds).count id + start.hall.due id := by
  -- An answer takes up one withdrawal, a withdrawal one listing, and a new prompt alone gives a listing.
  induction hp with
  | refl => exact Nat.le_refl _
  | tail _ hs ih =>
    have hstep : Hall.Accounts _ _ _ _ := hs.accounts id
    unfold Hall.Accounts at hstep
    rw [answers_append, promptIds_append, List.count_append, List.count_append]
    omega

end Accounts

section Order

/-- What a client's step leaves alone. -/
structure Hall.Eases (h h' : Hall) : Prop where
  phase : h'.controls.phase = h.controls.phase
  run : h'.controls.run = h.controls.run
  busy : h'.board.busy = h.board.busy
  pending : h'.board.pending.Sublist h.board.pending

theorem Hall.Step.eases {h h' : Hall} {d : Deed} (hs : h.Step d h') : h.Eases h' := by
  cases hs with
  | moved m => cases m <;> exact ⟨rfl, rfl, rfl, List.Sublist.refl _⟩
  | refused | missing | stale => exact ⟨rfl, rfl, rfl, List.Sublist.refl _⟩
  | withdrawn hb =>
    obtain ⟨rfl, -⟩ := RunBoard.withdraw?_eq_some hb
    exact ⟨rfl, rfl, rfl, List.filter_sublist⟩
  | answered _ hb =>
    obtain ⟨waiting, rfl⟩ := RunBoard.answer?_eq_some hb
    exact ⟨rfl, rfl, rfl, List.Sublist.refl _⟩

theorem Hall.Step.number {h h' : Hall} {d : Deed} (hs : h.Step d h') : numbers [d] = [] ∧ d ≠ .rejected := by
  cases hs <;> exact ⟨rfl, nofun⟩

/-- How the hall is while a job stands at a stage, given the prompts of the past. -/
def Stage.Fits (h : Hall) (asked : List Prompt) (past : List (Nat × Nat)) : Stage → Prop
  | admitted | ready => h.controls.phase = .idle ∧ h.board.pending = [] ∧ asked = []
  | starting rest => rest <:+ Controls.startSteps ∧ h.board.pending = [] ∧ asked = [] ∧
      (rest = [] → ∀ q ∈ past, q.1 < h.controls.run)
  | active => ∀ q ∈ past, q.1 = h.controls.run → q.2 ≤ asked.length
  | finishing rest => (∃ last, rest <:+ Controls.finishSteps last) ∧ (rest = [] → h.controls.phase = .idle)
  | returned => h.controls.phase = .idle
  | cleared => h.controls.phase = .idle ∧ h.board.pending = []

structure Job.Sound (h : Hall) (past : List (Nat × Nat)) (j : Job) : Prop where
  busy : h.board.busy = true
  stage : j.stage.Fits h j.asked past
  pending : ∀ p ∈ h.board.pending, p ∈ j.asked
  asked : ∀ p ∈ j.asked, p.run = UInt64.ofNat h.controls.run

def Hall.Rests (h : Hall) : Prop :=
  h.board.busy = false ∧ h.controls.phase = .idle ∧ h.board.pending = []

structure Floor.Sound (past : List (Nat × Nat)) (F : Floor) : Prop where
  nodup : past.Nodup
  runs : ∀ q ∈ past, q.1 ≤ F.hall.controls.run
  rests : F.job = none → F.hall.Rests
  job : ∀ j, F.job = some j → j.Sound F.hall past

variable {h h' : Hall} {j j' : Job} {past : List (Nat × Nat)} {d : Deed}

theorem Stage.Fits.eases {asked : List Prompt} {stage : Stage} (hf : stage.Fits h asked past)
    (he : h.Eases h') : stage.Fits h' asked past := by
  have hpending : h.board.pending = [] → h'.board.pending = [] := fun hnil =>
    List.eq_nil_of_sublist_nil (hnil ▸ he.pending)
  cases stage with
  | admitted | ready => exact ⟨he.phase.trans hf.1, hpending hf.2.1, hf.2.2⟩
  | starting rest =>
    obtain ⟨hrest, hnil, hasked, hpast⟩ := hf
    refine ⟨hrest, hpending hnil, hasked, ?_⟩
    rw [he.run]
    exact hpast
  | active =>
    unfold Fits at hf ⊢
    rw [he.run]
    exact hf
  | finishing rest => exact ⟨hf.1, fun hnil => he.phase.trans (hf.2 hnil)⟩
  | returned => exact he.phase.trans hf
  | cleared => exact ⟨he.phase.trans hf.1, hpending hf.2⟩

theorem Job.Sound.eases (hj : j.Sound h past) (he : h.Eases h') : j.Sound h' past where
  busy := he.busy.trans hj.busy
  stage := hj.stage.eases he
  pending p hp := hj.pending p (he.pending.subset hp)
  asked p hp := by
    rw [he.run]
    exact hj.asked p hp

theorem Controls.start_suffix {f : Controls → Controls} {rest : List (Controls → Controls)}
    (hr : f :: rest <:+ startSteps) :
    rest <:+ startSteps ∧ (∀ c, c.run ≤ (f c).run) ∧ (rest = [] → ∀ c, (f c).run = c.run + 1) := by
  have hrest : rest <:+ startSteps := (List.suffix_cons f rest).trans hr
  refine ⟨hrest, ?_⟩
  simp only [startSteps, List.suffix_cons_iff, List.cons.injEq, List.suffix_nil, reduceCtorEq, or_false] at hr
  rcases hr with ⟨rfl, rfl⟩ | ⟨rfl, rfl⟩ | ⟨rfl, rfl⟩
  · exact ⟨fun c => Nat.le_refl _, nofun⟩
  · exact ⟨fun c => Nat.le_refl _, nofun⟩
  · exact ⟨fun c => Nat.le_succ _, fun _ c => rfl⟩

theorem Controls.finish_suffix {f : Controls → Controls} {rest : List (Controls → Controls)} {last : Phase}
    (hr : f :: rest <:+ finishSteps last) :
    rest <:+ finishSteps last ∧ (∀ c, (f c).run = c.run) ∧ (rest = [] → ∀ c, (f c).phase = .idle) := by
  have hrest : rest <:+ finishSteps last := (List.suffix_cons f rest).trans hr
  refine ⟨hrest, ?_⟩
  simp only [finishSteps, List.suffix_cons_iff, List.cons.injEq, List.suffix_nil, reduceCtorEq, or_false] at hr
  rcases hr with ⟨rfl, rfl⟩ | ⟨rfl, rfl⟩ | ⟨rfl, rfl⟩
  · exact ⟨fun c => rfl, nofun⟩
  · exact ⟨fun c => rfl, nofun⟩
  · exact ⟨fun c => rfl, fun _ c => rfl⟩

theorem Controls.pop_keeps (c : Controls) : c.pop.2.run = c.run ∧ c.pop.2.phase = c.phase := by
  unfold pop
  cases c.signals <;> exact ⟨rfl, rfl⟩

theorem Job.Sound.active_eases (hj : j.Sound h past) (hcontrols : h'.controls.run = h.controls.run ∧
    h'.controls.phase = h.controls.phase) (hbusy : h'.board.busy = h.board.busy)
    (hpending : h'.board.pending = h.board.pending) : j.Sound h' past :=
  hj.eases ⟨hcontrols.2, hcontrols.1, hbusy, hpending ▸ List.Sublist.refl _⟩

theorem Job.Step.sound (hs : Job.Step h j d h' j') (hn : numbers [d] = []) (hj : j.Sound h past)
    (hruns : ∀ q ∈ past, q.1 ≤ h.controls.run) :
    j'.Sound h' past ∧ h.controls.run ≤ h'.controls.run ∧ d ≠ .rejected := by
  obtain ⟨hbusy, hstage, hpending, hasked⟩ := hj
  cases hs with
  | reset o =>
    obtain ⟨hidle, -, rfl⟩ := hstage
    refine ⟨⟨hbusy, ⟨hidle, rfl, rfl⟩, ?_, ?_⟩, Nat.le_refl _, nofun⟩
    · intro p hp
      cases hp
    · intro p hp
      cases hp
  | enter hidle =>
    obtain ⟨-, hnil, rfl⟩ := hstage
    exact ⟨⟨hbusy, ⟨List.suffix_refl _, hnil, rfl, nofun⟩, hpending, hasked⟩, Nat.le_refl _, nofun⟩
  -- A worker that comes to the engine finds it idle: no other has held it since it was acquired.
  | reject hactive => exact absurd hstage.1 hactive
  | @start asked f rest =>
    obtain ⟨hrest, hnil, rfl, -⟩ := hstage
    obtain ⟨hrest', hle, hlast⟩ := Controls.start_suffix hrest
    refine ⟨⟨hbusy, ⟨hrest', hnil, rfl, ?_⟩, hpending, ?_⟩, hle _, nofun⟩
    · intro hnil q hq
      dsimp only
      rw [hlast hnil]
      exact Nat.lt_succ_of_le (hruns q hq)
    · intro p hp
      cases hp
  | run =>
    obtain ⟨-, -, -, hpast⟩ := hstage
    refine ⟨⟨hbusy, ?_, hpending, hasked⟩, Nat.le_refl _, nofun⟩
    intro q hq hrun
    have hlt := hpast rfl q hq
    omega
  | ask message => cases hn
  | receive | collect | plot =>
    have hj : Job.Sound h past ⟨.active, _⟩ := ⟨hbusy, hstage, hpending, hasked⟩
    exact ⟨hj.active_eases ⟨rfl, rfl⟩ rfl rfl, Nat.le_refl _, nofun⟩
  | read =>
    have hj : Job.Sound h past ⟨.active, _⟩ := ⟨hbusy, hstage, hpending, hasked⟩
    have hpop := h.controls.pop_keeps
    exact ⟨hj.active_eases hpop rfl rfl, Nat.le_of_eq hpop.1.symm, nofun⟩
  | conclude last =>
    exact ⟨⟨hbusy, ⟨⟨last, List.suffix_refl _⟩, nofun⟩, hpending, hasked⟩, Nat.le_refl _, nofun⟩
  | finish =>
    obtain ⟨⟨last, hrest⟩, -⟩ := hstage
    obtain ⟨hrest', hrun, hlast⟩ := Controls.finish_suffix hrest
    refine ⟨⟨hbusy, ⟨⟨last, hrest'⟩, fun hnil => hlast hnil _⟩, hpending, ?_⟩, Nat.le_of_eq (hrun _).symm, nofun⟩
    intro p hp
    dsimp only
    rw [hrun]
    exact hasked p hp
  | report => exact ⟨⟨hbusy, hstage.2 rfl, hpending, hasked⟩, Nat.le_refl _, nofun⟩
  | close =>
    refine ⟨⟨hbusy, ⟨hstage, rfl⟩, ?_, hasked⟩, Nat.le_refl _, nofun⟩
    intro p hp
    cases hp

theorem Job.Step.asks {run n : Nat} {message : String} (hs : Job.Step h j (.asked run n message) h' j')
    (hj : j.Sound h past) :
    j'.Sound h' (past ++ [(run, n)]) ∧ h'.controls.run = h.controls.run ∧ run = h.controls.run ∧
      (run, n) ∉ past := by
  obtain ⟨hbusy, hstage, hpending, hasked⟩ := hj
  cases hs with
  | @ask asked message =>
    have hpast : ∀ q ∈ past, q.1 = h.controls.run → q.2 ≤ asked.length := hstage
    refine ⟨⟨hbusy, ?_, ?_, ?_⟩, rfl, rfl, ?_⟩
    · intro q hq hrun
      rw [List.length_append, List.length_singleton]
      rcases List.mem_append.mp hq with hq | hq
      · exact Nat.le_succ_of_le (hpast q hq hrun)
      · rw [List.mem_singleton.mp hq]
    · intro p hp
      rcases RunBoard.mem_insertPrompt hp with rfl | hp
      · exact List.mem_append_right _ (List.mem_singleton_self _)
      · exact List.mem_append_left _ (hpending p hp)
    · intro p hp
      rcases List.mem_append.mp hp with hp | hp
      · exact hasked p hp
      · rw [List.mem_singleton.mp hp]
        rfl
    -- The past holds no prompt of this run beyond those the job has asked.
    · intro hmem
      have hle := hpast _ hmem rfl
      omega

theorem Deed.number_cases (d : Deed) :
    numbers [d] = [] ∨ ∃ run n message, d = .asked run n message := by
  cases d with
  | asked run n message => exact .inr ⟨run, n, message, rfl⟩
  | moved | refused | missing | withdrawn | stale | answered | admitted | rejected | worked => exact .inl rfl

theorem Floor.Step.sound {F F' : Floor} (hs : Floor.Step F d F') (hF : F.Sound past) :
    F'.Sound (past ++ numbers [d]) ∧ d ≠ .rejected := by
  obtain ⟨hnodup, hruns, hrests, hjob⟩ := hF
  cases hs with
  | @client h h' job d hs =>
    obtain ⟨hnumber, hd⟩ := hs.number
    have he := hs.eases
    rw [hnumber, List.append_nil]
    refine ⟨⟨hnodup, ?_, ?_, ?_⟩, hd⟩
    · intro q hq
      rw [he.run]
      exact hruns q hq
    · intro hnone
      obtain ⟨hbusy, hidle, hnil⟩ := hrests hnone
      exact ⟨he.busy.trans hbusy, he.phase.trans hidle, List.eq_nil_of_sublist_nil (hnil ▸ he.pending)⟩
    · intro j hj
      exact (hjob j hj).eases he
  | @acquire h job b hb =>
    obtain ⟨hfree, rfl⟩ := RunBoard.acquire?_eq_some hb
    cases job with
    | some j =>
      have hbusy := (hjob j rfl).busy
      cases hfree.symm.trans hbusy
    | none =>
      obtain ⟨-, hidle, hnil⟩ := hrests rfl
      have hnumber : numbers [.admitted] = [] := rfl
      rw [hnumber, List.append_nil]
      refine ⟨⟨hnodup, hruns, nofun, ?_⟩, nofun⟩
      rintro j ⟨⟩
      refine ⟨rfl, ⟨hidle, hnil, rfl⟩, ?_, nofun⟩
      intro p hp
      have hp' : p ∈ h.board.pending := hp
      have hnil' : h.board.pending = [] := hnil
      rw [hnil'] at hp'
      cases hp'
  | @worker h h' j j' d hs =>
    have hj := hjob j rfl
    rcases d.number_cases with hnumber | ⟨run, n, message, rfl⟩
    · obtain ⟨hj', hle, hd⟩ := hs.sound hnumber hj hruns
      rw [hnumber, List.append_nil]
      refine ⟨⟨hnodup, ?_, nofun, ?_⟩, hd⟩
      · intro q hq
        exact Nat.le_trans (hruns q hq) hle
      · rintro j ⟨⟩
        exact hj'
    · obtain ⟨hj', hrun', rfl, hnew⟩ := hs.asks hj
      have hnumber : numbers [.asked h.controls.run n message] = [(h.controls.run, n)] := rfl
      rw [hnumber]
      refine ⟨⟨?_, ?_, nofun, ?_⟩, nofun⟩
      · rw [← List.concat_eq_append]
        exact hnodup.concat hnew
      · intro q hq
        dsimp only
        rw [hrun']
        rcases List.mem_append.mp hq with hq | hq
        · exact hruns q hq
        · rw [List.mem_singleton.mp hq]
      · rintro j ⟨⟩
        exact hj'
  | @release h asked =>
    obtain ⟨-, ⟨hidle, hnil⟩, -, -⟩ := hjob _ rfl
    have hnumber : numbers [.worked] = [] := rfl
    rw [hnumber, List.append_nil]
    exact ⟨⟨hnodup, hruns, fun _ => ⟨rfl, hidle, hnil⟩, nofun⟩, nofun⟩

theorem Floor.Path.sound {ds : List Deed} {F : Floor} (hp : Floor.Path {} ds F) :
    F.Sound (numbers ds) ∧ .rejected ∉ ds := by
  induction hp with
  | refl =>
    refine ⟨⟨List.nodup_nil, ?_, fun _ => ⟨rfl, rfl, rfl⟩, nofun⟩, List.not_mem_nil⟩
    intro q hq
    cases hq
  | tail _ hs ih =>
    obtain ⟨hF, hrejected⟩ := ih
    obtain ⟨hF', hd⟩ := hs.sound hF
    rw [numbers_append]
    refine ⟨hF', ?_⟩
    intro hmem
    rcases List.mem_append.mp hmem with hmem | hmem
    · exact hrejected hmem
    · exact hd (List.mem_singleton.mp hmem).symm

end Order

/-- From the first prompt of a run until the worker clears the board. -/
def Stage.Shows : Stage → Prop
  | active | finishing _ | returned => True
  | admitted | ready | starting _ | cleared => False

theorem Job.Sound.shows {h : Hall} {j : Job} {past : List (Nat × Nat)} (hj : j.Sound h past) {p : Prompt}
    (hp : p ∈ h.board.pending) : j.stage.Shows := by
  obtain ⟨stage, asked⟩ := j
  have hstage := hj.stage
  have hlisted : h.board.pending ≠ [] := List.ne_nil_of_mem hp
  cases stage with
  | active | finishing | returned => trivial
  | admitted | ready | starting => exact absurd hstage.2.1 hlisted
  | cleared => exact absurd hstage.2 hlisted

theorem promptIds_nodup {ds : List Deed} (hd : (numbers ds).Nodup)
    (hsmall : ∀ q ∈ numbers ds, q.1 < UInt32.size ∧ q.2 < UInt32.size) : (promptIds ds).Nodup := by
  refine hd.map_on fun q hq q' hq' heq => ?_
  obtain ⟨hrun, hn⟩ := hsmall q hq
  obtain ⟨hrun', hn'⟩ := hsmall q' hq'
  obtain ⟨hruns, hns⟩ := RunContext.promptId_inj hrun hn hrun' hn' heq
  exact Prod.ext hruns hns

end Apiary
