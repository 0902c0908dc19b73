import Apiary.Host.Call
import Apiary.Proofs.Engine.Record

/-!
The exchange over one prompt: any number of responders on one side, the run that waits on the other, and
controllers beside them. The run takes a value out of the slot in one step and gives the slot up in a later one;
until then the slot takes answers.
-/

namespace Apiary

inductive Reply
  | answered (b : Bool)
  | unanswered
  | stopped
  deriving DecidableEq

inductive Stance
  | waiting
  | timedOut
  | leaving (r : Reply)
  | left (r : Reply)
  deriving DecidableEq

structure Exchange where
  controls : Controls
  slot : Slot := {}
  responders : Nat := 1
  stance : Stance := .waiting

/-- What a run knows of the answers that were accepted, once it has made up its mind. -/
def Reply.Fits (slot : Slot) (responders : Nat) (answers : List Bool) : Reply → Prop
  | .answered b => answers = b :: slot.answer?.toList
  | .unanswered => answers = [] ∧ responders = 0
  | .stopped => answers = slot.answer?.toList

def Stance.Fits (slot : Slot) (responders : Nat) (answers : List Bool) : Stance → Prop
  | .waiting | .timedOut => slot.live = true ∧ answers = slot.answer?.toList
  | .leaving r => slot.live = true ∧ r.Fits slot responders answers
  | .left r => slot.live = false ∧ r.Fits slot responders answers

theorem Stance.Fits.congr {slot slot' : Slot} {n m : Nat} {answers : List Bool} {stance : Stance}
    (h : stance.Fits slot n answers) (hn : n ≠ 0) (hlive : slot'.live = slot.live)
    (hanswer : slot'.answer? = slot.answer?) : stance.Fits slot' m answers := by
  have hreply : ∀ r : Reply, r.Fits slot n answers → r.Fits slot' m answers := by
    intro r hr
    cases r with
    | answered b => exact hr.trans (congrArg (b :: Option.toList ·) hanswer.symm)
    | unanswered => exact absurd hr.2 hn
    | stopped => exact hr.trans (congrArg Option.toList hanswer.symm)
  cases stance with
  | waiting | timedOut => exact ⟨hlive.trans h.1, h.2.trans (congrArg Option.toList hanswer.symm)⟩
  | leaving r | left r => exact ⟨hlive.trans h.1, hreply r h.2⟩

theorem Slot.fill?_eq_some {b : Bool} {s s' : Slot} (h : s.fill? b = some s') :
    s.live = true ∧ s.answer? = none ∧ s' = { s with answer? := some b } := by
  unfold fill? at h
  split at h
  · next hopen =>
    obtain ⟨hlive, hempty⟩ := Bool.and_eq_true _ _ ▸ hopen
    cases h
    exact ⟨hlive, Option.isNone_iff_eq_none.mp hempty, rfl⟩
  · cases h

theorem Slot.fill?_of_closed {s : Slot} (h : s.live = false) (b : Bool) : s.fill? b = none := by
  unfold fill?
  rw [h, Bool.false_and]
  rfl

namespace Exchange

inductive Deed
  | accepted (b : Bool)
  | stale (b : Bool)
  | cloned
  | dropped
  | moved (m : Move)
  | received (b : Bool)
  | deserted
  | timedOut
  | goesOn
  | stopped
  | closed
  deriving DecidableEq

inductive Step (x : Exchange) : Deed → Exchange → Prop
  | accept {b : Bool} {slot : Slot} : 0 < x.responders → x.slot.fill? b = some slot →
    Step x (.accepted b) { x with slot := slot }
  | refuse {b : Bool} : 0 < x.responders → x.slot.fill? b = none → Step x (.stale b) x
  | clone : 0 < x.responders → Step x .cloned { x with responders := x.responders + 1 }
  | drop {n : Nat} : x.responders = n + 1 →
    Step x .dropped { x with responders := n, slot := if n = 0 then x.slot.drop else x.slot }
  | move (m : Move) : Step x (.moved m) { x with controls := m.act x.controls }
  | receive {b : Bool} : x.stance = .waiting → x.slot.take.1 = some b →
    Step x (.received b) { x with slot := x.slot.take.2, stance := .leaving (.answered b) }
  | desert : x.stance = .waiting → x.slot.take.1 = none → x.slot.held = false →
    Step x .deserted { x with stance := .leaving .unanswered }
  | timeOut : x.stance = .waiting → x.slot.take.1 = none → x.slot.held = true →
    Step x .timedOut { x with stance := .timedOut }
  | goOn : x.stance = .timedOut → x.controls.running = true → Step x .goesOn { x with stance := .waiting }
  | stop : x.stance = .timedOut → x.controls.running = false →
    Step x .stopped { x with stance := .leaving .stopped }
  | close {r : Reply} : x.stance = .leaving r → Step x .closed { x with slot := x.slot.close, stance := .left r }

abbrev Path : Exchange → List Deed → Exchange → Prop := Course Step

def Deed.accepted? : Deed → Option Bool
  | .accepted b => some b
  | _ => none

def accepted (ds : List Deed) : List Bool := ds.filterMap Deed.accepted?

@[simp] theorem accepted_append (ds ds' : List Deed) : accepted (ds ++ ds') = accepted ds ++ accepted ds' :=
  List.filterMap_append

theorem accepted_moved (ms : List Move) : accepted (ms.map .moved) = [] := by
  induction ms with
  | nil => rfl
  | cons m rest ih => exact ih

structure Sound (ds : List Deed) (x : Exchange) : Prop where
  held : x.slot.held = decide (0 < x.responders)
  fits : Stance.Fits x.slot x.responders (accepted ds) x.stance

variable {x x' : Exchange} {ds : List Deed} {d : Deed}

theorem Sound.accept {b : Bool} {slot : Slot} (h : Sound ds x) (hresponders : 0 < x.responders)
    (hfill : x.slot.fill? b = some slot) : Sound (ds ++ [.accepted b]) { x with slot := slot } := by
  obtain ⟨hlive, hempty, rfl⟩ := Slot.fill?_eq_some hfill
  obtain ⟨hheld, hfits⟩ := h
  have haccepted : accepted (ds ++ [.accepted b]) = accepted ds ++ [b] := accepted_append ds _
  refine ⟨hheld, ?_⟩
  rw [haccepted]
  obtain ⟨controls, slot, responders, stance⟩ := x
  dsimp only at hlive hempty hfits hresponders ⊢
  cases stance with
  | waiting | timedOut =>
    obtain ⟨-, hanswers⟩ := hfits
    refine ⟨hlive, ?_⟩
    rw [hanswers, hempty]
    rfl
  | leaving r =>
    obtain ⟨-, hr⟩ := hfits
    refine ⟨hlive, ?_⟩
    cases r with
    | answered c =>
      have hanswers : accepted ds = c :: slot.answer?.toList := hr
      rw [hanswers, hempty]
      rfl
    | unanswered => exact absurd hr.2 (Nat.pos_iff_ne_zero.mp hresponders)
    | stopped =>
      have hanswers : accepted ds = slot.answer?.toList := hr
      rw [hanswers, hempty]
      rfl
  | left r => cases hlive.symm.trans hfits.1

theorem Sound.silent (h : Sound ds x) (hd : accepted [d] = []) : Sound (ds ++ [d]) x := by
  refine ⟨h.held, ?_⟩
  rw [accepted_append, hd, List.append_nil]
  exact h.fits

theorem Step.sound (hs : Step x d x') (h : Sound ds x) : Sound (ds ++ [d]) x' := by
  obtain ⟨hheld, hfits⟩ := h
  cases hs with
  | accept hresponders hfill => exact Sound.accept ⟨hheld, hfits⟩ hresponders hfill
  | refuse | move => exact Sound.silent ⟨hheld, hfits⟩ rfl
  | clone hresponders =>
    refine Sound.silent ⟨?_, hfits.congr (Nat.pos_iff_ne_zero.mp hresponders) rfl rfl⟩ rfl
    rw [hheld, decide_eq_true hresponders, decide_eq_true (Nat.succ_pos _)]
  | @drop n hresponders =>
    have hne : x.responders ≠ 0 := by omega
    refine Sound.silent ⟨?_, hfits.congr hne ?_ ?_⟩ rfl
    · by_cases hn : n = 0
      · simp [hn, Slot.drop]
      · have hpos : 0 < n := Nat.pos_of_ne_zero hn
        simp [hn, hheld, hresponders, hpos]
    · dsimp only
      split <;> rfl
    · dsimp only
      split <;> rfl
  | receive hwaiting htake =>
    rw [hwaiting] at hfits
    obtain ⟨hlive, hanswers⟩ := hfits
    refine Sound.silent ⟨hheld, hlive, ?_⟩ rfl
    have hsome : x.slot.answer? = some _ := htake
    rw [hsome] at hanswers
    exact hanswers
  | desert hwaiting hempty hfree =>
    rw [hwaiting] at hfits
    obtain ⟨hlive, hanswers⟩ := hfits
    have hnone : x.slot.answer? = none := hempty
    rw [hnone] at hanswers
    refine Sound.silent ⟨hheld, hlive, hanswers, ?_⟩ rfl
    have hgone : decide (0 < x.responders) = false := hheld.symm.trans hfree
    exact Nat.eq_zero_of_not_pos (of_decide_eq_false hgone)
  | timeOut hwaiting | goOn hwaiting | stop hwaiting =>
    rw [hwaiting] at hfits
    exact Sound.silent ⟨hheld, hfits⟩ rfl
  | close hleaving =>
    rw [hleaving] at hfits
    obtain ⟨-, hr⟩ := hfits
    refine Sound.silent ⟨hheld, rfl, ?_⟩ rfl
    exact hr

theorem Path.sound {c : Controls} (hp : Path { controls := c } ds x) : Sound ds x := by
  induction hp with
  | refl => exact ⟨rfl, rfl, rfl⟩
  | tail _ hs ih => exact hs.sound ih

def Replies (x : Exchange) (r : Reply) : Prop := x.stance = .leaving r ∨ x.stance = .left r

theorem Sound.reply (h : Sound ds x) {r : Reply} (hr : x.Replies r) :
    r.Fits x.slot x.responders (accepted ds) := by
  have hfits := h.fits
  rcases hr with hr | hr
  · rw [hr] at hfits
    exact hfits.2
  · rw [hr] at hfits
    exact hfits.2

theorem length_toList (answer? : Option Bool) : answer?.toList.length ≤ 1 := by
  cases answer? with
  | none => exact Nat.zero_le _
  | some b => exact Nat.le_refl _

theorem Sound.waiting (h : Sound ds x) (hw : x.stance = .waiting ∨ x.stance = .timedOut) :
    (accepted ds).length ≤ 1 := by
  have hfits := h.fits
  rcases hw with hw | hw
  · rw [hw] at hfits
    rw [hfits.2]
    exact length_toList x.slot.answer?
  · rw [hw] at hfits
    rw [hfits.2]
    exact length_toList x.slot.answer?

theorem Sound.stopped (h : Sound ds x) (hr : x.Replies .stopped) : (accepted ds).length ≤ 1 := by
  have hanswers : accepted ds = x.slot.answer?.toList := h.reply hr
  rw [hanswers]
  exact length_toList x.slot.answer?

/-- The answer that the run takes is the first; one more can follow before the slot is given up. -/
theorem Sound.answered (h : Sound ds x) {b : Bool} (hr : x.Replies (.answered b)) :
    ∃ late, accepted ds = b :: late ∧ late.length ≤ 1 :=
  ⟨_, h.reply hr, length_toList x.slot.answer?⟩

/-- No more answers get in until the run leaves the exchange with this reply. -/
def Leaves (x : Exchange) (r : Reply) (c : Controls) : Prop :=
  ∃ ds x', Path x ds x' ∧ accepted ds = [] ∧ x'.stance = .left r ∧ x'.controls = c

variable {τ : Type}

/-- A client that works on the slot of a prompt, while it has it, in steps of responders and controllers. -/
structure Serves (st : Station τ) : Prop where
  confirm {p : Prompt} {s s' : Shared τ} {slot : Slot} : st.sink.confirm p {} s = .ok slot s' →
    ∃ ds n, Path { controls := s.controls } ds { controls := s'.controls, slot := slot, responders := n }
  meanwhile (s : Shared τ) : ∃ ms, (st.sink.meanwhile s).controls = Move.play ms s.controls

/-- What a request for an answer comes to, by the answers that were accepted until the run first looks. -/
inductive Settles (x : Exchange) (given : List Bool) : EStateM.Result Interrupt (Store (Desk τ)) Value → Prop
  | answered {b : Bool} {store : Store (Desk τ)} : given = [b] →
    x.Leaves (.answered b) store.host.shared.controls → Settles x given (.ok (.bool b) store)
  | unanswered {store : Store (Desk τ)} : given = [] → x.responders = 0 →
    x.Leaves .unanswered store.host.shared.controls → Settles x given (.ok (.bool false) store)
  | stopped {store : Store (Desk τ)} : given = [] → 0 < x.responders →
    x.Leaves .stopped store.host.shared.controls → Settles x given (.error .stopped store)
  | waits {store : Store (Desk τ)} : given = [] → 0 < x.responders →
    store.host.shared.controls.running = true → Settles x given (.error (.endless .waiting) store)

section Request

variable {st : Station τ} {c : RunContext Nat} {heap : Heap} {s s' : Shared τ} {args : List Value} {message : String}
  {slot : Slot}

def nextPrompt (c : RunContext Nat) (message : String) : Prompt :=
  ⟨UInt64.ofNat c.run, RunContext.promptId c.run (c.prompts + 1), message⟩

theorem requestConfirmation_breaks (hmessage : heap.display? (DeskAct.argAt args 0) = some message)
    (hconfirm : st.sink.confirm (nextPrompt c message) {} s = .error () s') :
    DeskAct.requestConfirmation st args ⟨heap, ⟨c, s⟩⟩ =
      .error .fault ⟨heap, ⟨{ c with prompts := c.prompts + 1 }, s'⟩⟩ := by
  rw [nextPrompt] at hconfirm
  simp only [DeskAct.requestConfirmation, HostAct.display, HostAct.convert, DeskAct.ask, DeskAct.setContext,
    DeskAct.tell, Bind.bind, EStateM.bind, hmessage, hconfirm]

theorem requestConfirmation_settles (hmeanwhile : ∃ ms, (st.sink.meanwhile s').controls = Move.play ms s'.controls)
    (hmessage : heap.display? (DeskAct.argAt args 0) = some message)
    (hconfirm : st.sink.confirm (nextPrompt c message) {} s = .ok slot s') {n : Nat}
    (hp : Path { controls := s.controls } ds { controls := s'.controls, slot := slot, responders := n }) :
    Settles { controls := s'.controls, slot := slot, responders := n } (accepted ds)
      (DeskAct.requestConfirmation st args ⟨heap, ⟨c, s⟩⟩) := by
  obtain ⟨hheld, -, hgiven⟩ := hp.sound
  dsimp only at hheld hgiven
  rw [nextPrompt] at hconfirm
  simp only [DeskAct.requestConfirmation, HostAct.display, HostAct.convert, DeskAct.ask, DeskAct.setContext,
    DeskAct.tell, Bind.bind, EStateM.bind, hmessage, hconfirm]
  cases htake : slot.take.1 with
  | some b =>
    have hanswer : slot.answer? = some b := htake
    rw [hanswer] at hgiven
    exact .answered hgiven ⟨_, _, (Course.refl.tail (.receive rfl htake)).tail (.close rfl), rfl, rfl, rfl⟩
  | none =>
    have hanswer : slot.answer? = none := htake
    rw [hanswer] at hgiven
    cases hfree : slot.held with
    | false =>
      have hgone : n = 0 := Nat.eq_zero_of_not_pos (of_decide_eq_false (hheld.symm.trans hfree))
      exact .unanswered hgiven hgone
        ⟨_, _, (Course.refl.tail (.desert rfl htake hfree)).tail (.close rfl), rfl, rfl, rfl⟩
    | true =>
      have hleft : 0 < n := of_decide_eq_true (hheld.symm.trans hfree)
      obtain ⟨ms, hms⟩ := hmeanwhile
      have hmoves : Path ⟨s'.controls, slot, n, .timedOut⟩ (ms.map .moved)
          ⟨Move.play ms s'.controls, slot, n, .timedOut⟩ :=
        Course.moves (fun c' => (⟨c', slot, n, .timedOut⟩ : Exchange)) Deed.moved (fun m _ => .move m) ms
          s'.controls
      have htimed : Path ⟨s'.controls, slot, n, .waiting⟩ [.timedOut] ⟨s'.controls, slot, n, .timedOut⟩ :=
        Course.refl.tail (.timeOut rfl htake hfree)
      have hmoved := htimed.trans hmoves
      have hlook : DeskAct.isRunning st ⟨heap, ⟨{ c with prompts := c.prompts + 1 }, s'⟩⟩ =
          .ok (st.sink.meanwhile s').controls.running
            ⟨heap, ⟨{ c with prompts := c.prompts + 1 }, st.sink.meanwhile s'⟩⟩ := rfl
      simp only [Bool.not_true, EStateM.bind, hlook, if_false, Bool.false_eq_true]
      cases hrunning : (st.sink.meanwhile s').controls.running with
      | true => exact .waits hgiven hleft hrunning
      | false =>
        refine .stopped hgiven hleft
          ⟨_, _, (hmoved.tail (.stop rfl (hms ▸ hrunning))).tail (.close rfl), ?_, rfl, hms.symm⟩
        rw [accepted_append, accepted_append, accepted_append, accepted_moved]
        rfl

end Request

theorem controllers_serve (k : Controllers) : Serves k.station where
  confirm {p s s' slot} h := by
    obtain ⟨controls, client⟩ := s
    have hpath : Path { controls := controls } _ { controls := Move.play (k.on (.confirmation p)) controls } :=
      Course.moves (fun c => ({ controls := c } : Exchange)) Deed.moved (fun m _ => .move m) _ controls
    simp only [Controllers.station, Controllers.sink, Controllers.take, Bind.bind, EStateM.bind] at h
    cases hb : k.breaks (.confirmation p) with
    | true =>
      rw [hb] at h
      cases h
    | false =>
      rw [hb] at h
      cases h
      exact ⟨_, 1, hpath⟩
  meanwhile s := ⟨k.meanwhile s.client, rfl⟩

theorem answers_accepted {c : Controls} (hp : Path { controls := c } ds x) :
    (x.stance = .waiting ∨ x.stance = .timedOut → (accepted ds).length ≤ 1) ∧
    (∀ b, x.Replies (.answered b) → ∃ late, accepted ds = b :: late ∧ late.length ≤ 1) ∧
    (x.Replies .unanswered → accepted ds = [] ∧ x.responders = 0) ∧
    (x.Replies .stopped → (accepted ds).length ≤ 1) ∧
    (accepted ds).length ≤ 2 ∧
    (∀ r, x.stance = .left r → ∀ b, x.slot.fill? b = none) ∧
    ∀ {τ : Type} {st : Station τ}, Serves st → ∀ args (store : Store (Desk τ)) message,
      store.heap.display? (DeskAct.argAt args 0) = some message →
      (∀ slot s', st.sink.confirm (nextPrompt store.host.context message) {} store.host.shared = .ok slot s' →
        (∃ ds n, Path { controls := store.host.shared.controls } ds
          { controls := s'.controls, slot := slot, responders := n }) ∧
        ∀ ds n, Path { controls := store.host.shared.controls } ds
          { controls := s'.controls, slot := slot, responders := n } →
          Settles { controls := s'.controls, slot := slot, responders := n } (accepted ds)
            (DeskAct.requestConfirmation st args store)) ∧
      ∀ s', st.sink.confirm (nextPrompt store.host.context message) {} store.host.shared = .error () s' →
        ∃ store', DeskAct.requestConfirmation st args store = .error .fault store' := by
  have h := hp.sound
  refine ⟨h.waiting, fun b => h.answered, h.reply, h.stopped, ?_, ?_, ?_⟩
  · have hreply : ∀ r, x.Replies r → (accepted ds).length ≤ 2 := by
      intro r hr
      cases r with
      | answered b =>
        obtain ⟨late, hanswers, hlate⟩ := h.answered hr
        rw [hanswers, List.length_cons]
        exact Nat.succ_le_succ hlate
      | unanswered =>
        rw [(h.reply hr).1]
        exact Nat.zero_le _
      | stopped => exact Nat.le_succ_of_le (h.stopped hr)
    cases hx : x.stance with
    | waiting => exact Nat.le_succ_of_le (h.waiting (.inl hx))
    | timedOut => exact Nat.le_succ_of_le (h.waiting (.inr hx))
    | leaving r => exact hreply r (.inl hx)
    | left r => exact hreply r (.inr hx)
  · intro r hr b
    have hfits := h.fits
    rw [hr] at hfits
    exact Slot.fill?_of_closed hfits.1 b
  · intro τ st hserves args store message hmessage
    refine ⟨fun slot s' hconfirm => ⟨hserves.confirm hconfirm, fun ds n hgiven => ?_⟩, fun s' hconfirm => ?_⟩
    · exact requestConfirmation_settles (hserves.meanwhile s') hmessage hconfirm hgiven
    · exact ⟨_, requestConfirmation_breaks hmessage hconfirm⟩

/-- Two responders answer, one before the run takes the value and one before it gives the slot up. -/
def answeredTwice : List Deed := [.cloned, .accepted true, .received true, .accepted false, .closed]

theorem answeredTwice_path :
    ∃ x, Path { controls := {} } answeredTwice x ∧ x.stance = .left (.answered true) := by
  have hready : Path { controls := {} } [.cloned, .accepted true]
      { controls := {}, responders := 2, slot := { answer? := some true } } :=
    (Course.refl.tail (.clone (Nat.succ_pos 0))).tail (.accept (Nat.succ_pos 1) rfl)
  have hlate : Path { controls := {} } [.cloned, .accepted true, .received true, .accepted false]
      { controls := {}, responders := 2, slot := { answer? := some false }, stance := .leaving (.answered true) } :=
    (hready.tail (.receive rfl rfl)).tail (.accept (Nat.succ_pos 1) rfl)
  exact ⟨_, hlate.tail (.close rfl), rfl⟩

/-- A client that gives each prompt this answer at once, and keeps no responder. -/
def answering (b : Bool) : Station Unit where
  sink :=
    { log := fun _ => pure ()
      plot := fun _ => pure ()
      code := fun _ => pure ()
      checkpoint := fun _ => pure ()
      confirm := fun _ slot => pure ((slot.fill? b).getD slot).drop }
  files _ := []
  clock := .still 0
  codec := .standard

theorem answering_path (b : Bool) (c : Controls) :
    Path { controls := c } [.accepted b, .dropped]
      { controls := c, slot := { answer? := some b, held := false }, responders := 0 } := by
  have haccepted : Path { controls := c } [.accepted b] { controls := c, slot := { answer? := some b } } :=
    Course.refl.tail (.accept (Nat.succ_pos 0) rfl)
  exact haccepted.tail (.drop (n := 0) rfl)

theorem answering_serves (b : Bool) : Serves (answering b) where
  confirm {p s s' slot} h := by
    cases h
    exact ⟨_, 0, answering_path b s.controls⟩
  meanwhile s := ⟨[], rfl⟩

/-- A run that is about to ask, and that is to stop. -/
def asking {τ : Type} (client : τ) : Store (Desk τ) := ⟨{}, ⟨RunContext.new 1 ";" (Prng.ofSeed 7), ⟨{}, client⟩⟩⟩

theorem answeredTwice_accepted :
    (∃ x late, Path { controls := {} } answeredTwice x ∧ accepted answeredTwice = true :: late ∧
      late.length ≤ 1 ∧ ∀ b, x.slot.fill? b = none) ∧
    Settles { controls := {}, slot := { answer? := some true, held := false }, responders := 0 } [true]
      (DeskAct.requestConfirmation (answering true) [.string "deploy?"] (asking ())) ∧
    (∃ store', DeskAct.requestConfirmation (answering true) [.string "deploy?"] (asking ()) =
      .ok (.bool true) store') ∧
    Settles { controls := {} } []
      (DeskAct.requestConfirmation (Controllers.station {}) [.string "deploy?"] (asking [])) ∧
    ∃ store', DeskAct.requestConfirmation (Controllers.station {}) [.string "deploy?"] (asking []) =
      .error .stopped store' := by
  obtain ⟨x, hp, hleft⟩ := answeredTwice_path
  obtain ⟨-, hanswered, -, -, -, hclosed, hsettles⟩ := answers_accepted hp
  obtain ⟨late, hlate, hlength⟩ := hanswered true (.inr hleft)
  refine ⟨⟨x, late, hp, hlate, hlength, hclosed _ hleft⟩, ?_, ⟨_, rfl⟩, ?_, ⟨_, rfl⟩⟩
  · obtain ⟨htold, -⟩ := hsettles (answering_serves true) [.string "deploy?"] (asking ()) "deploy?" rfl
    exact (htold _ _ rfl).2 _ 0 (answering_path true {})
  · obtain ⟨htold, -⟩ := hsettles (controllers_serve {}) [.string "deploy?"] (asking []) "deploy?" rfl
    exact (htold _ _ rfl).2 _ 1 .refl

-- The second answer goes nowhere, though its responder was told that it was taken.
theorem second_answer_accepted :
    ∃ x, Path { controls := {} } answeredTwice x ∧ x.stance = .left (.answered true) ∧
      accepted answeredTwice = [true, false] := by
  obtain ⟨x, hp, hleft⟩ := answeredTwice_path
  exact ⟨x, hp, hleft, rfl⟩

end Exchange

end Apiary
