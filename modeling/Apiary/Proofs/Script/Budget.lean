import Apiary.Proofs.Script.Stepwise.Code
import Apiary.Proofs.Script.Record

/-!
Two runs of one program, the second with at least as many checkpoints to spend: they agree until the first
run is out of checkpoints, and then the first is over. What cuts a run short is the last thing it asks for.
-/

namespace Apiary

def World.checked {σ : Type} (host : Host σ) (stopped : Bool) (w : World (Recorded σ)) :
    World (Recorded σ) :=
  { w with host := w.host.add ⟨.checkpoint, stopped⟩ (Act.final (host.checkpoint w.host.state)) }

namespace Act

variable {σ α : Type} {n m : Nat}

open Recorded

theorem checkpoint_budgeted (host : Host σ) (w : World (Recorded σ)) :
    checkpoint (host.budgeted n) w =
      if checkpoints w.host.trace < n then .ok () (w.checked host false)
      else .error .stopped (w.checked host true) := by
  by_cases hn : checkpoints w.host.trace < n
  · simp only [checkpoint, lift, HostAct.own, Host.budgeted, if_pos hn, World.checked]
  · simp only [checkpoint, lift, HostAct.own, Host.budgeted, if_neg hn, World.checked]

inductive Met (n : Nat) : EStateM.Result Interrupt (World (Recorded σ)) α →
    EStateM.Result Interrupt (World (Recorded σ)) α → Prop
  | ok {x : α} {w : World (Recorded σ)} : Ongoing n w.host.trace → Met n (.ok x w) (.ok x w)
  | error {e : Interrupt} {w : World (Recorded σ)} : e ≠ .stopped → Ongoing n w.host.trace →
    Met n (.error e w) (.error e w)
  | stopped {w : World (Recorded σ)} {t : List Interaction} {i : Interaction} :
    w.host.trace = t ++ [i] → Ongoing n t → i.request.isCheckpoint = false →
    Met n (.error .stopped w) (.error .stopped w)
  | cut {w : World (Recorded σ)} {b : EStateM.Result Interrupt (World (Recorded σ)) α}
    {t : List Interaction} : w.host.trace = t ++ [⟨.checkpoint, true⟩] → Ongoing n t →
    checkpoints t = n → requests w.host.trace <+: requests (final b).host.trace →
    Met n (.error .stopped w) b

namespace Met

variable {r b : EStateM.Result Interrupt (World (Recorded σ)) α}

theorem requests_le (h : Met n r b) :
    requests (final r).host.trace <+: requests (final b).host.trace := by
  cases h with
  | ok | error | stopped => exact List.prefix_refl _
  | cut _ _ _ hp => exact hp

theorem checkpoints_cut {t : List Interaction} (hn : checkpoints t = n) :
    checkpoints (t ++ [⟨.checkpoint, true⟩]) = n + 1 := by
  rw [checkpoints_add, hn]
  rfl

theorem of_lt (h : Met n r b) (hn : n < checkpoints (final r).host.trace) :
    ∃ w t, r = .error .stopped w ∧ w.host.trace = t ++ [⟨.checkpoint, true⟩] ∧
      checkpoints t = n := by
  cases h with
  | ok ht | error _ ht => exact absurd ht.2 (not_le.mpr hn)
  | @stopped w t i hw ht hi =>
    have hle : checkpoints w.host.trace ≤ n := by
      rw [hw, checkpoints_add, hi]
      exact ht.2
    exact absurd hle (not_le.mpr hn)
  | @cut w _ t hw _ hcount _ => exact ⟨w, t, rfl, hw, hcount⟩

theorem of_stopped (h : Met n r b) {before after : List Interaction} {i : Interaction}
    (hi : (final r).host.trace = before ++ i :: after) (hs : i.stopped = true) :
    (∃ w, r = .error .stopped w) ∧ after = [] := by
  have hmem : i ∈ (final r).host.trace := by simp [hi]
  cases h with
  | ok ht | error _ ht => exact absurd ((ht.1 i hmem).symm.trans hs) Bool.false_ne_true
  | @stopped w t j hw ht _ => exact ⟨⟨w, rfl⟩, ht.eq_of_append (hw.symm.trans hi) hs⟩
  | @cut w _ t hw ht _ _ => exact ⟨⟨w, rfl⟩, ht.eq_of_append (hw.symm.trans hi) hs⟩

theorem eq_of_le (h : Met n r b)
    (hn : checkpoints (final r).host.trace ≤ n ∨ checkpoints (final b).host.trace ≤ n) : b = r := by
  have hle : checkpoints (final r).host.trace ≤ checkpoints (final b).host.trace :=
    h.requests_le.sublist.countP_le
  cases h with
  | ok | error | stopped => rfl
  | @cut w _ t hw _ hcount _ =>
    have hmore : checkpoints w.host.trace = n + 1 := by rw [hw, checkpoints_cut hcount]
    have hw' :
        final (.error .stopped w : EStateM.Result Interrupt (World (Recorded σ)) α) = w := rfl
    rw [hw'] at hle hn
    omega

end Met

inductive Asks (w : World (Recorded σ)) : EStateM.Result Interrupt (World (Recorded σ)) α → Prop
  | ok {x : α} {v : World (Recorded σ)} {q : Request} : v.depth = w.depth →
    q.isCheckpoint = false → v.host.trace = w.host.trace ++ [⟨q, false⟩] → Asks w (.ok x v)
  | error {e : Interrupt} {v : World (Recorded σ)} {q : Request} : v.depth = w.depth →
    q.isCheckpoint = false → v.host.trace = w.host.trace ++ [⟨q, e.isStopped⟩] → Asks w (.error e v)

structure Budgeted (n d k : Nat) ⦃α : Type⦄ (a b : Act (Recorded σ) α) : Prop where
  grows (w : World (Recorded σ)) : w.depth = d →
    (final (b w)).depth = d ∧ w.host.trace <+: (final (b w)).host.trace
  met (w : World (Recorded σ)) : w.depth = d → Ongoing n w.host.trace → Met n (a w) (b w)

namespace Budgeted

variable {d k : Nat} {host : Host σ}

theorem inside {a : Act (Recorded σ) α} (ha : Inside a) : Budgeted n d k a a where
  grows w hd := by
    cases h : a w with
    | ok x v => exact ⟨(ha.ok h).2.trans hd, by rw [final, (ha.ok h).1]⟩
    | error e v => exact ⟨(ha.error h).2.1.trans hd, by rw [final, (ha.error h).1]⟩
  met w hd ht := by
    cases h : a w with
    | ok x v => exact .ok (by rw [(ha.ok h).1]; exact ht)
    | error e v =>
      obtain ⟨hh, -, he⟩ := ha.error h
      refine .error ?_ (by rw [hh]; exact ht)
      rintro rfl
      cases he

theorem attempt {β : Type} {a b : Act (Recorded σ) α}
    {f g : Except Interrupt α → Act (Recorded σ) β} (hab : Budgeted n d k a b)
    (hfg : ∀ r, isOver r = false → Budgeted n d k (f r) (g r))
    (hover : ∀ e, isOver (.error e : Except Interrupt α) = true →
      f (.error e) = throw e ∧ g (.error e) = throw e) :
    Budgeted n d k (attempt a >>= f) (attempt b >>= g) := by
  have hg : ∀ r w, w.depth = d →
      (final (g r w)).depth = d ∧ w.host.trace <+: (final (g r w)).host.trace := by
    intro r w hd
    cases hr : isOver r with
    | false => exact (hfg r hr).grows w hd
    | true =>
      cases r with
      | ok x => cases hr
      | error e =>
        rw [(hover e hr).2]
        exact ⟨hd, List.prefix_refl _⟩
  have hext : ∀ w, w.depth = d → (final ((Act.attempt b >>= g) w)).depth = d ∧
      (final (b w)).host.trace <+: (final ((Act.attempt b >>= g) w)).host.trace := by
    intro w hd
    have hb := (hab.grows w hd).1
    simp only [Bind.bind, EStateM.bind, Act.attempt]
    cases h : b w with
    | ok x v =>
      rw [h] at hb
      exact hg (.ok x) v hb
    | error e v =>
      rw [h] at hb
      exact hg (.error e) v hb
  refine ⟨fun w hd => ⟨(hext w hd).1, (hab.grows w hd).2.trans (hext w hd).2⟩, fun w hd ht => ?_⟩
  have hmet := hab.met w hd ht
  have hb := (hab.grows w hd).1
  have hbg := (hext w hd).2
  simp only [Bind.bind, EStateM.bind, Act.attempt] at hbg ⊢
  generalize a w = ra at hmet ⊢
  generalize b w = rb at hmet hb hbg ⊢
  cases hmet with
  | @ok x v ht => exact (hfg (.ok x) rfl).met v hb ht
  | @error e v he ht =>
    cases hr : isOver (.error e : Except Interrupt α) with
    | false => exact (hfg (.error e) hr).met v hb ht
    | true =>
      simp only [(hover e hr).1, (hover e hr).2]
      exact .error he ht
  | stopped h ht hi =>
    simp only [(hover .stopped rfl).1, (hover .stopped rfl).2]
    exact .stopped h ht hi
  | cut h ht hn hp =>
    simp only [(hover .stopped rfl).1]
    exact .cut h ht hn (hp.trans (requests_mono hbg))

theorem active {f g : Nat → Act (Recorded σ) α} (h : Budgeted n d k (f d) (g d)) :
    Budgeted n d k (active >>= f) (active >>= g) where
  grows w hd := by
    obtain rfl := hd
    exact h.grows w rfl
  met w hd ht := by
    obtain rfl := hd
    exact h.met w rfl ht

theorem nested {a b : Act (Recorded σ) α} (h : Budgeted n (d + 1) k a b) :
    Budgeted n d k (nested a) (nested b) where
  grows w hd := by
    have hb := h.grows { w with depth := w.depth + 1 } (congrArg (· + 1) hd)
    simp only [Act.nested]
    generalize b { w with depth := w.depth + 1 } = rb at hb ⊢
    cases rb with
    | ok x v => exact ⟨Nat.sub_eq_of_eq_add hb.1, hb.2⟩
    | error e v => exact ⟨Nat.sub_eq_of_eq_add hb.1, hb.2⟩
  met w hd ht := by
    have hmet := h.met { w with depth := w.depth + 1 } (congrArg (· + 1) hd) ht
    simp only [Act.nested]
    generalize a { w with depth := w.depth + 1 } = ra at hmet ⊢
    generalize b { w with depth := w.depth + 1 } = rb at hmet ⊢
    cases hmet with
    | ok ht => exact .ok ht
    | error he ht => exact .error he ht
    | stopped h ht hi => exact .stopped h ht hi
    | cut h ht hn hp =>
      refine .cut h ht hn ?_
      cases rb with
      | ok x v => exact hp
      | error e v => exact hp

theorem asked {a : Act (Recorded σ) α} (h : ∀ w, Asks w (a w)) : Budgeted n d k a a where
  grows w hd := by
    have hw := h w
    generalize a w = r at hw ⊢
    cases hw with
    | ok hdepth _ ht | error hdepth _ ht =>
      exact ⟨hdepth.trans hd, by rw [final, ht]; exact List.prefix_append _ _⟩
  met w hd ht := by
    have hw := h w
    generalize a w = r at hw ⊢
    cases hw with
    | ok _ hq hv =>
      refine .ok ?_
      rw [hv]
      exact ht.add rfl fun hc => absurd (hq.symm.trans hc) Bool.false_ne_true
    | @error e v q _ hq hv =>
      cases he : e.isStopped with
      | true =>
        cases e with
        | stopped => exact .stopped hv ht hq
        | _ => cases he
      | false =>
        refine .error (fun h => by rw [h] at he; cases he) ?_
        rw [hv]
        exact ht.add he fun hc => absurd (hq.symm.trans hc) Bool.false_ne_true

theorem call (f : HostFunction) (args : List Value) :
    Budgeted n d k (lift ((host.budgeted n).call f args))
      (lift ((host.budgeted m).call f args)) := by
  refine asked fun w => ?_
  simp only [lift, Host.budgeted]
  cases host.call f args ⟨w.heap, w.host.state⟩ with
  | ok v s => exact .ok rfl rfl rfl
  | error e s => exact .error rfl rfl rfl

theorem log (line : String) :
    Budgeted n d k (log (host.budgeted n) line) (log (host.budgeted m) line) := by
  refine asked fun w => ?_
  simp only [Act.log, lift, HostAct.own, Host.budgeted]
  cases host.log line w.host.state with
  | ok x s => exact .ok rfl rfl rfl
  | error e s => exact .error rfl rfl rfl

theorem random : Budgeted n d k (random (host.budgeted n)) (random (host.budgeted m)) :=
  asked fun _ => .ok rfl rfl rfl

theorem clock : Budgeted n d k (clock (host.budgeted n)) (clock (host.budgeted m)) where
  grows _ hd := ⟨hd, List.prefix_refl _⟩
  met _ _ ht := .ok ht

theorem exhausted : Budgeted n d k (throw (.endless .limit) : Act (Recorded σ) α)
    (throw (.endless .limit)) where
  grows _ hd := ⟨hd, List.prefix_refl _⟩
  met _ _ ht := .error nofun ht

theorem checkpoint (hnm : n ≤ m) {a b : Act (Recorded σ) α} (h : Budgeted n d (k + 1) a b) :
    Budgeted n d k (do checkpoint (host.budgeted n); a) (do checkpoint (host.budgeted m); b) where
  grows w hd := by
    simp only [Bind.bind, EStateM.bind, checkpoint_budgeted]
    by_cases hm : checkpoints w.host.trace < m
    · rw [if_pos hm]
      have hb := h.grows (w.checked host false) hd
      exact ⟨hb.1, (List.prefix_append _ _).trans hb.2⟩
    · rw [if_neg hm]
      exact ⟨hd, List.prefix_append _ _⟩
  met w hd ht := by
    simp only [Bind.bind, EStateM.bind, checkpoint_budgeted]
    by_cases hn : checkpoints w.host.trace < n
    · rw [if_pos hn, if_pos (hn.trans_le hnm)]
      exact h.met (w.checked host false) hd (ht.add rfl fun _ => hn)
    · rw [if_neg hn]
      refine .cut rfl ht (le_antisymm ht.2 (not_lt.mp hn)) ?_
      by_cases hm : checkpoints w.host.trace < m
      · rw [if_pos hm]
        have hb := requests_mono (h.grows (w.checked host false) hd).2
        simpa only [World.checked, Recorded.add, requests, List.map_append, List.map_cons,
          List.map_nil] using hb
      · rw [if_neg hm]
        exact List.prefix_refl _

theorem coherent (host : Host σ) (rounds : Nat) (hnm : n ≤ m) :
    Coherent (host.budgeted n) (host.budgeted m) rounds rounds (Budgeted n) where
  le := Nat.le_refl _
  inside := inside
  later _ h := ⟨h.grows, h.met⟩
  checkpoint := checkpoint hnm
  exhausted h := by
    rw [h rfl]
    exact exhausted
  active := active
  nested := nested
  attempt := attempt
  call := call
  log := log
  random := random
  clock := clock

end Budgeted

end Act

open Recorded Act

variable {σ : Type}

def Program.runWithin (p : Program) (n : Nat) (host : Host σ) (rounds : Nat) (w : World σ) :
    Ending × World (Recorded σ) :=
  p.run (host.budgeted n) rounds w.recorded

def Program.askedWithin (p : Program) (n : Nat) (host : Host σ) (rounds : Nat) (w : World σ) :
    List Interaction :=
  (p.runWithin n host rounds w).2.host.trace

theorem Program.run_eq (p : Program) (host : Host σ) (rounds : Nat) (w : World σ) :
    p.run host rounds w =
      (.of (runProgram host rounds p w), final (runProgram host rounds p w)) := by
  unfold Program.run
  cases runProgram host rounds p w <;> rfl

theorem Program.stop_ends_run (p : Program) (n : Nat) (host : Host σ) (rounds : Nat) (w : World σ) :
    (n < checkpoints (p.askedWithin n host rounds w) →
      (p.runWithin n host rounds w).1 = .stopped ∧
      ∃ before, p.askedWithin n host rounds w = before ++ [⟨.checkpoint, true⟩] ∧
        checkpoints before = n) ∧
    (∀ before i after, p.askedWithin n host rounds w = before ++ i :: after → i.stopped = true →
      (p.runWithin n host rounds w).1 = .stopped ∧ after = []) ∧
    ∀ m, n < m →
      requests (p.askedWithin n host rounds w) <+: requests (p.askedWithin m host rounds w) ∧
      (checkpoints (p.askedWithin n host rounds w) ≤ n ∨
          checkpoints (p.askedWithin m host rounds w) ≤ n →
        p.runWithin m host rounds w = p.runWithin n host rounds w) := by
  have hmet : ∀ m, n ≤ m → Met n (runProgram (host.budgeted n) rounds p w.recorded)
      (runProgram (host.budgeted m) rounds p w.recorded) := fun m hnm =>
    ((Budgeted.coherent host rounds hnm).runProgram p).met w.recorded rfl (ongoing_nil n)
  simp only [askedWithin, runWithin, run_eq]
  refine ⟨fun hn => ?_, fun before i after hi hs => ?_, fun m hnm => ⟨?_, fun hle => ?_⟩⟩
  · obtain ⟨v, t, hr, ht, hc⟩ := (hmet n (Nat.le_refl n)).of_lt hn
    rw [hr]
    exact ⟨rfl, t, ht, hc⟩
  · obtain ⟨⟨v, hr⟩, hafter⟩ := (hmet n (Nat.le_refl n)).of_stopped hi hs
    rw [hr]
    exact ⟨rfl, hafter⟩
  · exact (hmet m hnm.le).requests_le
  · rw [(hmet m hnm.le).eq_of_le hle]

theorem nestedLoops_cut :
    ∃ before, nestedLoops.askedWithin 2 .countdown 9 ⟨⟨{}, 0⟩, #[], #[], 0⟩ =
      before ++ [⟨.checkpoint, true⟩] ∧ checkpoints before = 2 :=
  ((nestedLoops.stop_ends_run 2 .countdown 9 ⟨⟨{}, 0⟩, #[], #[], 0⟩).1 (by decide)).2

end Apiary
