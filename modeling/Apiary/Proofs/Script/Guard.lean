import Apiary.Proofs.Host.Call
import Apiary.Proofs.Script.Sound
import Apiary.Engine.Run
import Apiary.Proofs.Script.Agreement.Statement
import Apiary.Proofs.Script.Globals

/-!
The host of a run takes no array away from a script and never raises the error of an assignment to what is no place.
-/

namespace Apiary

namespace HostAct.Sound

variable {σ α β : Type} {careful : Prop} {n : Nat}

theorem ret (x : α) : HostAct.Sound careful n (pure x : HostAct σ α) := fun _ hs => .ok hs

theorem bind {a : HostAct σ α} {f : α → HostAct σ β} (ha : HostAct.Sound careful n a)
    (hf : ∀ x, HostAct.Sound careful n (f x)) : HostAct.Sound careful n (a >>= f) :=
  fun s hs => (ha s hs).bind fun x s' hs' => hf x s' hs'

theorem interrupt {e : Interrupt} (he : e ≠ .badTarget) : HostAct.Sound careful n (throw e : HostAct σ α) :=
  fun _ hs => .error ⟨hs, fun _ => he⟩

theorem convert (values : List Value) (f : Heap → Option α) :
    HostAct.Sound careful n (HostAct.convert values f : HostAct σ α) := by
  intro s hs
  unfold HostAct.convert
  split
  · exact .ok hs
  · exact .error ⟨hs, nofun⟩

theorem alloc {f : Heap → α × Heap} (hf : ∀ h : Heap, h.arrays.size ≤ (f h).2.arrays.size) :
    HostAct.Sound careful n (HostAct.alloc f : HostAct σ α) :=
  fun _ hs => .ok (hs.trans (hf _))

/-- An act that leaves the heap alone and may break down. -/
theorem apart {a : HostAct σ α} (ha : ∀ s, (∃ x s', a s = .ok x s' ∧ s'.heap = s.heap) ∨
    ∃ s', a s = .error .fault s' ∧ s'.heap = s.heap) : HostAct.Sound careful n a := by
  intro s hs
  rcases ha s with ⟨x, s', heq, hheap⟩ | ⟨s', heq, hheap⟩
  · rw [heq]
    exact .ok (hheap ▸ hs)
  · rw [heq]
    exact .error ⟨hheap ▸ hs, nofun⟩

/-- An act of the host alone. -/
theorem own {a : EStateM Interrupt σ α} (ha : ∀ {s s' : σ} {e : Interrupt}, a s = .error e s' → e ≠ .badTarget) :
    HostAct.Sound careful n (HostAct.own a) := by
  intro s hs
  unfold HostAct.own
  dsimp only
  cases h : a s.host with
  | ok x s' => exact .ok hs
  | error e s' => exact .error ⟨hs, fun _ => ha h⟩

end HostAct.Sound

namespace DeskAct.Sound

open HostAct.Sound

variable {τ α : Type} {st : Station τ} {careful : Prop} {n : Nat}

theorem tell (a : SinkAct τ α) : HostAct.Sound careful n (DeskAct.tell a) := by
  refine apart fun ⟨heap, context, shared⟩ => ?_
  unfold DeskAct.tell
  dsimp only
  cases a shared with
  | ok x shared => exact .inl ⟨_, _, rfl, rfl⟩
  | error x shared => exact .inr ⟨_, rfl, rfl⟩

theorem setContext (f : RunContext Nat → α × RunContext Nat) :
    HostAct.Sound careful n (DeskAct.setContext f : DeskAct τ α) :=
  apart fun _ => .inl ⟨_, _, rfl, rfl⟩

theorem context : HostAct.Sound careful n (DeskAct.context : DeskAct τ _) := apart fun _ => .inl ⟨_, _, rfl, rfl⟩

theorem ofClient (f : τ → α) : HostAct.Sound careful n (DeskAct.ofClient f) := apart fun _ => .inl ⟨_, _, rfl, rfl⟩

theorem time : HostAct.Sound careful n (DeskAct.time st) := (tell _).bind fun _ => ofClient st.clock.now

theorem emit (kind : LogKind) (message : String) : HostAct.Sound careful n (st.emit kind message) :=
  (setContext _).bind fun _ => tell _

theorem adopt {note : DeskAct τ Unit} (hnote : HostAct.Sound careful n note) (code : CodeBuffer) :
    HostAct.Sound careful n (DeskAct.adopt st note code) :=
  (setContext _).bind fun _ => hnote.bind fun _ => tell _

theorem inherited : Inherited st fun _ a => HostAct.Sound careful n a where
  ret := ret
  bind := bind
  interrupt _ he := interrupt he
  convert := convert
  alloc _ hf := alloc hf
  context hk _ := context.bind hk
  setContext _ _ := setContext _
  served := ofClient st.files
  time := time
  isRunning := (tell _).bind fun _ => tell _
  emit := emit
  tellPlot _ := tell _
  tellCheckpoint _ _ _ := context.bind fun _ => tell _
  ask _ := (setContext _).bind fun _ => tell _
  adopt := adopt (ret ())
  adoptNoted kind message := adopt (emit kind message)

theorem remember (st : Station τ) (args : List Value) :
    HostAct.Sound careful n (DeskAct.remember args : DeskAct τ Value) := by
  have hP : Inherited st fun _ a => HostAct.Sound careful n a := inherited
  refine (hP.network? _).bind fun found => ?_
  cases found with
  | none => exact ret _
  | some found =>
    refine (hP.display _).bind fun key => (hP.look _).bind fun shown => ?_
    split
    · exact interrupt nofun
    · exact (hP.json _).bind fun _ => (hP.setNetwork _ _).bind fun _ => ret _

theorem sleep (args : List Value) : HostAct.Sound careful n (DeskAct.sleep st args) := by
  refine (convert _ _).bind fun ms => ?_
  split
  · refine (ofClient st.clock.horizon).bind fun horizon => ?_
    split
    · exact interrupt nofun
    · exact (tell _).bind fun _ => ret _
  · exact ret _

theorem getSignal : HostAct.Sound careful n (DeskAct.getSignal st) := by
  refine (tell _).bind fun _ => (tell _).bind fun signal => ?_
  split <;> exact ret _

end DeskAct.Sound

namespace Station

variable {τ : Type} (st : Station τ)

theorem checkpoint_ne_badTarget {d d' : Desk τ} {e : Interrupt} (h : st.checkpoint d = .error e d') :
    e ≠ .badTarget := by
  simp only [checkpoint, Bind.bind, EStateM.bind, goesOn_eq] at h
  cases hr : (st.sink.meanwhile d.shared).controls.running with
  | true =>
    rw [hr] at h
    cases h
  | false =>
    rw [hr] at h
    cases h
    intro heq
    cases heq

theorem logLine_ne_badTarget {kind : LogKind} {line : String} {d d' : Desk τ} {e : Interrupt}
    (h : st.logLine kind line d = .error e d') : e ≠ .badTarget := by
  rw [logLine_eq] at h
  split at h
  · cases h
  · cases h
    intro heq
    cases heq

theorem host_sound (careful : Prop) (n : Nat) : st.host.Sound careful n where
  call f args := DeskAct.Sound.inherited.call f args (fun _ => DeskAct.Sound.remember st args)
    (fun _ => DeskAct.Sound.getSignal) fun _ => DeskAct.Sound.sleep args
  checkpoint := HostAct.Sound.own st.checkpoint_ne_badTarget
  log _ := HostAct.Sound.own st.logLine_ne_badTarget

end Station

end Apiary

/-!
Scripts that parse assign to places only: their trees are well formed, so that nothing they run raises the error of
an assignment to what is no place.
-/

namespace Apiary

open Act

theorem World.startWithHost_sound {σ : Type} (s : σ) (careful : Prop) :
    (World.startWithHost s).Sound careful 0 0 where
  depth := rfl
  arrays := Nat.zero_le _
  closures _ c hc := by
    rw [World.startWithHost_eq] at hc
    exact absurd hc (Array.not_mem_empty c)

/-- No act of a kind ends in the error of an assignment to what is no place, from worlds of sound functions. -/
theorem Act.Sound.ne_badTarget {σ α : Type} {d : Nat} {a : Act σ α} (h : Act.Sound True 0 d a) {w w' : World σ}
    (hw : w.Sound True 0 d) : a w ≠ .error .badTarget w' := by
  intro heq
  have hend := h w hw
  rw [heq] at hend
  cases hend with
  | error he => exact he.2 trivial rfl

/-- What parses is well formed, and no run of it raises the error of an assignment to what is no place. It is not
raised on the way either: every call, and all well-formed code wherever it runs, keeps clear of it. -/
theorem parsed_targets_are_places {source : String} {p : Program} (h : parse source = .ok p) {σ : Type}
    {host : Host σ} (hh : host.Sound True 0) (rounds : Nat) :
    Stmt.AllWellFormed p ∧
      (∀ w w' : World σ, w.Sound True 0 0 → runProgram host rounds p w ≠ .error .badTarget w') ∧
      (∀ {d level : Nat}, d + level = maxCallDepth →
        (∀ f args this, Act.Sound True 0 d (calling host rounds (level + 1) f args this)) ∧
        (∀ env, ∀ e : Expr, e.WellFormed →
          Act.Sound True 0 d (evalExpr ⟨host, calling host rounds (level + 1), rounds⟩ env e)) ∧
        ∀ env, ∀ s : Stmt, s.WellFormed →
          Act.Sound True 0 d (evalStmt ⟨host, calling host rounds (level + 1), rounds⟩ env s)) ∧
      ∀ {τ : Type} (st : Station τ) (desk : Desk τ),
        (st.interpret rounds p desk).1 ≠ .failed "Invalid assignment target" none := by
  have hp := parse_wellFormed h
  have hR := Sound.stepwise hh rounds
  refine ⟨hp, fun w w' hw => ?_, fun {d level} hd => ?_, fun st desk hfailed => ?_⟩
  · exact (hR.runProgram fun _ => hp).ne_badTarget hw
  · have hc := hR.calling level hd
    exact ⟨hc, fun env e he => hR.evalExpr hc env e fun _ => he, fun env s hs => hR.evalStmt hc env s fun _ => hs⟩
  · have hrun := (Sound.stepwise (st.host_sound True 0) rounds).runProgram fun _ => hp
    simp only [Station.interpret, Program.run] at hfailed
    split at hfailed
    next => cases hfailed
    next e w heq =>
      cases e with
      | error message thrown =>
        cases hfailed
        exact hrun.ne_badTarget (World.startWithHost_sound desk True) heq
      | _ => cases hfailed

def guardedSource : String := "try \x7b for (const k in o) o[k]++, s = \x60$\x7b(a, b) => a.b = k\x7d!\x60; \x7d finally \x7b \x7d"

theorem guardedSource_runs : ∃ p, parse guardedSource = .ok p ∧ Stmt.AllWellFormed p ∧
    ∀ w', runProgram .countdown 9 p (World.startWithHost 3) ≠ .error .badTarget w' := by
  have hok : (parse guardedSource).isOk = true := by
    have hchars : guardedSource = String.ofList _ := rfl
    rw [hchars, parse_ofList]
    decide +kernel
  cases h : parse guardedSource with
  | error e =>
    rw [h] at hok
    cases hok
  | ok p =>
    obtain ⟨hp, hrun, -⟩ := parsed_targets_are_places h (Host.countdown_sound True 0) 9
    exact ⟨p, rfl, hp, fun w' => hrun _ w' (World.startWithHost_sound 3 True)⟩

end Apiary
