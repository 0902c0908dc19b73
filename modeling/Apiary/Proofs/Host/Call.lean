import Apiary.Proofs.Host.Inherited

/-!
Every host function works in the steps of a run at its desk. Remembering a network inside itself and sleeping
beyond the host's clock are the only two calls that break a run by themselves.
-/

namespace Apiary

open DeskAct

/-- How a call breaks a run by itself, and in which state. A sleep does where the host's clock has no time left
for its end. -/
inductive HostFunction.Trips {τ : Type} (st : Station τ) (args : List Value) :
    HostFunction → Store (Desk τ) → Interrupt → Prop
  | reentry {s : Store (Desk τ)} {cell : Nat} : argAt args 0 = .network cell →
    s.heap.showsNetwork cell s.heap.depthBound (argAt args 2) = true →
    Trips st args .memoryLongTermStore s (.reentry cell (argAt args 2))
  | oversleep {s : Store (Desk τ)} {ms : Double} : s.heap.number? (argAt args 0) = some ms → ms.isFinite = true →
    (0 : Double) < ms → st.clock.horizon s.host.shared.client ≤ ms / 1000 →
    Trips st args .utilsSleep s (.oversleep ms)

namespace DeskAct.Stepwise

variable {τ : Type} {st : Station τ} {leave : Leave τ}

theorem inherited : Inherited st fun _ a => Stepwise st leave a where
  ret := ret
  bind := bind
  interrupt he _ := plain he
  convert := convert
  alloc f _ := alloc f
  context hk _ := context.bind hk
  setContext ha _ := setContext ha
  served := served
  time := time
  isRunning := isRunning
  emit := emit
  tellPlot := tellPlot
  tellCheckpoint := tellCheckpoint
  ask := ask
  adopt := adopt
  adoptNoted := adoptNoted

theorem remember {args : List Value}
    (ht : ∀ s e, HostFunction.Trips st args .memoryLongTermStore s e → leave.trip s e) :
    Stepwise st leave (remember args) := by
  intro s
  cases hv : argAt args 0 with
  | network cell =>
    simp only [DeskAct.remember, hv, DeskAct.network?]
    refine after_look ?_
    cases s.heap.networks[cell]? with
    | none => exact ret _ s
    | some n =>
      refine (convert_same _ _ s).bind fun key s' hs => after_look ?_
      subst hs
      split
      · exact .error (.trip (ht _ _ (.reentry hv ‹_›)) .refl)
      · exact (inherited.bind (inherited.json _) fun _ =>
          inherited.bind (inherited.setNetwork _ _) fun _ => ret _) s'
  | _ =>
    simp only [DeskAct.remember, hv, DeskAct.network?]
    exact ret _ s

theorem getSignal (hr : leave.reads) : Stepwise st leave (getSignal st) := by
  refine meanwhile.bind fun _ => (popSignal hr).bind fun s => ?_
  split <;> exact ret _

theorem sleep {args : List Value}
    (ht : ∀ s e, HostFunction.Trips st args .utilsSleep s e → leave.trip s e) : Stepwise st leave (sleep st args) := by
  intro s
  unfold DeskAct.sleep HostAct.number HostAct.convert
  simp only [Bind.bind, EStateM.bind]
  cases hx : s.heap.number? (argAt args 0) with
  | none => exact .error (.plain trivial .refl)
  | some ms =>
    dsimp only
    split
    case isTrue h =>
      rw [Bool.and_eq_true, decide_eq_true_eq] at h
      change Leads _ _ ((if st.clock.horizon s.host.shared.client ≤ ms / 1000 then throw (.oversleep ms)
        else DeskAct.meanwhile st >>= fun _ => pure .undefined : DeskAct τ Value) s)
      split
      case isTrue hlong => exact .error (.trip (ht _ _ (.oversleep hx h.1 h.2 hlong)) .refl)
      case isFalse => exact (meanwhile.bind fun _ => ret _) s
    case isFalse => exact ret _ s

theorem call (f : HostFunction) (args : List Value) :
    Stepwise st ⟨HostFunction.Trips st args f, f = .controlGetSignal⟩ (DeskAct.call st f args) :=
  inherited.call f args (fun hf => remember fun _ _ h => hf ▸ h) (fun hf => getSignal hf)
    fun hf => sleep fun _ _ h => hf ▸ h

end DeskAct.Stepwise

theorem DeskAct.Traced.call {τ : Type} {st : Station τ} (f : HostFunction) (args : List Value) :
    Traced st (HostFunction.Trips st args f) (DeskAct.call st f args) :=
  (Stepwise.call f args).traced

/-- What breaks a run from within, by a method or by a call. -/
inductive Interrupt.Trip {τ : Type} (st : Station τ) (s : Store (Desk τ)) : Interrupt → Prop
  | overlap {buffer : Nat} {v : Value} :
    Act.readsBuffer s.heap buffer s.heap.depthBound v = true → Trip st s (.overlap buffer v)
  | call {f : HostFunction} {args : List Value} {e : Interrupt} : f.Trips st args s e → Trip st s e

namespace Station

variable {τ : Type} (st : Station τ)

theorem goesOn_eq (d : Desk τ) :
    st.goesOn d = .ok (st.sink.meanwhile d.shared).controls.running
      ⟨d.context, st.sink.meanwhile d.shared⟩ := rfl

theorem logLine_eq (kind : LogKind) (message : String) (d : Desk τ) :
    st.logLine kind message d =
      match st.sink.log
        (st.entry d.shared.client (RunContext.logId d.context.run (d.context.logs + 1)) kind message) d.shared with
      | .ok () s => .ok () ⟨{ d.context with logs := d.context.logs + 1 }, s⟩
      | .error () s => .error .fault ⟨{ d.context with logs := d.context.logs + 1 }, s⟩ := by
  simp only [logLine, emit, line, DeskAct.setContext, DeskAct.tell, Bind.bind, EStateM.bind]
  cases st.sink.log
    (st.entry d.shared.client (RunContext.logId d.context.run (d.context.logs + 1)) kind message) d.shared <;> rfl

theorem logLine_path (kind : LogKind) (message : String) (d : Desk τ) :
    Leads (fun _ d' => Desk.Reaches st d d') (fun e d' => e = .fault ∧ Desk.Breaks st d d'.shared)
      (st.logLine kind message d) := by
  have hsay : st.Says d _ _ := .log kind message
  rw [logLine_eq]
  cases h : st.sink.log
      (st.entry d.shared.client (RunContext.logId d.context.run (d.context.logs + 1)) kind message) d.shared with
  | ok x s => exact .ok (.single (.tell hsay h))
  | error x s => exact .error ⟨rfl, _, _, hsay, h⟩

theorem host_keeps (d : Desk τ) :
    st.host.Keeps (Desk.Reaches st d) (Desk.Ends st (Interrupt.Trip st) d) where
  call f args s hs := by
    refine (DeskAct.Traced.call f args s).mono (fun _ s' hs' => hs.trans hs') fun e s' he => ?_
    exact (he.mono fun _ _ ht => .call ht).after hs
  checkpoint s hs := by
    have hmeanwhile := hs.tail .meanwhile
    simp only [HostAct.own, host, checkpoint, Bind.bind, EStateM.bind, goesOn_eq]
    cases (st.sink.meanwhile s.host.shared).controls.running with
    | true => exact .ok hmeanwhile
    | false => exact .error (.plain trivial hmeanwhile)
  log line s hs := by
    have hline := st.logLine_path .info line s.host
    simp only [HostAct.own, host]
    generalize st.logLine .info line s.host = r at hline ⊢
    cases hline with
    | ok hd => exact .ok (hs.trans hd)
    | error he =>
      obtain ⟨rfl, hb⟩ := he
      exact .error (.broken hs hb)
  random hs := hs.tail (.quiet ⟨rfl, rfl, rfl, rfl⟩)
  ofScript hs he := by
    cases he with
    | error | conversion | position => exact .plain trivial hs
    | overlap hr => exact .trip (.overlap hr) hs
  limit hs := .plain trivial hs
  error he := by
    cases he with
    | plain _ hs => exact hs
    | trip ht hs => exact hs

end Station

end Apiary
