import Apiary.Proofs.Script.Lasting

/-!
From the end of a part of some code to the end of the code: what comes in between are other parts. So a relation
that all steps keep holds between what any of them leaves and what the code leaves.
-/

namespace Apiary

open Act Scopes

variable {σ α β : Type} {Q : Scopes → Scopes → Prop}

theorem Act.bind_of_ok {a : Act σ α} {f : α → Act σ β} {x : α} {w w' : World σ} (h : a w = .ok x w') :
    (a >>= f) w = f x w' := by
  simp only [Bind.bind, EStateM.bind, h]

theorem Act.attempt_ok {a : Act σ α} {x : α} {w w' : World σ} (h : a w = .ok x w') :
    attempt a w = .ok (.ok x) w' := by
  simp only [attempt, h]

theorem Act.attempt_error {a : Act σ α} {e : Interrupt} {w w' : World σ} (h : a w = .error e w') :
    attempt a w = .ok (.error e) w' := by
  simp only [attempt, h]

namespace Scopes.Lasting

variable (hQ : Lasting Q)

include hQ

theorem after_bind {a : Act σ α} {f : α → Act σ β} {w : World σ}
    (hf : ∀ x w', a w = .ok x w' → Q w'.scopes (final (f x w')).scopes) :
    Q (final (a w)).scopes (final ((a >>= f) w)).scopes := by
  simp only [Bind.bind, EStateM.bind]
  cases hr : a w with
  | ok x v => exact hf x v hr
  | error e v => exact hQ.refl _

theorem after_map (f : α → β) (a : Act σ α) (w : World σ) : Q (final (a w)).scopes (final ((f <$> a) w)).scopes := by
  rw [map_eq_pure_bind]
  exact hQ.after_bind fun _ _ _ => hQ.refl _

theorem after_attempt {a : Act σ α} {f : Except Interrupt α → Act σ β} {w : World σ}
    (hf : ∀ r w', Act.attempt a w = .ok r w' → Q w'.scopes (final (f r w')).scopes) :
    Q (final (a w)).scopes (final ((Act.attempt a >>= f) w)).scopes := by
  rw [← final_attempt]
  exact hQ.after_bind hf

theorem after_last {s : Surroundings σ} {env : Env} {last : List Stmt} {r : Except Interrupt Completion} {w : World σ}
    (ho : isOver r = false) : Q (final (evalBlock s env last w)).scopes
      (final (finishTry r (evalFinally s env (some last)) w)).scopes := by
  simp only [finishTry, ho, Bool.false_eq_true, if_false, evalFinally]
  refine hQ.after_bind fun c w' _ => ?_
  cases c with
  | normal => exact hQ.outcome r w'
  | _ => exact hQ.refl _

end Scopes.Lasting

theorem Moment.Settled.chosen (hQ : Lasting Q) {s : Surroundings σ} {env inner : Env} {subject : Expr}
    {cases : List Case} {w w' w'' w₃ w₄ : World σ} {v : Value} {i : Option Nat}
    (h : Settled Q s ⟨env, .stmt (.switch subject cases), w⟩) (hv : evalExpr s env subject w = .ok v w')
    (hi : enter false env w' = .ok inner w'') (hf : declareCaseFunctions inner cases w'' = .ok () w₃)
    (hm : matchingCase s inner v 0 cases w₃ = .ok i w₄) :
    Q w₄.scopes (final ((match i.or (defaultCase? cases) with
      | none => pure .normal
      | some j => evalCases s inner j cases : Act σ Completion) w₄)).scopes := by
  cases hj : i.or (defaultCase? cases) with
  | none => exact hQ.refl _
  | some j => exact (h.part (.switchCases hv hi hf hm hj)).after hQ

theorem Moment.Settled.finished (hQ : Lasting Q) {s : Surroundings σ} {env : Env} {body : List Stmt}
    {handler : Option Handler} {last : Option (List Stmt)} {w w' w'' : World σ} {message : String}
    {thrown : Option Value} {r : Except Interrupt Completion}
    (h : Settled Q s ⟨env, .stmt (.try body handler last), w⟩)
    (he : evalBlock s env body w = .error (.error message thrown) w')
    (hr : attempt (evalHandler s env message thrown handler) w' = .ok r w'') :
    Q w''.scopes (final (finishTry r (evalFinally s env last) w'')).scopes :=
  hQ.finishing fun ho => hQ.lastPart env w'' last fun b hb => by
    subst hb
    exact h.part (.finallyCaught he hr ho)

/-- What holds between two worlds holds between what a part of some code leaves and what the code leaves. -/
theorem Moment.Settled.ends (hQ : Lasting Q) {s : Surroundings σ} {p q : Moment σ} (h : p.Settled Q s)
    (hpart : p.Part s q) : Q (q.after s).scopes (p.after s).scopes := by
  -- What ran before the part is rewritten away; what is left is the part itself and the parts that follow it.
  cases hpart with
  | effect | declare | «return» =>
    simp only [Moment.after, evalStmt]
    exact hQ.after_bind fun _ _ _ => hQ.refl _
  | throw =>
    simp only [Moment.after, evalStmt]
    exact hQ.after_bind fun v w' _ => hQ.plain (.throwValue v) w'
  | bare => exact hQ.after_bind fun _ w' hw => (h.part (.afterBare hw)).after hQ
  | afterBare hw =>
    simp only [Moment.after, evalDeclarators]
    rw [bind_of_ok hw]
    exact hQ.refl _
  | start =>
    refine hQ.after_bind fun v w' hv => ?_
    exact hQ.bind ((h.part (.started hv)).self rfl) fun _ w'' hw => (h.part (.afterStarted hv hw)).after hQ
  | started hv =>
    simp only [Moment.after, evalDeclarators]
    rw [bind_of_ok hv]
    exact hQ.after_bind fun _ w'' hw => (h.part (.afterStarted hv hw)).after hQ
  | afterStarted hv hw =>
    simp only [Moment.after, evalDeclarators]
    rw [bind_of_ok hv, bind_of_ok hw]
    exact hQ.refl _
  | block | «while» | doWhile =>
    simp only [Moment.after, evalStmt]
    exact hQ.refl _
  | opened hi =>
    simp only [Moment.after, evalBlock, inBlock]
    rw [bind_of_ok hi]
    exact hQ.after_bind fun _ w'' hw => (h.part (.inside hi hw)).after hQ
  | inside hi hw =>
    simp only [Moment.after, evalBlock, inBlock]
    rw [bind_of_ok hi, bind_of_ok hw]
    exact hQ.refl _
  | head =>
    simp only [Moment.after, evalStmts]
    refine hQ.after_bind fun c w' hc => ?_
    cases c with
    | normal => exact (h.part (.tail hc)).after hQ
    | _ => exact hQ.refl _
  | tail hw =>
    simp only [Moment.after, evalStmts]
    rw [bind_of_ok hw]
    exact hQ.refl _
  | @condition env w test yes no =>
    simp only [Moment.after, evalStmt]
    refine hQ.after_bind fun v w' hv => ?_
    split
    · next ht => exact (h.part (.yes hv ht)).after hQ
    · next ht =>
      cases no with
      | none =>
        simp only [evalElse]
        exact hQ.refl _
      | some no =>
        simp only [evalElse]
        exact (h.part (.no hv (Bool.eq_false_iff.mpr ht))).after hQ
  | yes hv ht | no hv ht =>
    simp only [Moment.after, evalStmt]
    rw [bind_of_ok hv]
    simp only [ht, evalElse, if_true, Bool.false_eq_true, if_false]
    exact hQ.refl _
  | oneRound hw =>
    simp only [Moment.after, repeatRounds]
    rw [bind_of_ok hw]
    refine hQ.after_bind fun c w'' hc => ?_
    cases c with
    | none => exact (h.part (.moreRounds hw hc)).after hQ
    | some c => exact hQ.refl _
  | moreRounds hw hr =>
    simp only [Moment.after, repeatRounds]
    rw [bind_of_ok hw, bind_of_ok hr]
    exact hQ.refl _
  | testFirst =>
    refine hQ.after_bind fun v w' hv => ?_
    split
    · next ht => exact hQ.trans ((h.part (.bodyNext hv ht)).after hQ) (hQ.after_map _ _ _)
    · exact hQ.refl _
  | bodyNext hv ht =>
    simp only [Moment.after, evalRound, if_true, Act.testFirst]
    rw [bind_of_ok hv, if_pos ht]
    exact hQ.after_map _ _ _
  | bodyFirst =>
    refine hQ.after_bind fun c w' hc => ?_
    cases ha : Apiary.Act.afterRound c with
    | some c => exact hQ.refl _
    | none =>
      refine hQ.bind (hQ.test ?_) fun _ _ _ => hQ.refl _
      rintro e rfl
      exact h.part (.testNext hc ha)
  | testNext hc ha =>
    simp only [Moment.after, evalRound, Bool.false_eq_true, if_false, testLast]
    rw [bind_of_ok hc, ha]
    exact hQ.after_bind fun _ _ _ => hQ.refl _
  | forDeclare hi =>
    simp only [Moment.after, evalStmt]
    rw [bind_of_ok hi]
    refine hQ.after_bind fun _ w'' hst => hQ.bind (hQ.nextScope _ _ w'') fun first w₃ hf => ?_
    exact (h.part (.forStarted hi hst hf)).after hQ
  | forEval hi =>
    simp only [Moment.after, evalStmt]
    rw [bind_of_ok hi]
    refine hQ.trans (hQ.after_bind fun _ _ _ => hQ.refl _) (hQ.after_bind fun _ w'' hst => ?_)
    exact hQ.bind (hQ.nextScope _ _ w'') fun first w₃ hf => (h.part (.forStarted hi hst hf)).after hQ
  | forStarted hi hst hf =>
    simp only [Moment.after, evalStmt]
    rw [bind_of_ok hi, bind_of_ok hst, bind_of_ok hf]
    exact hQ.refl _
  | forRound hw =>
    simp only [Moment.after, evalForRounds, forRounds]
    rw [bind_of_ok hw]
    refine hQ.after_bind fun c w'' hc => ?_
    cases c with
    | some c => exact hQ.refl _
    | none =>
      refine hQ.bind (hQ.nextScope _ _ w'') fun next w₃ hn => hQ.bind (hQ.step ?_) fun _ w₄ hst => ?_
      · rintro e rfl
        exact h.part (.forUpdate hw hc hn)
      · exact (h.part (.forMore hw hc hn hst)).after hQ
  | forUpdate hw hr hn =>
    simp only [Moment.after, evalForRounds, forRounds]
    rw [bind_of_ok hw, bind_of_ok hr]
    dsimp only
    rw [bind_of_ok hn]
    refine hQ.trans (hQ.after_bind fun _ _ _ => hQ.refl _) (hQ.after_bind fun _ w₄ hst => ?_)
    exact (h.part (.forMore hw hr hn hst)).after hQ
  | forMore hw hr hn hst =>
    simp only [Moment.after, evalForRounds, forRounds]
    rw [bind_of_ok hw, bind_of_ok hr]
    dsimp only
    rw [bind_of_ok hn, bind_of_ok hst]
    exact hQ.refl _
  | @source env w keys kind name source body =>
    simp only [Moment.after, evalStmt]
    refine hQ.after_bind fun v w' hv => ?_
    cases keys with
    | true => exact hQ.bind (hQ.plain (.keysIn v) w') fun items w'' hi => (h.part (.items hv hi)).after hQ
    | false => exact hQ.bind (hQ.plain (.itemsOf v _) w') fun items w'' hi => (h.part (.items hv hi)).after hQ
  | @items env w keys kind name source body v w' items w'' hv hi =>
    simp only [Moment.after, evalStmt]
    rw [bind_of_ok hv]
    cases keys with
    | true =>
      rw [if_pos rfl] at hi ⊢
      rw [bind_of_ok hi]
      exact hQ.refl _
    | false =>
      rw [if_neg Bool.false_ne_true] at hi ⊢
      rw [bind_of_ok hi]
      exact hQ.refl _
  | bindItem hw hi =>
    simp only [Moment.after, evalItems, eachItem]
    rw [bind_of_ok hw, bind_of_ok hi]
    refine hQ.after_bind fun _ w₃ hb => hQ.bind ((h.part (.withItem hw hi hb)).after hQ) fun c w₄ hc => ?_
    cases ha : Apiary.Act.afterRound c with
    | none => exact (h.part (.moreItems hw hi hb hc ha)).after hQ
    | some c => exact hQ.refl _
  | withItem hw hi hb =>
    simp only [Moment.after, evalItems, eachItem]
    rw [bind_of_ok hw, bind_of_ok hi, bind_of_ok hb]
    refine hQ.after_bind fun c w₄ hc => ?_
    cases ha : Apiary.Act.afterRound c with
    | none => exact (h.part (.moreItems hw hi hb hc ha)).after hQ
    | some c => exact hQ.refl _
  | moreItems hw hi hb hc ha =>
    simp only [Moment.after, evalItems, eachItem]
    rw [bind_of_ok hw, bind_of_ok hi, bind_of_ok hb, bind_of_ok hc, ha]
    exact hQ.refl _
  | subject =>
    simp only [Moment.after, evalStmt]
    refine hQ.after_bind fun v w' hv => hQ.bind (hQ.enter false _ w') fun inner w'' hi => ?_
    refine hQ.bind ((h.part (.switchFunctions hv hi)).self rfl) fun _ w₃ hf => ?_
    exact hQ.bind ((h.part (.switchTests hv hi hf)).after hQ) fun i w₄ hm => h.chosen hQ hv hi hf hm
  | switchFunctions hv hi =>
    simp only [Moment.after, evalStmt]
    rw [bind_of_ok hv, bind_of_ok hi]
    refine hQ.after_bind fun _ w₃ hf => ?_
    exact hQ.bind ((h.part (.switchTests hv hi hf)).after hQ) fun i w₄ hm => h.chosen hQ hv hi hf hm
  | switchTests hv hi hf =>
    simp only [Moment.after, evalStmt]
    rw [bind_of_ok hv, bind_of_ok hi, bind_of_ok hf]
    exact hQ.after_bind fun i w₄ hm => h.chosen hQ hv hi hf hm
  | switchCases hv hi hf hm hj =>
    simp only [Moment.after, evalStmt]
    rw [bind_of_ok hv, bind_of_ok hi, bind_of_ok hf, bind_of_ok hm, hj]
    exact hQ.refl _
  | passDefault =>
    simp only [Moment.after, matchingCase]
    exact hQ.refl _
  | caseTest =>
    simp only [Moment.after, matchingCase]
    refine hQ.after_bind fun u w' hu => ?_
    split
    · exact hQ.refl _
    · next hne => exact (h.part (.passCase hu (Bool.eq_false_iff.mpr hne))).after hQ
  | passCase hu hne =>
    simp only [Moment.after, matchingCase]
    rw [bind_of_ok hu, hne, if_neg Bool.false_ne_true]
    exact hQ.refl _
  | laterCase =>
    simp only [Moment.after, evalCases]
    exact hQ.refl _
  | caseBody =>
    simp only [Moment.after, evalCases]
    refine hQ.after_bind fun c w' hc => ?_
    cases c with
    | normal => exact (h.part (.nextCase hc)).after hQ
    | _ => exact hQ.refl _
  | nextCase hw =>
    simp only [Moment.after, evalCases]
    rw [bind_of_ok hw]
    exact hQ.refl _
  | @«try» env w body handler last =>
    simp only [Moment.after, evalStmt, runTry]
    refine hQ.after_attempt fun r w' hr => ?_
    obtain ⟨c, rfl, hc⟩ | ⟨e, rfl, he⟩ := of_attempt hr
    · change Q w'.scopes (final (finishTry (.ok c) (evalFinally s env last) w')).scopes
      exact hQ.finishing fun _ => hQ.lastPart env w' last fun b hb => by
        subst hb
        exact h.part (.finally hc)
    · cases e with
      | error message thrown =>
        refine hQ.attempt ((h.part (.catch he)).after hQ) fun r w'' hr => h.finished hQ he hr
      | _ => exact hQ.refl _
  | @«catch» env w body handler last message thrown w' he =>
    simp only [Moment.after, evalStmt, runTry]
    rw [← evalBlock, bind_of_ok (attempt_error he)]
    exact hQ.after_attempt fun r w'' hr => h.finished hQ he hr
  | @«finally» env w body handler last c w' hc =>
    simp only [Moment.after, evalStmt, runTry]
    rw [← evalBlock, bind_of_ok (attempt_ok hc)]
    exact hQ.after_last (r := .ok c) rfl
  | @finallyCaught env w body handler last message thrown w' r w'' he hr ho =>
    simp only [Moment.after, evalStmt, runTry]
    rw [← evalBlock, bind_of_ok (attempt_error he)]
    dsimp only
    rw [bind_of_ok hr]
    exact hQ.after_last ho
  | parameter hv hi =>
    simp only [Moment.after, evalHandler]
    rw [bind_of_ok hv, bind_of_ok hi]
    exact hQ.after_bind fun _ w₃ hw => (h.part (.handleNamed hv hi hw)).after hQ
  | handle hv hi =>
    simp only [Moment.after, evalHandler]
    rw [bind_of_ok hv, bind_of_ok hi]
    exact hQ.refl _
  | handleNamed hv hi hw =>
    simp only [Moment.after, evalHandler]
    rw [bind_of_ok hv, bind_of_ok hi, bind_of_ok hw]
    exact hQ.refl _

theorem Moment.Settled.ends_reached (hQ : Lasting Q) {s : Surroundings σ} {p q : Moment σ} (h : p.Settled Q s)
    (hr : p.Reaches s q) : Q (q.after s).scopes (p.after s).scopes := by
  induction hr using Relation.ReflTransGen.head_induction_on with
  | refl => exact hQ.refl _
  | head hpart _ ih => exact hQ.trans (ih (h.part hpart)) (h.ends hQ hpart)

end Apiary
