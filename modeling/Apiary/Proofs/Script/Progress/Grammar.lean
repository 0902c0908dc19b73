import Apiary.Proofs.Script.Progress

/-!
Each rule takes a token, each loop a token in a round, when the rules they refer back to do. The bound of a rule is the
number of levels below it, and a rule refers back only after a token. So the parser ends on every source, and leaves no
token of a program that it reads.
-/

namespace Apiary

namespace Tokens

variable {ts : Tokens}

theorem ne_nil_of_unaryOp? {op : UnaryOp} (h : ts.unaryOp? = some op) : ts.ahead ≠ [] := by
  intro hnil
  simp [unaryOp?, head?_of_end hnil] at h

theorem ne_nil_of_update? {increment : Bool} (h : ts.update? = some increment) : ts.ahead ≠ [] := by
  intro hnil
  simp [update?, head?_of_end hnil] at h

theorem ne_nil_of_operator? {op : Nat × Operator} (h : ts.operator? = some op) : ts.ahead ≠ [] := by
  intro hnil
  simp [operator?, head?_of_end hnil] at h

end Tokens

namespace Rules

open Parse

/-- The rules that others refer back to take a token, and a token less is enough for them than for the others. -/
structure Steps (r : Rules) : Prop where
  expression (ts : Tokens) : Takes True (r.fuel - 1) r.expression ts
  assignment (ts : Tokens) : Takes True (r.fuel - 1) r.assignment ts
  binary (least : Nat) (ts : Tokens) : Takes True (r.fuel - 1) (r.binary least) ts
  unary (ts : Tokens) : Takes True (r.fuel - 1) r.unary ts
  statement (ts : Tokens) : Takes True (r.fuel - 1) r.statement ts

namespace Steps

variable {r : Rules} (h : r.Steps) (ts : Tokens)

include h

theorem statements_rounds (stop : Tokens → Bool) :
    Rounds (r.fuel - 1) fun (_ : Unit) n => listUntil stop r.statement n := listUntil_rounds h.statement

theorem block : Takes True r.fuel r.block ts := by
  refine .andThen .expect fun _ us => ?_
  exact .bind ((h.statements_rounds _).takes () (Nat.sub_le _ _)) fun _ _ => .bind .advance fun _ _ => .pure _

theorem param : Takes True (r.fuel - 1) r.param ts := by
  refine .first .identifier fun _ us => .eat ?_ (.pure _)
  exact .bind (h.assignment _).later fun _ _ => .pure _

theorem params_rounds : Rounds (r.fuel - 1) fun (_ : Unit) n => commaList .parenClose r.param n :=
  commaList_rounds h.param

theorem params : Takes True r.fuel r.params ts := by
  refine .andThen .expect fun _ us => ?_
  exact .bind (h.params_rounds.takes () (Nat.sub_le _ _)) fun _ _ => .bind .expect fun _ _ => .pure _

theorem functionRest (named : Bool) : Takes True r.fuel (r.functionRest named) ts := by
  refine .bind .mayEat fun _ us => .look ?_
  extract_lets rest
  have hrest (name : Option String) (us : Tokens) : Takes True r.fuel (rest name) us :=
    .first (h.params us) fun _ us => .bind (h.block us) fun _ _ => .pure _
  exact .ite (fun _ => .bind (.map .identifier) hrest) fun _ =>
    .ite (fun _ => .first .unexpected fun _ _ => (hrest _ _).weaken False.elim) fun _ => .bind (.pure none) hrest

theorem arrowFunction : Takes True r.fuel r.arrowFunction ts := by
  refine .look ?_
  extract_lets rest
  have hrest (params : List String) (us : Tokens) : Takes True r.fuel (rest params) us := by
    refine .andThen .expect fun _ us => .look ?_
    extract_lets made
    have hmade (body : FunctionBody) (us : Tokens) : Takes False (r.fuel - 1) (made body) us := .pure _
    exact .ite (fun _ => .bind (.map (h.block us).later) hmade) fun _ => .bind (.map (h.assignment us)) hmade
  have hname : Takes True r.fuel (do pure [← identifier]) ts := .first .identifier fun _ _ => .pure _
  exact .ite (fun _ => .bind (h.params ts) hrest) fun _ => .bind hname hrest

theorem arguments_rounds (stop : Mark) : Rounds (r.fuel - 1) fun (_ : Unit) n => commaList stop r.assignment n :=
  commaList_rounds h.assignment

theorem arguments : Takes True r.fuel r.arguments ts := by
  refine .andThen .expect fun _ us => ?_
  exact .bind ((h.arguments_rounds _).takes () (Nat.sub_le _ _)) fun _ _ => .bind .expect fun _ _ => .pure _

theorem hole_settled {source : String} (start : Position) (hlength : source.length < r.fuel - 1) :
    Settled (r.hole source start) := by
  refine (tokenizeAt_settled source start).bind fun tokens htokens => ?_
  have hweight := tokenizeAt_weight htokens
  refine ((h.expression tokens).settled (by omega)).bind fun ⟨e, rest⟩ _ => ?_
  dsimp only
  split
  · exact settled_ok e
  · exact fun p hp => rest.surprise_ne (congrArg SourceError.fault (Except.error.inj hp))

theorem pieces_settled {parts : List TemplatePart} (hlength : (parts.map TemplatePart.code).sum < r.fuel - 1) :
    Settled (r.pieces parts) := by
  induction parts with
  | nil => exact settled_ok []
  | cons part parts ih =>
    rw [List.map_cons, List.sum_cons] at hlength
    have hrest := ih (by omega)
    cases part with
    | text s => exact hrest.bind fun _ _ => settled_ok _
    | hole source start =>
      have hcode : source.length < r.fuel - 1 := by
        simp only [TemplatePart.code] at hlength
        omega
      exact (h.hole_settled start hcode).bind fun _ _ => hrest.bind fun _ _ => settled_ok _

theorem fieldKey : Takes True r.fuel r.fieldKey ts := by
  refine .look ?_
  split
  · next hl => exact .take (Tokens.ne_nil_of_head hl) (.pure _)
  · next hl => exact .take (Tokens.ne_nil_of_head hl) (.pure _)
  · next hl => exact .take (Tokens.ne_nil_of_head hl) (.pure _)
  · next hl =>
    refine .take (Tokens.ne_nil_of_head hl) ?_
    exact .bind (h.assignment _) fun _ _ => .bind .expect fun _ _ => .pure _
  · exact .unexpected

theorem field : Takes True (r.fuel - 1) r.field ts := by
  refine .first (h.fieldKey ts).later fun key us => .eat ?_ (.look (.ite (fun _ => ?_) fun _ => ?_))
  · exact .bind (h.assignment _).later fun _ _ => .pure _
  · exact .bind (h.params us).later fun _ us => .bind (h.block us).later fun _ _ => .pure _
  · cases key with
    | inl n => exact .pure _
    | inr e => exact .unexpected

theorem fields_rounds : Rounds (r.fuel - 1) fun (_ : Unit) n => commaList .braceClose r.field n :=
  commaList_rounds h.field

theorem primaryName {n : String} (hn : ts.head? = some (.name n)) : Takes True r.fuel (r.primaryName n) ts := by
  have hne := Tokens.ne_nil_of_head hn
  refine .ite (fun _ => .take hne (.pure _)) fun _ => .ite (fun _ => .take hne (.pure _)) fun _ => ?_
  refine .ite (fun _ => .take hne (.pure _)) fun _ => .ite (fun _ => .take hne (.pure _)) fun _ => ?_
  refine .ite (fun _ => .take hne (.map ((h.functionRest _ _).any.later))) fun _ => .look ?_
  refine .ite (fun _ => .take hne ?_) fun _ => .map .identifier
  exact .bind .advance fun _ us => .map (h.functionRest us false).any.later

theorem primary : Takes True r.fuel r.primary ts := by
  refine .look ?_
  split
  · next hl => exact .take (Tokens.ne_nil_of_head hl) (.pure _)
  · next hl => exact .take (Tokens.ne_nil_of_head hl) (.pure _)
  · next parts hl =>
    -- the template weighs one more than the code in its holes, which is read with the bound of one level less
    refine .takeLift (Tokens.ne_nil_of_head hl) (fun hless => h.pieces_settled ?_) fun _ => .pure _
    obtain ⟨t, ht, hlexeme⟩ := Tokens.exists_of_head hl
    simp only [Tokens.weight, ht, List.map_cons, List.sum_cons, hlexeme, Lexeme.weight] at hless
    omega
  · next hl => exact h.primaryName ts hl
  · next hl =>
    refine .take (Tokens.ne_nil_of_head hl) ?_
    exact .bind (h.expression _) fun _ _ => .bind .expect fun _ _ => .pure _
  · next hl =>
    refine .take (Tokens.ne_nil_of_head hl) ?_
    exact .bind ((h.arguments_rounds _).takes () (Nat.sub_le _ _)) fun _ _ => .bind .expect fun _ _ => .pure _
  · next hl =>
    refine .take (Tokens.ne_nil_of_head hl) ?_
    exact .bind (h.fields_rounds.takes () (Nat.sub_le _ _)) fun _ _ => .bind .expect fun _ _ => .pure _
  · exact .unexpected

omit h in
theorem memberOnly_rounds (b : Nat) : Rounds b fun e n => memberOnly n e where
  none _ := rfl
  round _ _ := .eat (.item .propertyName fun _ _ => .tail _) (.stop (.pure _))

theorem newOrPrimary : Takes True r.fuel r.newOrPrimary ts := by
  refine .eatWord ?_ (h.primary ts)
  refine .bind (h.primary _).later fun callee us => .bind ((memberOnly_rounds _).takes callee (Nat.sub_le _ _)) ?_
  exact fun _ us => .look (.ite (fun _ => .bind (h.arguments us).later fun _ _ => .pure _) fun _ => .pure _)

theorem accesses_rounds : Rounds (r.fuel - 1) fun e n => r.accesses n e where
  none _ := rfl
  round e ts := by
    refine .eat (.item .propertyName fun _ _ => .tail _) (.eat (.item .propertyName fun _ _ => .tail _) ?_)
    refine .eat (.item (h.expression _) fun _ _ => .item .expect fun _ _ => .tail _) (.look ?_)
    exact .ite (fun _ => .item (h.arguments ts).later fun _ _ => .tail _) fun _ => .stop (.pure e)

theorem postfixed : Takes True r.fuel r.postfixed ts := by
  refine .andThen (h.newOrPrimary ts) fun e us => .bind (h.accesses_rounds.takes e (Nat.sub_le _ _)) fun e us => .look ?_
  split
  · exact .ite (fun _ => .bind .advance fun _ _ => .pure _) fun _ => .fail nofun
  · exact .pure e

theorem unaryRule : Takes True r.fuel r.unaryRule ts := by
  refine .look ?_
  split
  · next hop => exact .take (Tokens.ne_nil_of_unaryOp? hop) (.bind (h.unary _) fun _ _ => .pure _)
  · refine .eatWord (.bind (h.unary _) fun _ _ => .pure _) (.look ?_)
    split
    · next hop =>
      refine .take (Tokens.ne_nil_of_update? hop) (.bind (h.unary _) fun _ _ => ?_)
      exact .ite (fun _ => .pure _) fun _ => .fail nofun
    · exact h.postfixed ts

theorem operators_rounds (least : Nat) : Rounds (r.fuel - 1) fun left n => r.operators least n left where
  none _ := rfl
  round left ts := by
    refine .look ?_
    cases hop : ts.operator? with
    | none => exact .stop (.pure left)
    | some op =>
      refine .ite (fun _ => .stop (.pure left)) fun _ => .take (Tokens.ne_nil_of_operator? hop) ?_
      exact .item (h.binary _ _) fun _ _ => .tail _

theorem binaryRule (least : Nat) : Takes True r.fuel (r.binaryRule least) ts :=
  .andThen (h.unaryRule ts) fun left _ => (h.operators_rounds least).takes left (Nat.sub_le _ _)

theorem conditional : Takes True r.fuel r.conditional ts := by
  refine .andThen (h.binaryRule ts 1) fun test us => .eat ?_ (.pure test)
  exact .bind (h.assignment _).later fun _ _ => .bind .expect fun _ us => .bind (h.assignment us).later fun _ _ => .pure _

theorem plainAssignment : Takes True r.fuel r.plainAssignment ts := by
  refine .andThen (h.conditional ts) fun target us => .look ?_
  split
  · exact .pure target
  · refine .ite (fun _ => ?_) fun _ => .fail nofun
    exact .bind .advance fun _ us => .bind (h.assignment us) fun _ _ => .pure _

theorem assignmentRule : Takes True r.fuel r.assignmentRule ts := by
  refine .look (.ite (fun _ => ?_) fun _ => .look (.ite (fun _ => h.arrowFunction ts) fun _ => h.plainAssignment ts))
  exact .bind .advance fun _ us => h.arrowFunction us

theorem sequenceRest_rounds : Rounds r.fuel fun (_ : Unit) n => r.sequenceRest n where
  none _ := rfl
  round _ _ := .eat (.item (h.assignmentRule _) fun e _ => .go () (e :: ·)) (.stop (.pure []))

theorem expressionRule : Takes True r.fuel r.expressionRule ts := by
  refine .first (h.assignmentRule ts) fun first us => .bind (h.sequenceRest_rounds.takes () (Nat.le_refl _)) ?_
  intro rest us
  split
  · exact .pure first
  · exact .pure _

theorem declarator : Takes True r.fuel r.declarator ts := by
  refine .first .identifier fun _ us => .eat ?_ (.pure _)
  exact .bind (h.assignmentRule _).later fun _ _ => .pure _

theorem declarators_rounds : Rounds r.fuel fun (_ : Unit) n => r.declarators n where
  none _ := rfl
  round _ ts := .item (h.declarator ts) fun d _ => .eat (.go () (d :: ·)) (.stop (.pure [d]))

theorem declarators {n : Nat} (hle : r.fuel ≤ n) : Takes True r.fuel (r.declarators n) ts := by
  cases n with
  | zero => exact (Nat.le_zero.mp hle).symm ▸ .zero .tooLong
  | succ n =>
    have hrest : Rounds (r.fuel - 1) fun (_ : Unit) n => r.declarators n := h.declarators_rounds.mono (Nat.sub_le _ _)
    refine .first (h.declarator ts) fun d us => .eat ?_ (.pure [d])
    exact .bind (hrest.takes () (by omega)) fun _ _ => .pure _

theorem condition : Takes True r.fuel r.condition ts :=
  .first .expect fun _ us => .bind (h.expressionRule us) fun _ _ => .bind .expect fun _ _ => .pure _

theorem ifStatement : Takes True r.fuel r.ifStatement ts := by
  refine .andThen (h.condition ts) fun _ us => .bind (h.statement us) fun _ us => .eatWord ?_ (.pure _)
  exact .bind (h.statement _).later fun _ _ => .pure _

theorem doStatement : Takes True (r.fuel - 1) r.doStatement ts :=
  .first (h.statement ts) fun _ _ => .bind .expectWord fun _ us => .bind (h.condition us).later fun _ _ =>
    .bind .mayEat fun _ _ => .pure _

theorem forEach (keys : Bool) : Takes True r.fuel (r.forEach keys) ts := by
  refine .look ?_
  extract_lets rest
  have hrest (u : Unit) (us : Tokens) : Takes True r.fuel (rest u) us :=
    .andThen .identifier fun _ _ => .bind .advance fun _ us => .bind (h.assignment us) fun _ _ =>
      .bind .expect fun _ us => .bind (h.statement us) fun _ _ => .pure _
  exact .ite (fun _ => .bind .advance hrest) fun _ => hrest () ts

theorem forStart : Takes False r.fuel r.forStart ts := by
  refine .look (.ite (fun _ => .pure _) fun _ => .look ?_)
  split
  · exact .bind .advance fun _ us => .bind (h.declarators us (Nat.le_refl _)) fun _ _ => .pure _
  · exact .bind (h.expressionRule ts) fun _ _ => .pure _

theorem expressionBefore (m : Mark) : Takes False r.fuel (r.expressionBefore m) ts :=
  .look (.ite (fun _ => .pure _) fun _ => .bind (h.expressionRule ts) fun _ _ => .pure _)

theorem forStatement : Takes True r.fuel r.forStatement ts := by
  refine .andThen .expect fun _ us => .look ?_
  split
  · exact (h.forEach us _).any.later
  · refine .bind (h.forStart us).later fun _ us => .bind .expect fun _ us => ?_
    refine .bind (h.expressionBefore us _).later fun _ us => .bind .expect fun _ us => ?_
    exact .bind (h.expressionBefore us _).later fun _ us => .bind .expect fun _ us =>
      .bind (h.statement us) fun _ _ => .pure _

theorem caseBody : Takes True r.fuel r.caseBody ts :=
  .andThen .expect fun _ _ => (h.statements_rounds _).takes () (Nat.sub_le _ _)

theorem cases_rounds : Rounds r.fuel fun seenDefault n => r.cases n seenDefault where
  none _ := rfl
  round seenDefault ts := by
    refine .eat (.stop (.pure [])) (.eatWord ?_ ?_)
    · exact .item (h.expressionRule _) fun _ us => .item (h.caseBody us) fun _ _ => .go _ _
    · refine .ite (p := fun _ => unexpected) (fun _ => .stop .unexpected) fun _ => .item .expectWord fun _ us => ?_
      exact .item (h.caseBody us) fun _ _ => .go true _

theorem switchStatement : Takes True r.fuel r.switchStatement ts :=
  .first (h.condition ts) fun _ _ => .bind .expect fun _ _ =>
    .bind (h.cases_rounds.takes false (Nat.le_refl _)) fun _ _ => .pure _

theorem handler : Takes True r.fuel r.handler ts := by
  refine .eat ?_ (.first (h.block ts) fun _ _ => .pure _)
  exact .bind .identifier fun _ _ => .bind .expect fun _ us => .bind (h.block us).later fun _ _ => .pure _

theorem tryStatement : Takes True r.fuel r.tryStatement ts := by
  refine .first (h.block ts) fun body us => ?_
  refine .bind .mayEatWord fun _ us => ?_
  extract_lets rest
  have hrest (handler : Option Handler) (us : Tokens) : Takes False r.fuel (rest handler) us := by
    refine .bind .mayEatWord fun _ us => ?_
    extract_lets made
    have hmade (last : Option (List Stmt)) (us : Tokens) : Takes False r.fuel (made last) us :=
      .ite (fun _ => .unexpected) fun _ => .pure _
    exact .ite (fun _ => .bind (.map (h.block us)) hmade) fun _ => .bind (.pure none) hmade
  exact .ite (fun _ => .bind (.map (h.handler us)) hrest) fun _ => .bind (.pure none) hrest

theorem returnStatement : Takes False r.fuel r.returnStatement ts := by
  refine .look (.ite (fun _ => .bind .semicolon fun _ _ => .pure _) fun _ => ?_)
  exact .bind (h.expressionRule ts) fun _ _ => .bind .semicolon fun _ _ => .pure _

theorem declaration (kind : DeclKind) : Takes True r.fuel (r.declaration kind) ts :=
  .first (h.declarators ts (Nat.le_refl _)) fun _ _ => .bind .semicolon fun _ _ => .pure _

theorem expressionStatement : Takes True r.fuel r.expressionStatement ts :=
  .first (h.expressionRule ts) fun _ _ => .bind .semicolon fun _ _ => .pure _

theorem wordRule? {word : String} {rule : Parse Stmt} (hrule : r.wordRule? word = some rule) :
    Takes False (r.fuel - 1) rule ts := by
  have hbreak (st : Stmt) : Takes False (r.fuel - 1) (do semicolon; pure st) ts :=
    .bind .semicolon fun _ _ => .pure st
  unfold Rules.wordRule? at hrule
  split at hrule <;> cases hrule
  next => exact (h.declaration ts _).any.later
  next => exact (h.declaration ts _).any.later
  next => exact (h.declaration ts _).any.later
  next => exact (h.ifStatement ts).any.later
  next => exact .bind (h.condition ts).later fun _ us => .bind (h.statement us) fun _ _ => .pure _
  next => exact (h.doStatement ts).any
  next => exact (h.forStatement ts).any.later
  next => exact hbreak .break
  next => exact hbreak .continue
  next => exact .map (h.functionRest ts true).any.later
  next => exact (h.returnStatement ts).later
  next => exact .bind (h.expressionRule ts).later fun _ _ => .bind .semicolon fun _ _ => .pure _
  next => exact (h.tryStatement ts).any.later
  next => exact (h.switchStatement ts).any.later

theorem statementRule : Takes True r.fuel r.statementRule ts := by
  refine .look ?_
  split
  · next hl => exact .take (Tokens.ne_nil_of_head hl) (.pure _)
  · exact .map (h.block ts)
  · next word hl =>
    have hne := Tokens.ne_nil_of_head hl
    split
    · next rule hrule => exact .take hne (h.wordRule? _ hrule)
    · refine .look (.ite (fun _ => .take hne ?_) fun _ => h.expressionStatement ts)
      exact .bind .advance fun _ us => .map (h.functionRest us true).any.later
  · exact h.expressionStatement ts

theorem program_rounds : Rounds (r.fuel - 1) fun (_ : Unit) n => r.program n where
  none _ := rfl
  round _ ts := .look (.ite (fun _ => .stop (.pure [])) fun _ => .item (h.statement ts) fun s _ => .go () (s :: ·))

end Steps

theorem level_fuel (n : Nat) : (level n).fuel = n := by
  cases n <;> rfl

theorem level_steps (n : Nat) : (level n).Steps := by
  -- what a level refers back to are the rules of the level below, with its bound
  induction n with
  | zero => exact ⟨fun _ => .zero _, fun _ => .zero _, fun _ _ => .zero _, fun _ => .zero _, fun _ => .zero _⟩
  | succ n ih =>
    have hfuel : (level (n + 1)).fuel - 1 = (level n).fuel := (level_fuel n).symm
    exact ⟨fun ts => hfuel ▸ ih.expressionRule ts, fun ts => hfuel ▸ ih.assignmentRule ts,
      fun least ts => hfuel ▸ ih.binaryRule ts least, fun ts => hfuel ▸ ih.unaryRule ts,
      fun ts => hfuel ▸ ih.statementRule ts⟩

/-- From each position among the tokens the rule, when it answers, leaves one further on, the end at most. It is not
cut short by a bound when the tokens weigh less than `n`. -/
structure Advances {α : Type} (n : Nat) (p : Parse α) : Prop where
  further {all us : Tokens} {i : Nat} {a : α} : i ≤ all.ahead.length → p (all.past i) = .ok (a, us) →
    ∃ j, i < j ∧ j ≤ all.ahead.length ∧ us = all.past j
  settled {ts : Tokens} : ts.weight < n → Settled (p ts)

theorem advances {α : Type} {n : Nat} {p : Parse α} (h : ∀ ts, Takes True n p ts) : Advances n p where
  further hi hp := by
    obtain ⟨k, hk, hpos, rfl⟩ := (h _).further hp
    rw [Tokens.length_past] at hk
    have := hpos trivial
    exact ⟨_, by omega, by omega, Tokens.past_past _ _ k⟩
  settled := (h _).settled

/-- Every rule advances, and every loop takes a token in each of its rounds. -/
structure Progresses (r : Rules) : Prop where
  statement : Advances r.fuel r.statementRule
  block : Advances r.fuel r.block
  declaration (kind : DeclKind) : Advances r.fuel (r.declaration kind)
  declarator : Advances r.fuel r.declarator
  condition : Advances r.fuel r.condition
  ifStatement : Advances r.fuel r.ifStatement
  doStatement : Advances (r.fuel - 1) r.doStatement
  forStatement : Advances r.fuel r.forStatement
  forEach (keys : Bool) : Advances r.fuel (r.forEach keys)
  switchStatement : Advances r.fuel r.switchStatement
  caseBody : Advances r.fuel r.caseBody
  tryStatement : Advances r.fuel r.tryStatement
  handler : Advances r.fuel r.handler
  functionRest (named : Bool) : Advances r.fuel (r.functionRest named)
  params : Advances r.fuel r.params
  param : Advances (r.fuel - 1) r.param
  expression : Advances r.fuel r.expressionRule
  assignment : Advances r.fuel r.assignmentRule
  plainAssignment : Advances r.fuel r.plainAssignment
  arrowFunction : Advances r.fuel r.arrowFunction
  conditional : Advances r.fuel r.conditional
  binary (least : Nat) : Advances r.fuel (r.binaryRule least)
  unary : Advances r.fuel r.unaryRule
  postfixed : Advances r.fuel r.postfixed
  newOrPrimary : Advances r.fuel r.newOrPrimary
  arguments : Advances r.fuel r.arguments
  primary : Advances r.fuel r.primary
  fieldKey : Advances r.fuel r.fieldKey
  field : Advances (r.fuel - 1) r.field
  identifier : Advances r.fuel identifier
  propertyName : Advances r.fuel propertyName
  statements (stop : Tokens → Bool) : Rounds (r.fuel - 1) fun (_ : Unit) n => listUntil stop r.statement n
  declarators : Rounds r.fuel fun (_ : Unit) n => r.declarators n
  cases : Rounds r.fuel fun seenDefault n => r.cases n seenDefault
  sequenceRest : Rounds r.fuel fun (_ : Unit) n => r.sequenceRest n
  operators (least : Nat) : Rounds (r.fuel - 1) fun left n => r.operators least n left
  accesses : Rounds (r.fuel - 1) fun e n => r.accesses n e
  memberOnly : Rounds r.fuel fun e n => memberOnly n e
  parameters : Rounds (r.fuel - 1) fun (_ : Unit) n => commaList .parenClose r.param n
  items (stop : Mark) : Rounds (r.fuel - 1) fun (_ : Unit) n => commaList stop r.assignment n
  fields : Rounds (r.fuel - 1) fun (_ : Unit) n => commaList .braceClose r.field n
  program : Rounds (r.fuel - 1) fun (_ : Unit) n => r.program n

theorem Steps.progresses {r : Rules} (h : r.Steps) : r.Progresses where
  statement := advances h.statementRule
  block := advances h.block
  declaration kind := advances fun ts => h.declaration ts kind
  declarator := advances h.declarator
  condition := advances h.condition
  ifStatement := advances h.ifStatement
  doStatement := advances h.doStatement
  forStatement := advances h.forStatement
  forEach keys := advances fun ts => h.forEach ts keys
  switchStatement := advances h.switchStatement
  caseBody := advances h.caseBody
  tryStatement := advances h.tryStatement
  handler := advances h.handler
  functionRest named := advances fun ts => h.functionRest ts named
  params := advances h.params
  param := advances h.param
  expression := advances h.expressionRule
  assignment := advances h.assignmentRule
  plainAssignment := advances h.plainAssignment
  arrowFunction := advances h.arrowFunction
  conditional := advances h.conditional
  binary least := advances fun ts => h.binaryRule ts least
  unary := advances h.unaryRule
  postfixed := advances h.postfixed
  newOrPrimary := advances h.newOrPrimary
  arguments := advances h.arguments
  primary := advances h.primary
  fieldKey := advances h.fieldKey
  field := advances h.field
  identifier := advances fun _ => .identifier
  propertyName := advances fun _ => .propertyName
  statements := h.statements_rounds
  declarators := h.declarators_rounds
  cases := h.cases_rounds
  sequenceRest := h.sequenceRest_rounds
  operators := h.operators_rounds
  accesses := h.accesses_rounds
  memberOnly := memberOnly_rounds r.fuel
  parameters := h.params_rounds
  items := h.arguments_rounds
  fields := h.fields_rounds
  program := h.program_rounds

/-- When a program is read, no token is left. -/
theorem program_takes_all {r : Rules} {n : Nat} {ts us : Tokens} {body : Program}
    (h : r.program n ts = .ok (body, us)) : us.ahead = [] := by
  induction n generalizing ts body with
  | zero => cases h
  | succ n ih =>
    obtain ⟨atEnd, vs, hlook, h⟩ := bind_eq_ok.mp h
    cases hlook
    split at h
    · next hend =>
      cases h
      exact List.isEmpty_iff.mp hend
    · obtain ⟨s, vs, -, h⟩ := bind_eq_ok.mp h
      obtain ⟨rest, ws, hrest, h⟩ := bind_eq_ok.mp h
      cases h
      exact ih hrest

end Rules

namespace Tokens

theorem past_of_further {must : Prop} {ts us : Tokens} (h : ts.Further must us) (hend : us.ahead = []) :
    us = ts.past ts.ahead.length := by
  obtain ⟨i, hi, -, rfl⟩ := h
  have hlength := ts.length_past i
  rw [hend, List.length_nil] at hlength
  rw [show i = ts.ahead.length by omega]

theorem iterate_advance_past (ts : Tokens) (i k : Nat) : advance^[k] (ts.past i) = ts.past (i + k) := by
  induction k with
  | zero => rfl
  | succ k ih => rw [Function.iterate_succ_apply', ih, advance_past, Nat.add_assoc]

/-- A token further on is the one at its place in the list, or the end. -/
theorem head?_iterate_advance (all : Tokens) (i k : Nat) :
    (advance^[k] (all.past i)).head? = (all.ahead[min (i + k) all.ahead.length]?).map (·.lexeme) := by
  rw [iterate_advance_past, head?, past, List.head?_drop]
  by_cases h : i + k ≤ all.ahead.length
  · rw [Nat.min_eq_left h]
  · rw [Nat.min_eq_right (by omega), List.getElem?_eq_none (by omega), List.getElem?_eq_none (Nat.le_refl _)]

end Tokens

def startsWithArrow (ks : List Token) : Bool :=
  match ks.head?.map Token.lexeme with
  | some (.mark .arrow) => true
  | _ => false

/-- Whether an arrow comes after the group, with the groups that are open counted; none when the count would fall below
zero. -/
def arrowAfterGroup? : Nat → List Token → Option Bool
  | _, [] => some false
  | depth, t :: rest => do
    let depth ← t.lexeme.regroup depth
    if depth = 0 then some (startsWithArrow rest) else arrowAfterGroup? depth rest

theorem arrowAfterGroup?_of_open {depth : Nat} {ks : List Token} (h : 0 < depth) :
    arrowAfterGroup? depth ks = some (arrowAfterGroup depth ks) := by
  induction ks generalizing depth with
  | nil => rfl
  | cons t ks ih =>
    obtain ⟨depth, rfl⟩ : ∃ d, depth = d + 1 := ⟨depth - 1, by omega⟩
    rw [arrowAfterGroup?, arrowAfterGroup]
    cases t.lexeme with
    | mark m =>
      cases m with
      | parenOpen => exact ih (Nat.succ_pos _)
      | parenClose =>
        cases depth with
        | zero => rfl
        | succ depth => exact ih (Nat.succ_pos _)
      | _ => exact ih h
    | _ => exact ih h

theorem arrowAfterGroup?_of_parenOpen {ts : Tokens} (h : ts.isMark .parenOpen = true) :
    arrowAfterGroup? 0 ts.ahead = some (arrowAfterGroup 0 ts.ahead) := by
  obtain ⟨t, ht, hl⟩ := Tokens.exists_of_head (Tokens.isMark_iff.mp h)
  rw [ht, arrowAfterGroup?, arrowAfterGroup, hl]
  exact arrowAfterGroup?_of_open Nat.one_pos

theorem parse_settled (source : String) : Settled (parse source) := by
  refine (tokenizeAt_settled source .start).bind fun tokens htokens => ?_
  have hweight := tokenizeAt_weight htokens
  have hfuel : (Rules.level (source.length + 2)).fuel - 1 = source.length + 1 := rfl
  have hprogram : Parse.Takes False _ ((Rules.level (source.length + 2)).program (source.length + 2)) tokens :=
    (Rules.level_steps (source.length + 2)).program_rounds.takes () (Nat.sub_le _ _)
  exact (hprogram.settled (by omega)).bind fun _ _ => settled_ok _

theorem parse_takes_all {source : String} {body : Program} (h : parse source = .ok body) :
    ∃ tokens, tokenize source = .ok tokens ∧ (Rules.level (source.length + 2)).program (source.length + 2) tokens =
      .ok (body, tokens.past tokens.ahead.length) := by
  obtain ⟨tokens, htokens, h⟩ := ok_of_bind h
  obtain ⟨⟨body', us⟩, hprogram, h⟩ := ok_of_bind h
  cases h
  have htakes : Parse.Takes False _ ((Rules.level (source.length + 2)).program (source.length + 2)) tokens :=
    (Rules.level_steps (source.length + 2)).program_rounds.takes () (Nat.sub_le _ _)
  exact ⟨tokens, htokens, Tokens.past_of_further (htakes.further hprogram) (Rules.program_takes_all hprogram) ▸ hprogram⟩

/-- A rule that answers has gone on, and each round of a loop too; what is looked at stands among the tokens. So the
parser ends on every source, and a program that is read takes every token. -/
theorem parser_progresses :
    (∀ n, (Rules.level n).Progresses) ∧
      (∀ (all : Tokens) (i k : Nat),
        (Tokens.advance^[k] (all.past i)).head? = (all.ahead[min (i + k) all.ahead.length]?).map (·.lexeme)) ∧
      (∀ ts : Tokens, ts.isMark .parenOpen = true →
        arrowAfterGroup? 0 ts.ahead = some (arrowAfterGroup 0 ts.ahead)) ∧
      (∀ source, Settled (parse source)) ∧
      ∀ source body, parse source = .ok body → ∃ tokens, tokenize source = .ok tokens ∧
        (Rules.level (source.length + 2)).program (source.length + 2) tokens =
          .ok (body, tokens.past tokens.ahead.length) :=
  ⟨fun n => (Rules.level_steps n).progresses, Tokens.head?_iterate_advance, fun _ => arrowAfterGroup?_of_parenOpen,
    parse_settled, fun _ _ => parse_takes_all⟩

theorem arrow_takes_every_token :
    ∃ tokens s body, tokenize "(a) => a" = .ok tokens ∧ tokens.ahead.length = 5 ∧
      arrowAfterGroup? 0 tokens.ahead = some true ∧
      (∃ j, 0 < j ∧ j ≤ 5 ∧ (Rules.level 10).statementRule (tokens.past 0) = .ok (s, tokens.past j)) ∧
      parse "(a) => a" = .ok body ∧ (Rules.level 10).program 10 tokens = .ok (body, tokens.past 5) := by
  have htokens : (tokenize "(a) => a").toOption.any (fun ts => ts.isMark .parenOpen && ts.ahead.length == 5 &&
      arrowAfterGroup 0 ts.ahead && ((Rules.level 10).statementRule (ts.past 0)).isOk) = true := by decide +kernel
  have hbody : (parse "(a) => a").isOk = true := by decide +kernel
  obtain ⟨hrules, -, hcount, -, hall⟩ := parser_progresses
  cases hts : tokenize "(a) => a" with
  | error e =>
    rw [hts] at htokens
    cases htokens
  | ok tokens =>
    simp only [hts, Except.toOption, Option.any_some, Bool.and_eq_true, beq_iff_eq] at htokens
    obtain ⟨⟨⟨hmark, hlength⟩, harrow⟩, hstatement⟩ := htokens
    cases hs : (Rules.level 10).statementRule (tokens.past 0) with
    | error e =>
      rw [hs] at hstatement
      cases hstatement
    | ok r =>
      cases hp : parse "(a) => a" with
      | error e =>
        rw [hp] at hbody
        cases hbody
      | ok body =>
        obtain ⟨j, hpos, hle, hj⟩ := (hrules 10).statement.further (Nat.zero_le _) hs
        obtain ⟨ts, hts', hprogram⟩ := hall _ _ hp
        obtain rfl : ts = tokens := Except.ok.inj (hts'.symm.trans hts)
        refine ⟨ts, r.1, body, rfl, hlength, harrow ▸ hcount ts hmark, ⟨j, hpos, hlength ▸ hle, ?_⟩, rfl, ?_⟩
        · exact hs.trans (congrArg Except.ok (Prod.ext rfl hj))
        · exact hlength ▸ hprogram

end Apiary
