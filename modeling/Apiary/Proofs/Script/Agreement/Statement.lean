import Apiary.Proofs.Script.Agreement

/-!
The rules for statements agree as well, and so do whole programs: each level of the rules agrees with the levels above.
-/

namespace Apiary

namespace Rules

namespace Agree

variable {r r' : Rules} (h : r.Agree r')

include h

theorem declarator : Parse.Agree (fun d => Declarator.AllWellFormed [d]) r.declarator r'.declarator := by
  refine .bind .identifier fun _ _ => .bind (.eat _) fun _ _ => .ite (fun _ => ?_) fun _ => .pure ⟨trivial, trivial⟩
  exact .bind h.assignmentRule fun _ he => .pure ⟨he, trivial⟩

theorem declarators {n m : Nat} (hn : n ≤ m) :
    Parse.Agree (fun ds => ds ≠ [] ∧ Declarator.AllWellFormed ds) (r.declarators n) (r'.declarators m) := by
  induction n generalizing m with
  | zero => exact .fail _
  | succ n ih =>
    obtain ⟨m, rfl⟩ : ∃ j, m = j + 1 := ⟨m - 1, by omega⟩
    refine .bind h.declarator fun d hd => .bind (.eat _) fun _ _ => .ite (fun _ => ?_) fun _ => .pure ⟨nofun, hd⟩
    obtain ⟨name, init⟩ := d
    exact .bind (ih (by omega)) fun _ hrest => .pure ⟨nofun, hd.1, hrest.2⟩

theorem condition : Parse.Agree Expr.WellFormed r.condition r'.condition :=
  .bind (.expect _) fun _ _ => .bind h.expressionRule fun _ he => .bind (.expect _) fun _ _ => .pure he

theorem ifStatement : Parse.Agree Stmt.WellFormed r.ifStatement r'.ifStatement := by
  refine .bind h.condition fun _ htest => .bind h.statement fun _ hyes => .bind (.eatWord _) fun _ _ => ?_
  exact .ite (fun _ => .bind h.statement fun _ hno => .pure ⟨htest, hyes, hno⟩) fun _ => .pure ⟨htest, hyes, trivial⟩

theorem doStatement : Parse.Agree Stmt.WellFormed r.doStatement r'.doStatement :=
  .bind h.statement fun _ hbody => .bind (.expectWord _) fun _ _ => .bind h.condition fun _ htest =>
    .bind (.eat _) fun _ _ => .pure ⟨htest, hbody⟩

theorem forEach (keys : Bool) : Parse.Agree Stmt.WellFormed (r.forEach keys) (r'.forEach keys) := by
  refine .bind (.look (by simp)) fun kind _ => ?_
  extract_lets rest rest'
  have hrest (u : Unit) (_ : True) : Parse.Agree Stmt.WellFormed (rest u) (rest' u) :=
    .bind .identifier fun _ _ => .bind .advance fun _ _ => .bind h.assignment fun _ hsource =>
      .bind (.expect _) fun _ _ => .bind h.statement fun _ hbody => .pure ⟨hsource, hbody⟩
  exact .ite (fun _ => .bind .advance hrest) fun _ => hrest () trivial

theorem forStart : Parse.Agree ForStart.WellFormed r.forStart r'.forStart := by
  refine .bind (.look (by simp)) fun _ _ => .ite (fun _ => .pure trivial) fun _ => .bind (.look (by simp)) fun kind _ => ?_
  cases kind with
  | none => exact .bind h.expressionRule fun _ he => .pure he
  | some kind => exact .bind .advance fun _ _ => .bind (h.declarators h.fuel) fun _ hdecls => .pure hdecls

theorem expressionBefore (m : Mark) :
    Parse.Agree Expr.OptionWellFormed (r.expressionBefore m) (r'.expressionBefore m) :=
  .bind (.look (by simp)) fun _ _ => .ite (fun _ => .pure trivial) fun _ =>
    .bind h.expressionRule fun _ he => .pure he

theorem forStatement : Parse.Agree Stmt.WellFormed r.forStatement r'.forStatement := by
  refine .bind (.expect _) fun _ _ => .bind (.look (by simp)) fun keys _ => ?_
  cases keys with
  | some keys => exact h.forEach keys
  | none =>
    exact .bind h.forStart fun _ hstart => .bind (.expect _) fun _ _ =>
      .bind (h.expressionBefore _) fun _ htest => .bind (.expect _) fun _ _ =>
        .bind (h.expressionBefore _) fun _ hupdate => .bind (.expect _) fun _ _ =>
          .bind h.statement fun _ hbody => .pure ⟨hstart, htest, hupdate, hbody⟩

theorem caseBody : Parse.Agree Stmt.AllWellFormed r.caseBody r'.caseBody :=
  .bind (.expect _) fun _ _ => .listUntil Stmt.AllWellFormed (by simp) h.statement trivial (fun _ _ => .intro) h.fuel

/-- After one default there is no other. -/
theorem cases {n m : Nat} (hn : n ≤ m) (seenDefault : Bool) :
    Parse.Agree (fun cs => cs.countP Case.isDefault ≤ (if seenDefault then 0 else 1) ∧ Case.AllWellFormed cs)
      (r.cases n seenDefault) (r'.cases m seenDefault) := by
  induction n generalizing m seenDefault with
  | zero => exact .fail _
  | succ n ih =>
    obtain ⟨m, rfl⟩ : ∃ j, m = j + 1 := ⟨m - 1, by omega⟩
    have hle : n ≤ m := by omega
    refine .bind (.eat _) fun _ _ => .ite (fun _ => .pure ⟨by simp, trivial⟩) fun _ => .bind (.eatWord _) fun _ _ => ?_
    refine .ite (fun _ => ?_) fun _ => .ite (fun _ => .unexpected) fun hseen => .bind (.expectWord _) fun _ _ => ?_
    · refine .bind h.expressionRule fun _ htest => .bind h.caseBody fun _ hbody => ?_
      exact .bind (ih hle seenDefault) fun _ hrest =>
        .pure ⟨by simpa [Case.isDefault] using hrest.1, htest, hbody, hrest.2⟩
    · refine .bind h.caseBody fun _ hbody => .bind (ih hle true) fun rest hrest => .pure ⟨?_, trivial, hbody, hrest.2⟩
      have hnone : rest.countP Case.isDefault = 0 := by simpa using hrest.1
      rw [if_neg hseen, List.countP_cons, hnone]
      split <;> omega

theorem switchStatement : Parse.Agree Stmt.WellFormed r.switchStatement r'.switchStatement :=
  .bind h.condition fun _ hsubject => .bind (.expect _) fun _ _ => .bind (h.cases h.fuel false) fun _ hcases =>
    .pure ⟨hsubject, by simpa using hcases.1, hcases.2⟩

theorem handler : Parse.Agree (fun c => Handler.OptionWellFormed (some c)) r.handler r'.handler := by
  refine .bind (.eat _) fun _ _ => .ite (fun _ => ?_) fun _ => .bind h.block fun _ hbody => .pure hbody
  exact .bind .identifier fun _ _ => .bind (.expect _) fun _ _ => .bind h.block fun _ hbody => .pure hbody

theorem tryStatement : Parse.Agree Stmt.WellFormed r.tryStatement r'.tryStatement := by
  refine .bind h.block fun body hbody => .bind (.eatWord _) fun _ _ => ?_
  extract_lets rest rest'
  have hrest (handler : Option Handler) (hhandler : Handler.OptionWellFormed handler) :
      Parse.Agree Stmt.WellFormed (rest handler) (rest' handler) := by
    refine .bind (.eatWord _) fun _ _ => ?_
    extract_lets made
    have hmade (last : Option (List Stmt)) (hlast : Stmt.OptionAllWellFormed last) :
        Parse.Agree Stmt.WellFormed (made last) (made last) := by
      refine .ite (fun _ => .unexpected) fun hsome => .pure ⟨?_, hbody, hhandler, hlast⟩
      cases handler <;> cases last <;> simp_all
    exact .ite (fun _ => .bind (.map h.block fun _ hlast => hlast) hmade) fun _ => .bind (.pure trivial) hmade
  exact .ite (fun _ => .bind (.map h.handler fun _ hhandler => hhandler) hrest) fun _ => .bind (.pure trivial) hrest

theorem returnStatement : Parse.Agree Stmt.WellFormed r.returnStatement r'.returnStatement := by
  refine .bind (.look (by simp)) fun _ _ => .ite (fun _ => .bind .semicolon fun _ _ => .pure trivial) fun _ => ?_
  exact .bind h.expressionRule fun _ he => .bind .semicolon fun _ _ => .pure he

theorem declaration (kind : DeclKind) : Parse.Agree Stmt.WellFormed (r.declaration kind) (r'.declaration kind) :=
  .bind (h.declarators h.fuel) fun _ hdecls => .bind .semicolon fun _ _ => .pure hdecls

theorem declaredFunction : Parse.Agree Stmt.WellFormed (Stmt.function <$> r.functionRest true)
    (Stmt.function <$> r'.functionRest true) :=
  .map (h.functionRest true) fun _ hf => ⟨hf.2 rfl, hf.1⟩

theorem wordRule? (word : String) :
    Option.Rel (Parse.Agree Stmt.WellFormed) (r.wordRule? word) (r'.wordRule? word) := by
  unfold Rules.wordRule?
  split
  next => exact .some (h.declaration _)
  next => exact .some (h.declaration _)
  next => exact .some (h.declaration _)
  next => exact .some h.ifStatement
  next => exact .some (.bind h.condition fun _ htest => .bind h.statement fun _ hbody => .pure ⟨htest, hbody⟩)
  next => exact .some h.doStatement
  next => exact .some h.forStatement
  next => exact .some (.bind .semicolon fun _ _ => .pure trivial)
  next => exact .some (.bind .semicolon fun _ _ => .pure trivial)
  next => exact .some h.declaredFunction
  next => exact .some h.returnStatement
  next => exact .some (.bind h.expressionRule fun _ he => .bind .semicolon fun _ _ => .pure he)
  next => exact .some h.tryStatement
  next => exact .some h.switchStatement
  next => exact .none

theorem expressionStatement : Parse.Agree Stmt.WellFormed r.expressionStatement r'.expressionStatement :=
  .bind h.expressionRule fun _ he => .bind .semicolon fun _ _ => .pure he

theorem statementRule : Parse.Agree Stmt.WellFormed r.statementRule r'.statementRule := by
  refine .head fun l l' hl => ?_
  cases hl with
  | none => exact h.expressionStatement
  | some hl =>
    cases hl with
    | mark m =>
      cases m with
      | semicolon => exact .bind .advance fun _ _ => .pure trivial
      | braceOpen => exact .map h.block fun _ hbody => hbody
      | _ => exact h.expressionStatement
    | name word =>
      have hword := h.wordRule? word
      dsimp only
      generalize r.wordRule? word = rule at hword
      generalize r'.wordRule? word = rule' at hword
      cases hword with
      | some hrule => exact .bind .advance fun _ _ => hrule
      | none =>
        refine .bind (.look (by simp)) fun _ _ => .ite (fun _ => ?_) fun _ => h.expressionStatement
        exact .bind .advance fun _ _ => .bind .advance fun _ _ => h.declaredFunction
    | _ => exact h.expressionStatement

theorem program {n m : Nat} (hn : n ≤ m) : Parse.Agree Stmt.AllWellFormed (r.program n) (r'.program m) := by
  induction n generalizing m with
  | zero => exact .fail _
  | succ n ih =>
    obtain ⟨m, rfl⟩ : ∃ j, m = j + 1 := ⟨m - 1, by omega⟩
    refine .bind (.look (by simp)) fun _ _ => .ite (fun _ => .pure trivial) fun _ => ?_
    exact .bind h.statement fun _ hs => .bind (ih (by omega)) fun _ hrest => .pure ⟨hs, hrest⟩

end Agree

theorem level_agree {n m : Nat} (hn : n ≤ m) : (level n).Agree (level m) := by
  induction n generalizing m with
  | zero => exact ⟨Nat.zero_le _, .fail _, .fail _, fun _ => .fail _, .fail _, .fail _⟩
  | succ n ih =>
    obtain ⟨m, rfl⟩ : ∃ j, m = j + 1 := ⟨m - 1, by omega⟩
    have h := ih (m := m) (by omega)
    exact ⟨hn, h.expressionRule, h.assignmentRule, h.binaryRule, h.unaryRule, h.statementRule⟩

end Rules

theorem parse_agrees {source source' : String} {p : Program} {ts us : Tokens} (h : parse source = .ok p)
    (hts : tokenize source = .ok ts) (hus : tokenize source' = .ok us) (halike : ts.Alike us)
    (hlength : source.length ≤ source'.length) : Stmt.AllWellFormed p ∧ parse source' = .ok p := by
  obtain ⟨ts', hts', h⟩ := ok_of_bind h
  obtain rfl : ts' = ts := Except.ok.inj (hts'.symm.trans hts)
  obtain ⟨⟨p', rest⟩, hp, h⟩ := ok_of_bind h
  cases h
  have hle : source.length + 2 ≤ source'.length + 2 := by omega
  obtain ⟨hwell, us', hp', -⟩ := ((Rules.level_agree hle).program hle).answer halike hp
  refine ⟨hwell, ?_⟩
  simp [parse, hus, hp', bind, Except.bind, pure, Except.pure]

theorem parse_wellFormed {source : String} {p : Program} (h : parse source = .ok p) : Stmt.AllWellFormed p := by
  obtain ⟨ts, hts, -⟩ := ok_of_bind h
  exact (parse_agrees h hts hts ⟨(tokens_tile_source hts).1.tidy, rfl⟩ (Nat.le_refl _)).1

/-- Layout that crosses no line, put right before a token or at the end, does not change the program. -/
theorem layout_keeps_program {before gap after : String} {p : Program} {ts : Tokens}
    (h : parse (before ++ after) = .ok p) (hts : tokenize (before ++ after) = .ok ts)
    (hplace : Position.start.after before.toList ∈ ts.places) (hgap : Layout gap.toList) :
    parse (before ++ gap ++ after) = .ok p := by
  obtain ⟨us, hus, halike⟩ := tokenize_alike hts hplace hgap
  exact (parse_agrees h hts hus halike (by simp [String.length_append])).2

theorem comment_before_slash : ∃ p, parse ("a" ++ "/ b\n++c") = .ok p ∧
    parse ("a" ++ " /* / */ " ++ "/ b\n++c") = .ok p := by
  have hok : (parse ("a" ++ "/ b\n++c")).isOk = true := by decide +kernel
  have hplaces : (tokenize ("a" ++ "/ b\n++c")).toOption.any
      (fun ts => ts.places.contains (Position.start.after "a".toList)) = true := by decide +kernel
  have hgap : Layout (' ' :: '/' :: '*' :: [' ', '/', ' '] ++ ['*', '/', ' ']) := .comment (by decide) (by decide)
  cases hts : tokenize ("a" ++ "/ b\n++c") with
  | error e =>
    rw [hts] at hplaces
    cases hplaces
  | ok ts =>
    rw [hts] at hplaces
    cases h : parse ("a" ++ "/ b\n++c") with
    | error e =>
      rw [h] at hok
      cases hok
    | ok p => exact ⟨p, rfl, layout_keeps_program h hts (List.contains_iff_mem.mp hplaces) hgap⟩

end Apiary
