import Apiary.Proofs.Script.Seam.Expression

/-!
The rules for statements stay on their side of a seam as well, and so do programs: what comes next is read after them.
-/

namespace Apiary

namespace Tokens

variable {ts : Tokens}

theorem declKind?_extend (h : ts.ahead ≠ []) (next : Tokens) : (ts.extend next).declKind? = ts.declKind? := by
  rw [declKind?, declKind?, head?_extend h]

theorem endsStatement_extend (h : ts.ahead ≠ []) (next : Tokens) :
    Parse.endsStatement (ts.extend next) = Parse.endsStatement ts := by
  rw [Parse.endsStatement, Parse.endsStatement, isMark_extend h, atEnd_extend h, newline_extend h]

theorem head?_of_declKind? (h : ts.declKind?.isSome = true) : ∃ n, ts.head? = some (.name n) := by
  unfold declKind? at h
  split at h
  · next n hl => exact ⟨n, hl⟩
  · cases h

/-- The name that a loop over items declares or assigns to, and the word after it. -/
theorem name_of_eachKeys? {keys : Bool} (h : Rules.eachKeys? ts = some keys) :
    ∃ us w, us = (if ts.declKind?.isSome then ts.advance else ts) ∧ us.isName = true ∧ us.advance.isWord w = true := by
  unfold Rules.eachKeys? at h
  extract_lets us at h
  split at h
  · cases h
  next hname =>
    rw [Decidable.not_not] at hname
    split at h
    · next hof => exact ⟨us, _, rfl, hname, hof⟩
    · split at h
      · next hin => exact ⟨us, _, rfl, hname, hin⟩
      · cases h

end Tokens

/-- The declarator gives a value. -/
def Declarator.hasValue : Declarator → Bool
  | .mk _ init => init.isSome

namespace Seam

open Parse Rules Lexeme

section Parts

variable {s : Seam} {α β : Type} {strict : Prop} {i j : Nat} {p q : Parse Stmt} {st : Stmt} {ts : Tokens}

namespace Stays

/-- A semicolon that is there. -/
theorem semicolon {need : Stmt → Prop} (h : ts.isMark .semicolon = true)
    (hp : ∀ us : Tokens, us.isMark .semicolon = true → p us = .ok (st, us.advance)) : s.Stays False 0 need p ts where
  reads hb := by
    rw [hp ts h] at hb
    cases hb
    obtain ⟨t, ht, hlexeme⟩ := Tokens.exists_of_head (Tokens.isMark_iff.mp h)
    refine ⟨[t], ht, fun d => ?_⟩
    rw [openGroups_cons, hlexeme]
    rfl
  ends _ hstrict := hstrict.elim
  same hb _ _ _ := by
    rw [hp ts h] at hb
    cases hb
    have hne := Tokens.ne_nil_of_head (Tokens.isMark_iff.mp h)
    rw [hp _ (by rwa [Tokens.isMark_extend hne]), Tokens.advance_extend hne]

/-- A semicolon that is taken where there is one. -/
theorem optionalSemicolon (hp : ∀ us : Tokens, p us = if us.isMark .semicolon then .ok (st, us.advance) else q us)
    (hst : .semicolon ∈ st.continuedBy) (hvalue : ∀ b us, q ts = .ok (b, us) → b = st)
    (hq : s.Stays False 0 s.Ended q ts) : s.Stays False 0 s.Ended p ts := by
  cases h : ts.isMark .semicolon with
  | true => exact semicolon h fun us hus => by rw [hp, if_pos hus]
  | false =>
    refine congr (by simp [hp, h]) (fun b us hb hlast _ hended => ?_) hq
    have hsame : (ts.extend s.next).isMark .semicolon = false := by
      by_cases hts : ts.ahead = []
      · obtain ⟨read, hread, -⟩ := hq.reads hb
        obtain rfl := hvalue b us hb
        rw [Tokens.extend_nil hts]
        rcases hended (List.append_eq_nil_iff.mp (hread.symm.trans hts)).2 with hsemicolon | hnext
        · simp [Tokens.EndsIn, hts, hsemicolon] at hlast
        · exact hnext _ hst
      · rw [Tokens.isMark_extend hts, h]
    simp [hp, hsame]

theorem eatSemicolon (hst : .semicolon ∈ st.continuedBy) :
    s.Stays False 0 s.Ended (Parse.eat .semicolon >>= fun _ => Pure.pure st) ts := by
  refine optionalSemicolon (q := Pure.pure st) (fun us => ?_) hst (fun b us hb => ?_) (pure st)
  · rw [eat_bind]
    rfl
  · cases hb
    rfl

theorem endStatement (hst : .semicolon ∈ st.continuedBy) :
    s.Stays False 0 s.Ended (Parse.semicolon >>= fun _ => Pure.pure st) ts := by
  let rest : Parse Stmt := fun us => if endsStatement us then .ok (st, us) else Parse.unexpected us
  refine optionalSemicolon (q := rest) (fun us => ?_) hst (fun b us hb => ?_) ?_
  · cases hmark : us.isMark .semicolon <;> cases hend : endsStatement us <;>
      simp [Bind.bind, Parse.semicolon, rest, hmark, hend, pure_apply, Parse.unexpected]
  · dsimp only [rest] at hb
    split at hb
    · cases hb
      rfl
    · cases hb
  · cases h : endsStatement ts with
    | false => exact of_refuses fun r hr => by simp [rest, h, Parse.unexpected] at hr
    | true =>
      refine congr (q := Pure.pure st) (by simp [rest, h, pure_apply]) (fun _ _ _ _ _ _ => ?_) (pure st)
      have hsame : endsStatement (ts.extend s.next) = true := by
        by_cases hts : ts.ahead = []
        · rw [Tokens.extend_nil hts, endsStatement, s.newline, Bool.or_true]
        · rw [Tokens.endsStatement_extend hts, h]
      simp [rest, hsame, pure_apply]

/-- A statement that ends where a semicolon stands or could stand. -/
theorem ended {p : Parse α} {need : α → Prop} {mk : α → Stmt} (hp : s.Stays True 0 need p ts)
    (hmk : ∀ a, .semicolon ∈ (mk a).continuedBy)
    (hneed : ∀ a, (∀ m ∈ (mk a).continuedBy, s.next.isMark m = false) → need a) :
    s.Stays False 0 s.Ended (p >>= fun a => Parse.semicolon >>= fun _ => Pure.pure (mk a)) ts := by
  refine hp.bind (fun a us _ => endStatement (hmk a)) fun a us b vs _ hb hnil hended hlast => ?_
  obtain ⟨_, ws, -, hb⟩ := bind_eq_ok.mp hb
  cases hb
  rcases hended with hsemicolon | hnext
  · simp [Tokens.EndsIn, hnil, hsemicolon] at hlast
  · exact hneed a hnext

theorem expectSemicolon {f : Unit → Parse β} {need : β → Prop}
    (hf : ts.advance.ahead ≠ [] → s.Stays strict i need (f ()) ts.advance)
    (hend : ts.advance.ahead = [] → Refuses (f ()) ts.advance) :
    s.Stays strict i need (Parse.expect .semicolon >>= f) ts := by
  cases h : ts.isMark .semicolon with
  | false =>
    refine of_refuses (Refuses.bind (fun r hr => ?_) f)
    simp [Parse.expect, h, Parse.unexpected] at hr
  | true =>
    have hl := Tokens.isMark_iff.mp h
    by_cases hnil : ts.advance.ahead = []
    · exact of_refuses fun r hr => hend hnil r (by rwa [expect_bind h] at hr)
    · obtain ⟨t, ht, -⟩ := Tokens.exists_of_head hl
      have hread : ts.ahead = [t] ++ ts.advance.ahead := ht
      refine step hl (shift_mark (by decide) i) (·.suffix hread hnil) (expect_bind h f) (expect_bind ?_ f) (hf hnil)
      rwa [Tokens.isMark_extend (Tokens.ne_nil_of_head hl)]

/-- A statement that ends as its last part does. -/
theorem asLast {mk : Stmt → Stmt} (hp : s.Stays False 0 s.Ended p ts)
    (hmk : ∀ st, (mk st).continuedBy = st.continuedBy) :
    s.Stays False 0 s.Ended (p >>= fun st => Pure.pure (mk st)) ts := by
  refine hp.andLast (fun st us _ _ => pure _) fun st us b vs _ hnil hb => ?_
  cases hb
  exact ⟨hnil, id, fun hended => by rwa [Ended, hmk] at hended, rfl⟩

end Stays

end Parts

namespace StaysAll

variable {s : Seam} {r : Rules} (h : s.StaysAll r) (ts : Tokens)

include h

theorem declarator :
    s.Stays True 0 (fun d : Declarator => d.hasValue = true → s.Quiet) r.declarator ts := by
  refine Stays.identifier.andAny fun name us _ => .eat (by decide) (shift_mark (by decide) 0) ?_ (.pure _)
  refine (h.assignmentRule _).bind (fun _ _ _ => .pure _) fun e us d vs _ hd _ hneed _ => ?_
  cases hd
  exact hneed rfl

theorem declarators (n : Nat) :
    s.Stays True 0 (fun ds : List Declarator => ds.getLast?.any Declarator.hasValue = true → s.Quiet)
      (r.declarators n) ts := by
  induction n generalizing ts with
  | zero => exact .fail _
  | succ n ih =>
    refine (h.declarator ts).bind (fun d us _ => .eat (by decide) (shift_mark (by decide) 0) ?_ (.pure _)) ?_
    · refine (ih _).bind (fun _ _ _ => .pure _) fun ds us ds' vs _ hds _ hneed _ hvalue => ?_
      cases hds
      cases ds with
      | nil => cases hvalue
      | cons => exact hneed (by rwa [List.getLast?_cons_cons])
    · intro d us ds vs _ hds hnil hneed _ hvalue
      rw [eat_bind, if_neg (by simp [Tokens.isMark_of_end hnil])] at hds
      cases hds
      exact hneed hvalue

theorem condition : s.StaysShut r.condition ts :=
  .expect (shift_open 0) (by decide) ((h.expressionRule _).before (shift_close 0) (by decide) fun _ _ => .pure _)

theorem ifStatement : s.Stays False 0 s.Ended r.ifStatement ts := by
  refine (h.condition ts).stays.andAny fun test us _ => (h.statement us).andLast (fun yes us _ hne => ?_) ?_
  · refine .eatWord (fun hnil => absurd hnil hne) ?_ (.pure _)
    exact (h.statement _).asLast fun _ => rfl
  · intro yes us st vs _ hnil hst
    rw [eatWord_bind, if_neg (by simp [Tokens.isWord_of_end hnil])] at hst
    cases hst
    refine ⟨hnil, id, id, ?_⟩
    rw [eatWord_bind, if_neg (by simp [s.isWord (w := "else") (by decide)])]
    rfl

theorem doStatement : s.Stays False 0 s.Ended r.doStatement ts := by
  refine (h.statement ts).andLast (fun body us _ _ => .expectWord ?_) fun body us st vs _ hnil hst => ?_
  · exact (h.condition _).stays.andAny fun test us _ => .eatSemicolon (by simp [Stmt.continuedBy])
  · have hwhile : Refuses (Parse.expectWord "while") us := fun r hr => by
      simp [Parse.expectWord, Tokens.isWord_of_end hnil, Parse.unexpected] at hr
    exact absurd hst (hwhile.bind _ _)

theorem forStart : s.StaysOpen r.forStart ts := by
  have hend (hnil : ts.ahead = []) : Refuses r.expressionRule ts := (Tokens.Stuck.of_end hnil).expressionRule r
  have hkind (hnil : ts.ahead = []) : ts.declKind? = none := by simp [Tokens.declKind?, Tokens.head?_of_end hnil]
  refine .ifMark_of (fun hnil start us hstart _ => ?_) (.pure _) ?_
  · rw [look_bind, hkind hnil] at hstart
    exact absurd hstart ((hend hnil).bind _ _)
  refine .look (fun hne _ _ => Tokens.declKind?_extend hne _) (fun hnil start us hstart _ => ?_) ?_
  · rw [hkind hnil] at hstart
    exact absurd hstart ((hend hnil).bind _ _)
  split
  · next kind hkind =>
    obtain ⟨n, hl⟩ := Tokens.head?_of_declKind? (Option.isSome_of_eq_some hkind)
    refine .plain ⟨_, hl, plain_other (by simp)⟩ ?_
    exact (h.declarators _ _).bind (fun _ _ _ => .pure _) fun _ _ _ _ _ _ _ hquiet _ _ => hquiet
  · exact (h.expressionRule ts).andThen fun _ _ _ => .pure _

omit h in
theorem expressionBefore_end {ts : Tokens} (hnil : ts.ahead = []) (r : Rules) (m : Mark) :
    Refuses (r.expressionBefore m) ts :=
  Refuses.of_eq (((Tokens.Stuck.of_end hnil).expressionRule r).bind _) (if_look_neg (Tokens.isMark_of_end hnil m) _ _)

theorem expressionBefore (m : Mark) : s.StaysOpen (r.expressionBefore m) ts :=
  .ifMark_of (fun hnil _ _ he _ => absurd he (((Tokens.Stuck.of_end hnil).expressionRule r).bind _ _)) (.pure _)
    ((h.expressionRule ts).andThen fun _ _ _ => .pure _)

omit h in
theorem advance_of_identifier {n : String} {us : Tokens} (hn : Parse.identifier ts = .ok (n, us)) : us = ts.advance := by
  unfold Parse.identifier at hn
  split at hn
  · split at hn
    · cases hn
    · cases hn
      rfl
  · cases hn

omit h in
theorem eachKeys?_extend (hne : ts.ahead ≠ []) (hkind : ts.declKind?.isSome = true → ts.advance.ahead ≠ []) :
    eachKeys? (ts.extend s.next) = eachKeys? ts := by
  obtain ⟨name, hname, hnext, hnil⟩ : ∃ name, name = (if ts.declKind?.isSome then ts.advance else ts) ∧
      (if (ts.extend s.next).declKind?.isSome then (ts.extend s.next).advance else ts.extend s.next) =
        name.extend s.next ∧ name.ahead ≠ [] := by
    refine ⟨_, rfl, ?_⟩
    rw [Tokens.declKind?_extend hne, Tokens.advance_extend hne]
    split
    · next hsome => exact ⟨rfl, hkind hsome⟩
    · exact ⟨rfl, hne⟩
  have hword {w : String} (hw : (Lexeme.name w).starts = false) :
      (name.extend s.next).advance.isWord w = name.advance.isWord w := by
    rw [Tokens.advance_extend hnil]
    by_cases hend : name.advance.ahead = []
    · rw [Tokens.extend_nil hend, Tokens.isWord_of_end hend, s.isWord hw]
    · exact Tokens.isWord_extend hend _ w
  simp only [eachKeys?, hnext, ← hname, Tokens.isName_extend hnil, hword (w := "of") (by decide),
    hword (w := "in") (by decide)]

theorem forEach {keys : Bool} (keys' : Bool) (hkeys : eachKeys? ts = some keys) :
    s.Stays False 1 s.Ended (r.forEach keys') ts := by
  obtain ⟨name, w, hname, hisName, hword⟩ := Tokens.name_of_eachKeys? hkeys
  unfold Rules.forEach
  have hne : ts.ahead ≠ [] := by
    intro hnil
    simp [hname, Tokens.declKind?, Tokens.isName, Tokens.head?_of_end hnil] at hisName
  refine .look (fun hne _ _ => Tokens.declKind?_extend hne _) (fun hnil => absurd hnil hne) ?_
  extract_lets rest
  have hrest : s.Stays False 1 s.Ended (rest ()) name := by
    refine Stays.identifier.andAny fun n us hn => ?_
    rw [advance_of_identifier name hn]
    refine .plain ⟨_, Tokens.isWord_iff.mp hword, plain_other (by simp)⟩ ?_
    refine (h.assignment _).before (shift_close 0) (by decide) fun source us => ?_
    exact (h.statement us).asLast fun _ => rfl
  split
  · next hkind =>
    obtain ⟨n, hl⟩ := Tokens.head?_of_declKind? hkind
    rw [if_pos hkind] at hname
    exact .plain ⟨_, hl, plain_other (by simp)⟩ (hname ▸ hrest)
  · next hkind =>
    rw [if_neg hkind] at hname
    exact hname ▸ hrest

omit h in
/-- A loop does not start with nothing, or with a keyword alone. -/
theorem forStart_bare (r : Rules) {us : Tokens}
    (hbare : us.ahead = [] ∨ (us.declKind?.isSome = true ∧ us.advance.ahead = [])) :
    eachKeys? us = none ∧ Refuses r.forStart us := by
  have hname {vs : Tokens} (hnil : vs.ahead = []) : vs.isName = false := by
    simp [Tokens.isName, Tokens.head?_of_end hnil]
  rcases hbare with hnil | ⟨hkind, hnil⟩
  · have hkind : us.declKind? = none := by simp [Tokens.declKind?, Tokens.head?_of_end hnil]
    refine ⟨by simp [eachKeys?, hkind, hname hnil], Refuses.of_eq ?_ (if_look_neg (Tokens.isMark_of_end hnil _) _ _)⟩
    refine Refuses.of_eq ?_ (look_bind Tokens.declKind? _ us)
    rw [hkind]
    exact ((Tokens.Stuck.of_end hnil).expressionRule r).bind _
  · obtain ⟨n, hl⟩ := Tokens.head?_of_declKind? hkind
    obtain ⟨kind, hkind'⟩ := Option.isSome_iff_exists.mp hkind
    have hmark : us.isMark .semicolon = false := by simp [Tokens.isMark, hl]
    refine ⟨by simp [eachKeys?, hkind, hname hnil], Refuses.of_eq ?_ (if_look_neg hmark _ _)⟩
    refine Refuses.of_eq ?_ (look_bind Tokens.declKind? _ us)
    rw [hkind']
    have hdeclarators (n : Nat) : Refuses (r.declarators n) us.advance := by
      cases n with
      | zero => exact fun a ha => by cases ha
      | succ n => exact ((Tokens.Stuck.of_end hnil).identifier.bind _).bind _
    exact fun a ha => (hdeclarators _).bind _ a ha

theorem forStatement : s.Stays False 0 s.Ended r.forStatement ts := by
  refine .expect (shift_open 0) (by decide) ?_
  generalize ts.advance = us
  by_cases hbare : us.ahead = [] ∨ (us.declKind?.isSome = true ∧ us.advance.ahead = [])
  · obtain ⟨hkeys, hstart⟩ := forStart_bare r hbare
    refine .of_refuses (Refuses.of_eq ?_ (look_bind eachKeys? _ us))
    rw [hkeys]
    exact hstart.bind _
  obtain ⟨hne, hlone⟩ := not_or.mp hbare
  refine .look (fun hne _ _ => eachKeys?_extend us hne fun hkind hnil => hlone ⟨hkind, hnil⟩) (fun hnil => absurd hnil hne) ?_
  split
  · next keys hkeys => exact h.forEach us keys hkeys
  · refine (h.forStart us).andStop (fun start us _ => .expectSemicolon (fun _ => ?_) fun hnil => ?_)
      fun _ _ hnil => refuses_expect hnil _ _
    · refine (h.expressionBefore _ _).andStop (fun test us _ => .expectSemicolon (fun _ => ?_) fun hnil => ?_)
        fun _ _ hnil => refuses_expect hnil _ _
      · refine (h.expressionBefore _ _).before (shift_close 0) (by decide) fun update us => ?_
        exact (h.statement us).asLast fun _ => rfl
      · exact (expressionBefore_end hnil r _).bind _
    · exact (expressionBefore_end hnil r _).bind _

theorem caseBody : s.StaysShut r.caseBody ts := by
  refine .expect (shift_mark (by decide) 0) (by decide) (.listUntil (fun us hnil => ?_) (fun us hne => ?_) h.statement _)
  · simp [startsCase, Tokens.isMark_of_end hnil, Tokens.isWord_of_end hnil]
  · rw [startsCase, startsCase, Tokens.isMark_extend hne, Tokens.isWord_extend hne, Tokens.isWord_extend hne]

theorem cases (n : Nat) (seenDefault : Bool) : s.StaysShut (r.cases n seenDefault) ts := by
  induction n generalizing seenDefault ts with
  | zero => exact .fail _
  | succ n ih =>
    refine .eat (by decide) (shift_mark (by decide) 0) (.pure _) (.eatWord (fun _ => s.isWord (by decide)) ?_ ?_)
    · refine (h.expressionRule _).andStop (fun test us _ => (h.caseBody us).andAny fun body us _ => ?_)
        fun _ _ hnil => (refuses_expect hnil _ _).bind _
      exact (ih us _).andAny fun _ _ _ => .pure _
    · rw [if_neg Bool.false_ne_true]
      split
      · exact .unexpected
      · exact .expectWord ((h.caseBody _).andAny fun body us _ => (ih us _).andAny fun _ _ _ => .pure _)

theorem switchStatement : s.StaysShut r.switchStatement ts :=
  (h.condition ts).andAny fun _ _ _ => .expect (shift_mark (by decide) 0) (by decide)
    ((h.cases _ _ _).andAny fun _ _ _ => .pure _)

theorem handler : s.StaysShut r.handler ts := by
  refine .eat_of (shift_open 0) (by decide) (fun hnil _ _ hf _ => absurd hf ((block_end hnil r).bind _ _)) ?_ ?_
  · refine Stays.identifier.before (shift_close 0) (by decide) fun name us => ?_
    exact (h.block us).andAny fun _ _ _ => .pure _
  · exact (h.block ts).andAny fun _ _ _ => .pure _

theorem tryStatement : s.StaysShut r.tryStatement ts := by
  refine (h.block ts).andAny fun body us _ => ?_
  extract_lets rest
  have hrest (handler : Option Handler) (us : Tokens) : s.StaysShut (rest handler) us := by
    have hmade (last : Option (List Stmt)) (us : Tokens) : s.StaysShut
        (if handler.isNone && last.isNone then Parse.unexpected else Pure.pure (Stmt.try body handler last)) us := by
      split
      · exact .unexpected
      · exact .pure _
    refine .eatWord (fun _ => s.isWord (by decide)) ?_ (hmade none us)
    exact (h.block _).map.andAny fun last us _ => hmade last us
  refine .eatWord (fun _ => s.isWord (by decide)) ?_ (hrest none us)
  exact (h.handler _).map.andAny fun handler us _ => hrest handler us

theorem returnStatement : s.Stays False 0 s.Ended r.returnStatement ts := by
  refine .look (fun hne _ _ => ?_) (fun hnil _ _ _ _ => ?_) ?_
  · rw [Tokens.isMark_extend hne, Tokens.endsStatement_extend hne]
  · simp [endsStatement, s.newline, Tokens.atEnd, hnil]
  · split
    · exact .endStatement (by simp [Stmt.continuedBy])
    · exact (h.expressionRule ts).ended (fun _ => by simp [Stmt.continuedBy])
        fun e hnext m hm => hnext m (List.mem_cons_of_mem _ hm)

theorem declaration (kind : DeclKind) : s.Stays False 0 s.Ended (r.declaration kind) ts := by
  have hvalue (ds : List Declarator) : (Stmt.declare kind ds).continuedBy =
      .semicolon :: if ds.getLast?.any Declarator.hasValue then Mark.continuing else [] := by
    unfold Stmt.continuedBy
    rcases ds.getLast? with _ | ⟨_, _ | _⟩ <;> rfl
  refine (h.declarators ts _).ended (fun ds => by rw [hvalue]; exact List.mem_cons_self) fun ds hnext hlast m hm => ?_
  refine hnext m ?_
  rw [hvalue, if_pos hlast]
  exact List.mem_cons_of_mem _ hm

theorem wordRule {word : String} {rule : Parse Stmt} (hrule : r.wordRule? word = some rule) :
    s.Stays False 0 s.Ended rule ts := by
  unfold Rules.wordRule? at hrule
  split at hrule
  all_goals cases hrule
  · exact h.declaration ts _
  · exact h.declaration ts _
  · exact h.declaration ts _
  · exact h.ifStatement ts
  · exact (h.condition ts).stays.andAny fun _ us _ => (h.statement us).asLast fun _ => rfl
  · exact h.doStatement ts
  · exact h.forStatement ts
  · exact .endStatement (by simp [Stmt.continuedBy])
  · exact .endStatement (by simp [Stmt.continuedBy])
  · exact (h.functionRest ts true).stays.map
  · exact h.returnStatement ts
  · exact (h.expressionRule ts).ended (fun _ => by simp [Stmt.continuedBy])
      fun e hnext m hm => hnext m (List.mem_cons_of_mem _ hm)
  · exact (h.tryStatement ts).stays
  · exact (h.switchStatement ts).stays

theorem expressionStatement : s.Stays False 0 s.Ended r.expressionStatement ts :=
  (h.expressionRule ts).ended (fun _ => by simp [Stmt.continuedBy])
    fun e hnext m hm => hnext m (List.mem_cons_of_mem _ hm)

theorem statementRule : s.Stays False 0 s.Ended r.statementRule ts := by
  by_cases hne : ts.ahead = []
  · exact .of_refuses ((Tokens.Stuck.of_end hne).statementRule r)
  refine .head hne ?_
  split
  · next hl => exact .semicolon (Tokens.isMark_iff.mpr hl) fun us _ => rfl
  · exact (h.block ts).stays.map
  · next word hl =>
    have hplain : ∃ l, ts.head? = some l ∧ l.Plain := ⟨_, hl, plain_other (by simp)⟩
    cases hrule : r.wordRule? word with
    | some rule => exact .plain hplain (h.wordRule _ hrule)
    | none =>
      refine .look (fun hne hlast _ => asyncFunctionAhead_extend hne hlast) (fun hnil => absurd hnil hne) ?_
      split
      · next hasync =>
        rw [Tokens.asyncFunctionAhead, Bool.and_eq_true] at hasync
        refine .plain hplain (.plain ⟨_, Tokens.isWord_iff.mp hasync.2, plain_other (by simp)⟩ ?_)
        exact (h.functionRest _ true).stays.map
      · exact h.expressionStatement ts
  · exact h.expressionStatement ts

end StaysAll

theorem staysAll_level (s : Seam) (n : Nat) : s.StaysAll (level n) := by
  induction n with
  | zero =>
    have hfail {α : Type} {ts : Tokens} : Refuses (Parse.fail .tooLong : Parse α) ts := fun r hr => by cases hr
    exact ⟨fun _ => .of_refuses hfail, fun _ => .of_refuses hfail, fun _ _ => .of_refuses hfail, fun _ => .of_refuses hfail,
      fun _ => .of_refuses hfail, fun _ => hfail⟩
  | succ n ih =>
    exact ⟨ih.expressionRule, ih.assignmentRule, fun least ts => ih.binaryRule ts least, ih.unaryRule, ih.statementRule,
      fun hnil => (Tokens.Stuck.of_end hnil).assignmentRule _⟩

end Seam

end Apiary
