import Apiary.Proofs.Script.Phrase

/-!
Each form of an expression, told by the phrases it is made of.
-/

namespace Apiary

open Rules Parse

variable {e callee target test yes no left right value : Expr} {ls ms ks : List Lexeme}

theorem succ_of_lt {m n : Nat} (h : m < n) : ∃ k, n = k + 1 := ⟨n - 1, by omega⟩

def UnaryOp.lexeme : UnaryOp → Lexeme
  | .not => .mark .bang
  | .neg => .mark .minus
  | .plus => .mark .plus
  | .bitNot => .mark .tilde
  | .typeof => .name "typeof"
  | .void => .name "void"

def parenthesised (ls : List Lexeme) : List Lexeme := .mark .parenOpen :: ls ++ [.mark .parenClose]

/-- What a mark that closes something leaves of the tokens. -/
theorem expect_close {α : Type} {m : Mark} {ts us : Tokens} (h : ts.Reads [.mark m] us) (f : Unit → Parse α) :
    (do f (← expect m)) ts = f () us := by
  rw [expect_bind (Tokens.isMark_iff.mpr h.head?), h.advance.nil]

theorem ends_of_reads {m : Mark} {rank : Nat} {ts us : Tokens} (h : ts.Reads (.mark m :: ls) us)
    (hm : rank ≤ m.rank) : ts.Ends rank := Tokens.Ends.of_head h.head? hm

namespace Operand

theorem number (x : Double) : Operand (.number x) [.number x] := by
  refine ⟨⟨_, rfl, rfl⟩, fun {n ts us} hr _ => ?_⟩
  rw [Rules.primary, look_bind, hr.head?, ← hr.advance.nil]
  rfl

theorem string (s : String) : Operand (.string s) [.string s] := by
  refine ⟨⟨_, rfl, rfl⟩, fun {n ts us} hr _ => ?_⟩
  rw [Rules.primary, look_bind, hr.head?, ← hr.advance.nil]
  rfl

theorem of_word {w : String} (hopen : (Lexeme.name w).opensOperand = true)
    (h : ∀ (r : Rules) {ts us : Tokens}, ts.Reads [.name w] us → r.primaryName w ts = .ok (e, us)) :
    Operand e [.name w] := by
  refine ⟨⟨_, rfl, hopen⟩, fun {n ts us} hr _ => ?_⟩
  rw [Rules.primary, look_bind, hr.head?]
  exact h (level n) hr

theorem bool (b : Bool) : Operand (.bool b) [.name (if b then "true" else "false")] := by
  cases b with
  | true => exact of_word (by decide) fun r {ts us} hr => by rw [← hr.advance.nil]; rfl
  | false => exact of_word (by decide) fun r {ts us} hr => by rw [← hr.advance.nil]; rfl

theorem null : Operand .null [.name "null"] :=
  of_word (by decide) fun r {ts us} hr => by rw [← hr.advance.nil]; rfl

theorem undefined : Operand .undefined [.name "undefined"] :=
  of_word (by decide) fun r {ts us} hr => by rw [← hr.advance.nil]; rfl

theorem name {w : String} (hfree : isReserved w = false) (hword : w ∉ ["async", "await", "undefined"]) :
    Operand (.name w) [.name w] := by
  have hreserved : ∀ v ∈ reservedWords, w ≠ v := by
    rintro v hv rfl
    simp [isReserved, hv] at hfree
  simp only [List.mem_cons, not_or] at hword
  have hopen : (Lexeme.name w).opensOperand = true := by
    simp [Lexeme.opensOperand, hword, hreserved "new" (by decide), hreserved "typeof" (by decide),
      hreserved "void" (by decide)]
  refine of_word hopen fun r {ts us} hr => ?_
  have hasync : ts.asyncFunctionAhead = false := by
    simp [Tokens.asyncFunctionAhead, Tokens.isWord_of_head hr.head? (w := "async") (by simp [hword])]
  have hid : identifier ts = .ok (w, us) := by simp [identifier, hr.head?, hfree, hr.advance.nil]
  rw [Rules.primaryName, if_neg (hreserved "true" (by decide)), if_neg (hreserved "false" (by decide)),
    if_neg (hreserved "null" (by decide)), if_neg hword.2.2.1, if_neg (hreserved "function" (by decide)),
    if_look_neg hasync]
  exact bind_of_ok hid

theorem paren (h : Phrase Rules.expressionRule 6 e ls) : Operand e (parenthesised ls) := by
  refine ⟨⟨_, rfl, rfl⟩, fun {n ts us} hr hn => ?_⟩
  simp only [parenthesised, List.length_append, List.length_cons, List.length_nil] at hn
  obtain ⟨n, rfl⟩ := succ_of_lt hn
  obtain ⟨vs, hinner, hclose⟩ := hr.advance.append
  rw [Rules.primary, look_bind, hr.head?]
  dsimp only
  rw [advance_bind, level_expression,
    bind_of_ok (h.reads hinner (by omega) (ends_of_reads hclose (by decide)))]
  exact expect_close hclose _

theorem array {items : List Expr} {lss : List (List Lexeme)}
    (h : List.Forall₂ (Phrase Rules.assignmentRule 5) items lss) :
    Operand (.array items) (.mark .bracketOpen :: commaJoined lss ++ [.mark .bracketClose]) := by
  refine ⟨⟨_, rfl, rfl⟩, fun {n ts us} hr hn => ?_⟩
  simp only [List.length_append, List.length_cons, List.length_nil] at hn
  obtain ⟨vs, hitems, hclose⟩ := hr.advance.append
  have hread := assignments_read (n := n) (.inr (.inl rfl)) h (by omega) hitems (Tokens.isMark_iff.mpr hclose.head?)
  rw [Rules.primary, look_bind, hr.head?]
  dsimp only
  rw [advance_bind, bind_of_ok hread]
  exact expect_close hclose _

end Operand

/-- A field with its key as a string. -/
inductive FieldPhrase : Field → List Lexeme → Prop
  | named (key : String) {value : Expr} {ls : List Lexeme} : Phrase Rules.assignmentRule 5 value ls →
    FieldPhrase (.named key value) (.string key :: .mark .colon :: ls)

theorem FieldPhrase.item {f : Field} (h : FieldPhrase f ls) {n : Nat} (hn : ls.length ≤ n + 1) :
    Item (level (n + 1)).field f ls := by
  cases h with
  | named key h =>
    simp only [List.length_cons] at hn
    refine ⟨⟨_, rfl, rfl⟩, fun {ts us} hr hend => ?_⟩
    have hcolon := hr.advance
    have hkey : (level (n + 1)).fieldKey ts = .ok (.inl key, ts.advance) := by
      rw [fieldKey, look_bind, hr.head?]
      rfl
    rw [Rules.field, bind_of_ok hkey, if_eat_pos (Tokens.isMark_iff.mpr hcolon.head?), level_assignment,
      bind_of_ok (h.reads hcolon.advance (by omega) hend)]
    rfl

theorem Operand.object {fields : List Field} {lss : List (List Lexeme)} (h : List.Forall₂ FieldPhrase fields lss) :
    Operand (.object fields) (.mark .braceOpen :: commaJoined lss ++ [.mark .braceClose]) := by
  refine ⟨⟨_, rfl, rfl⟩, fun {n ts us} hr hn => ?_⟩
  simp only [List.length_append, List.length_cons, List.length_nil] at hn
  obtain ⟨n, rfl⟩ := succ_of_lt hn
  obtain ⟨vs, hfields, hclose⟩ := hr.advance.append
  obtain ⟨hcount, hlength⟩ := length_commaJoined lss
  have hitems : List.Forall₂ (Item (level (n + 1)).field) fields lss := by
    rw [List.forall₂_iff_get] at h ⊢
    refine ⟨h.1, fun i hi hj => (h.2 i hi hj).item ?_⟩
    have := hlength _ (List.get_mem lss ⟨i, hj⟩)
    omega
  rw [Rules.primary, look_bind, hr.head?]
  dsimp only
  rw [advance_bind, level_fuel, bind_of_ok (commaList_reads (.inr (.inr rfl)) hitems (by omega) hfields
    (Tokens.isMark_iff.mpr hclose.head?))]
  exact expect_close hclose _

theorem arguments_read {args : List Expr} {lss : List (List Lexeme)}
    (h : List.Forall₂ (Phrase Rules.assignmentRule 5) args lss) {n : Nat} {ts us : Tokens}
    (hr : ts.Reads (parenthesised (commaJoined lss)) us) (hn : (commaJoined lss).length + 1 < n) :
    (level n).arguments ts = .ok (args, us) := by
  obtain ⟨vs, hargs, hclose⟩ := hr.advance.append
  rw [Rules.arguments, expect_bind (Tokens.isMark_iff.mpr hr.head?),
    bind_of_ok (assignments_read (.inl rfl) h hn hargs (Tokens.isMark_iff.mpr hclose.head?))]
  exact expect_close hclose _

namespace Phrase

theorem index (h : Operand left ls) (hi : Phrase Rules.expressionRule 6 right ms) :
    Phrase Rules.unaryRule 2 (.index left right) (ls ++ (.mark .bracketOpen :: ms ++ [.mark .bracketClose])) := by
  refine access h fun {n vs us} hr hn hend => ?_
  simp only [List.length_append, List.length_cons, List.length_nil] at hn
  obtain ⟨n, rfl⟩ := succ_of_lt hn
  obtain ⟨ws, hindex, hclose⟩ := hr.advance.append
  have hhead := hr.head?
  rw [Rules.accesses, if_eat_neg (by simp [Tokens.isMark, hhead]), if_eat_neg (by simp [Tokens.isMark, hhead]),
    if_eat_pos (Tokens.isMark_iff.mpr hhead), level_expression,
    bind_of_ok (hi.reads hindex (by omega) (ends_of_reads hclose (by decide)))]
  rw [expect_bind (Tokens.isMark_iff.mpr hclose.head?), hclose.advance.nil]
  exact accesses_done (hend.mono (by decide)) _

theorem call (h : Operand callee ls) {args : List Expr} {lss : List (List Lexeme)}
    (hargs : List.Forall₂ (Phrase Rules.assignmentRule 5) args lss) :
    Phrase Rules.unaryRule 2 (.call callee args) (ls ++ parenthesised (commaJoined lss)) := by
  refine access h fun {n vs us} hr hn hend => ?_
  simp only [parenthesised, List.length_append, List.length_cons, List.length_nil] at hn
  obtain ⟨n, rfl⟩ := succ_of_lt hn
  have hhead := hr.head?
  rw [Rules.accesses, if_eat_neg (by simp [Tokens.isMark, hhead]), if_eat_neg (by simp [Tokens.isMark, hhead]),
    if_eat_neg (by simp [Tokens.isMark, hhead]), if_look_pos (Tokens.isMark_iff.mpr hhead),
    bind_of_ok (arguments_read hargs hr (by omega))]
  exact accesses_done (hend.mono (by decide)) _

theorem update_after (increment : Bool) (h : Operand target ls) (hplace : target.isPlace = true) :
    Phrase Rules.unaryRule 2 (.update increment false target)
      (ls ++ [.mark (if increment then .increment else .decrement)]) := by
  refine ⟨opens_append h.opens _, fun {n ts us} hr hn hend => ?_⟩
  simp only [List.length_append, List.length_cons, List.length_nil] at hn
  obtain ⟨n, rfl⟩ := succ_of_lt hn
  obtain ⟨vs, hfirst, hsign⟩ := hr.append
  have hhead := hsign.head?
  have hend : vs.Ends 1 := ends_of_reads hsign (by cases increment <;> decide)
  have hupdate : (if vs.newline then none else vs.update?) = some increment := by
    rw [hsign.calm.newline hhead]
    simp only [Tokens.update?, hhead]
    cases increment <;> rfl
  rw [h.unaryRule_eq hr, Rules.postfixed, level_fuel, bind_of_ok (h.newOrPrimary hfirst (by omega)),
    bind_of_ok (accesses_done hend _), look_bind, hupdate]
  dsimp only
  rw [if_pos hplace, advance_bind, hsign.advance.nil, pure_apply]

theorem unary (op : UnaryOp) (h : Phrase Rules.unaryRule 2 e ls) :
    Phrase Rules.unaryRule 2 (.unary op e) (op.lexeme :: ls) := by
  refine ⟨⟨_, rfl, by cases op <;> rfl⟩, fun {n ts us} hr hn hend => ?_⟩
  simp only [List.length_cons] at hn
  obtain ⟨n, rfl⟩ := succ_of_lt hn
  have hop : ts.unaryOp? = some op := by
    simp only [Tokens.unaryOp?, hr.head?]
    cases op <;> rfl
  rw [Rules.unaryRule, look_bind, hop]
  dsimp only
  rw [advance_bind, level_unary, bind_of_ok (h.reads hr.advance (by omega) hend)]
  rfl

theorem await (h : Phrase Rules.unaryRule 2 e ls) : Phrase Rules.unaryRule 2 (.await e) (.name "await" :: ls) := by
  refine ⟨⟨_, rfl, rfl⟩, fun {n ts us} hr hn hend => ?_⟩
  simp only [List.length_cons] at hn
  obtain ⟨n, rfl⟩ := succ_of_lt hn
  have hop : ts.unaryOp? = none := by simp [Tokens.unaryOp?, hr.head?]
  have hword : ts.isWord "await" = true := by simp [Tokens.isWord, hr.head?]
  rw [Rules.unaryRule, look_bind, hop]
  dsimp only
  rw [if_eatWord_pos hword, level_unary, bind_of_ok (h.reads hr.advance (by omega) hend)]
  rfl

theorem update_before (increment : Bool) (h : Phrase Rules.unaryRule 2 target ls)
    (hplace : target.isPlace = true) :
    Phrase Rules.unaryRule 2 (.update increment true target)
      (.mark (if increment then .increment else .decrement) :: ls) := by
  refine ⟨⟨_, rfl, by cases increment <;> rfl⟩, fun {n ts us} hr hn hend => ?_⟩
  simp only [List.length_cons] at hn
  obtain ⟨n, rfl⟩ := succ_of_lt hn
  have hop : ts.unaryOp? = none := by
    simp only [Tokens.unaryOp?, hr.head?]
    cases increment <;> rfl
  have hword : ts.isWord "await" = false := Tokens.isWord_of_head hr.head? (by simp)
  have hupdate : ts.update? = some increment := by
    simp only [Tokens.update?, hr.head?]
    cases increment <;> rfl
  rw [Rules.unaryRule, look_bind, hop]
  dsimp only
  rw [if_eatWord_neg hword, look_bind, hupdate]
  dsimp only
  rw [advance_bind, level_unary, bind_of_ok (h.reads hr.advance (by omega) hend), if_pos hplace, pure_apply]

theorem new (h : Operand callee ls) {args : List Expr} {lss : List (List Lexeme)}
    (hargs : List.Forall₂ (Phrase Rules.assignmentRule 5) args lss) :
    Phrase Rules.unaryRule 2 (.new callee args) (.name "new" :: ls ++ parenthesised (commaJoined lss)) := by
  refine ⟨⟨_, rfl, rfl⟩, fun {n ts us} hr hn hend => ?_⟩
  simp only [parenthesised, List.length_append, List.length_cons, List.length_nil] at hn
  obtain ⟨n, rfl⟩ := succ_of_lt hn
  have hhead : ts.head? = some (.name "new") := hr.head?
  have hop : ts.unaryOp? = none := by simp [Tokens.unaryOp?, hhead]
  have hawait : ts.isWord "await" = false := by simp [Tokens.isWord, hhead]
  have hupdate : ts.update? = none := by simp [Tokens.update?, hhead]
  have hnew : ts.isWord "new" = true := by simp [Tokens.isWord, hhead]
  obtain ⟨vs, hcallee, hgroup⟩ := (hr.advance : ts.advance.Reads (ls ++ _) us).append
  have hdot : vs.isMark .dot = false := by simp [Tokens.isMark, hgroup.head?]
  have honly : memberOnly (n + 1) callee vs = .ok (callee, vs) := by
    rw [memberOnly, if_eat_neg hdot, pure_apply]
  have hread : (level (n + 1)).newOrPrimary ts = .ok (.new callee args, us) := by
    rw [Rules.newOrPrimary, if_eatWord_pos hnew, bind_of_ok (h.reads hcallee (by omega)), level_fuel,
      bind_of_ok honly, if_look_pos (Tokens.isMark_iff.mpr hgroup.head?),
      bind_of_ok (arguments_read hargs hgroup (by omega)), pure_apply]
  have hupdate' : (if us.newline then none else us.update?) = none := by simp [hend.update?]
  rw [Rules.unaryRule, look_bind, hop]
  dsimp only
  rw [if_eatWord_neg hawait, look_bind, hupdate]
  dsimp only
  rw [Rules.postfixed, level_fuel, bind_of_ok hread, bind_of_ok (accesses_done (hend.mono (by decide)) _), look_bind,
    hupdate']
  rfl

theorem operation {m : Mark} {precedence : Nat} {op : Operator} (hm : m.operator? = some (precedence, op))
    (hl : Phrase Rules.unaryRule 2 left ls) (hr : Phrase Rules.unaryRule 2 right ms) :
    Phrase (·.binaryRule 1) 3 (op.apply left right) (ls ++ .mark m :: ms) := by
  obtain ⟨hrank, hleast⟩ := Mark.rank_operator hm
  have hpos := length_pos_of_opens hl.head
  refine ⟨opens_append hl.head _, fun {n ts us} hreads hn hend => ?_⟩
  simp only [List.length_append, List.length_cons] at hn
  obtain ⟨n, rfl⟩ : ∃ m, n = m + 2 := ⟨n - 2, by omega⟩
  obtain ⟨vs, hleft, hright⟩ := hreads.append
  have hop : vs.operator? = some (precedence, op) := by
    rw [Tokens.operator?, hright.head?]
    exact hm
  have hend' : vs.Ends 2 := ends_of_reads hright (by omega)
  rw [Rules.binaryRule, bind_of_ok (hl.reads hleft (by omega) hend'), level_fuel, Rules.operators,
    look_bind, hop]
  dsimp only
  rw [if_neg (by omega), advance_bind, level_binary,
    bind_of_ok ((hr.binary_of_unary _).reads hright.advance (by omega) hend), Rules.operators, look_bind,
    hend.operator?]
  rfl

theorem conditional (ht : Phrase (·.binaryRule 1) 3 test ls) (hy : Phrase Rules.assignmentRule 5 yes ms)
    (hno : Phrase Rules.assignmentRule 5 no ks) :
    Phrase Rules.conditional 5 (.conditional test yes no)
      (ls ++ .mark .question :: (ms ++ .mark .colon :: ks)) := by
  refine ⟨opens_append ht.head _, fun {n ts us} hreads hn hend => ?_⟩
  simp only [List.length_append, List.length_cons] at hn
  obtain ⟨n, rfl⟩ := succ_of_lt hn
  obtain ⟨vs, htest, hquestion⟩ := hreads.append
  obtain ⟨ws, hyes, hcolon⟩ := hquestion.advance.append
  rw [Rules.conditional, bind_of_ok (ht.reads htest (by omega) (ends_of_reads hquestion (by decide))),
    if_eat_pos (Tokens.isMark_iff.mpr hquestion.head?), level_assignment,
    bind_of_ok (hy.reads hyes (by omega) (ends_of_reads hcolon (by decide)))]
  rw [expect_bind (Tokens.isMark_iff.mpr hcolon.head?), bind_of_ok (hno.reads hcolon.advance (by omega) hend)]
  rfl

theorem assignment {m : Mark} {op : Option BinaryOp} (hm : m.assignment? = some op)
    (ht : Phrase Rules.conditional 4 target ls) (hplace : target.isPlace = true)
    (hv : Phrase Rules.assignmentRule 5 value ms) :
    Phrase Rules.plainAssignment 5 (.assign op target value) (ls ++ .mark m :: ms) := by
  have hrank := Mark.rank_assignment hm
  refine ⟨opens_append ht.head _, fun {n ts us} hreads hn hend => ?_⟩
  simp only [List.length_append, List.length_cons] at hn
  obtain ⟨n, rfl⟩ := succ_of_lt hn
  obtain ⟨vs, htarget, hvalue⟩ := hreads.append
  have hop : vs.assignment? = some op := by
    rw [Tokens.assignment?, hvalue.head?]
    exact hm
  rw [Rules.plainAssignment, bind_of_ok (ht.reads htarget (by omega) (ends_of_reads hvalue (by omega))),
    look_bind, hop]
  dsimp only
  rw [if_pos hplace, advance_bind, level_assignment, bind_of_ok (hv.reads hvalue.advance (by omega) hend)]
  rfl

end Phrase

theorem sequenceRest_reads {items : List Expr} {lss : List (List Lexeme)}
    (h : List.Forall₂ (Phrase Rules.assignmentRule 5) items lss) {n k : Nat}
    (hn : (lss.flatMap (.mark .comma :: ·)).length < n) (hk : lss.length < k) {ts us : Tokens}
    (hr : ts.Reads (lss.flatMap (.mark .comma :: ·)) us) (hend : us.Ends 6) :
    (level n).sequenceRest k ts = .ok (items, us) := by
  induction h generalizing k ts with
  | nil =>
    cases hr.nil
    obtain ⟨k, rfl⟩ := succ_of_lt hk
    rw [Rules.sequenceRest, if_eat_neg (hend.isMark (by decide)), pure_apply]
  | @cons e ls items lss he hes ih =>
    simp only [List.flatMap_cons, List.length_append, List.length_cons] at hn hk
    obtain ⟨k, rfl⟩ := succ_of_lt hk
    have hcomma : ts.head? = some (.mark .comma) := hr.head?
    obtain ⟨vs, hfirst, hrest⟩ := (hr.advance : ts.advance.Reads (ls ++ _) us).append
    have hvs : vs.Ends 5 := by
      cases lss with
      | nil =>
        cases hrest.nil
        exact hend.mono (by decide)
      | cons ms lss => exact Tokens.Ends.of_head hrest.head? (by decide)
    rw [Rules.sequenceRest, if_eat_pos (Tokens.isMark_iff.mpr hcomma), bind_of_ok (he.reads hfirst (by omega) hvs),
      bind_of_ok (ih (by omega) (by omega) hrest), pure_apply]

theorem Phrase.sequence {items : List Expr} {lss : List (List Lexeme)} (hmany : 2 ≤ items.length)
    (h : List.Forall₂ (Phrase Rules.assignmentRule 5) items lss) :
    Phrase Rules.expressionRule 6 (.sequence items) (commaJoined lss) := by
  cases h with
  | nil => simp at hmany
  | @cons first ls items lss hfirst hrest =>
    refine ⟨opens_append hfirst.head _, fun {n ts us} hr hn hend => ?_⟩
    simp only [commaJoined, List.length_append] at hn
    obtain ⟨vs, hread, hmore⟩ := hr.append
    have hcount : lss.length ≤ (lss.flatMap (.mark .comma :: ·)).length := by
      have := (length_commaJoined ([] :: lss)).1
      simp only [commaJoined, List.nil_append, List.length_cons] at this
      omega
    cases hrest with
    | nil => simp at hmany
    | @cons second ms items lss hsecond hrest =>
      have hvs : vs.Ends 5 := Tokens.Ends.of_head hmore.head? (by decide)
      have hlater := sequenceRest_reads (.cons hsecond hrest) (n := n) (by omega) (k := n) (by omega) hmore hend
      rw [Rules.expressionRule, bind_of_ok (hfirst.reads hread (by omega) hvs), level_fuel, bind_of_ok hlater]
      rfl

end Apiary
