import Apiary.Proofs.Script.Seam

/-!
The rules for expressions stay on their side of a seam when the rules they refer back to do. Those that read a closing
mark last do so whatever comes next.
-/

namespace Apiary

namespace Lexeme

/-- Neither a parenthesis nor a semicolon. -/
def Plain (l : Lexeme) : Prop := (∀ i, l.Shift i i) ∧ l ≠ .mark .semicolon

theorem plain_mark {m : Mark} (h : m ≠ .parenOpen ∧ m ≠ .parenClose ∧ m ≠ .semicolon) : (mark m).Plain :=
  ⟨shift_mark ⟨h.1, h.2.1⟩, by simpa using h.2.2⟩

theorem plain_other {l : Lexeme} (h : ∀ m, l ≠ mark m) : l.Plain := ⟨shift_other h, h _⟩

end Lexeme

namespace Tokens

variable {ts : Tokens}

theorem plain_of_unaryOp? {op : UnaryOp} (h : ts.unaryOp? = some op) : ∃ l, ts.head? = some l ∧ l.Plain := by
  unfold unaryOp? at h
  split at h
  · next hl => exact ⟨_, hl, Lexeme.plain_mark (by decide)⟩
  · next hl => exact ⟨_, hl, Lexeme.plain_mark (by decide)⟩
  · next hl => exact ⟨_, hl, Lexeme.plain_mark (by decide)⟩
  · next hl => exact ⟨_, hl, Lexeme.plain_mark (by decide)⟩
  · next hl => exact ⟨_, hl, Lexeme.plain_other (by simp)⟩
  · cases h

theorem plain_of_update? {increment : Bool} (h : ts.update? = some increment) : ∃ l, ts.head? = some l ∧ l.Plain := by
  unfold update? at h
  split at h
  · next hl => exact ⟨_, hl, Lexeme.plain_mark (by decide)⟩
  · next hl => exact ⟨_, hl, Lexeme.plain_mark (by decide)⟩
  · cases h

theorem plain_of_operator? {op : Nat × Operator} (h : ts.operator? = some op) : ∃ l, ts.head? = some l ∧ l.Plain := by
  unfold operator? at h
  split at h
  · next m hl =>
    refine ⟨_, hl, Lexeme.plain_mark ?_⟩
    refine ⟨?_, ?_, ?_⟩ <;>
    · rintro rfl
      cases h
  · cases h

theorem plain_of_assignment? {op : Option BinaryOp} (h : ts.assignment? = some op) :
    ∃ l, ts.head? = some l ∧ l.Plain := by
  unfold assignment? at h
  split at h
  · next m hl =>
    refine ⟨_, hl, Lexeme.plain_mark ?_⟩
    refine ⟨?_, ?_, ?_⟩ <;>
    · rintro rfl
      cases h
  · cases h

end Tokens

namespace Seam

open Parse

variable {s : Seam} {ts : Tokens}

theorem Quiet.operator? (h : s.Quiet) : s.next.operator? = none := by
  unfold Tokens.operator?
  split
  · next m hl =>
    have hm : s.next.isMark m = true := Tokens.isMark_iff.mpr hl
    by_cases hstarts : (Lexeme.mark m).starts = true
    · have hquiet : m ∉ Mark.continuing := fun hmem => by simp [h m hmem] at hm
      revert hstarts hquiet
      cases m <;> decide
    · rw [s.isMark (Bool.eq_false_iff.mpr hstarts)] at hm
      cases hm
  · rfl

theorem assignment? (s : Seam) : s.next.assignment? = none := by
  unfold Tokens.assignment?
  split
  · next m hl =>
    have hm : s.next.isMark m = true := Tokens.isMark_iff.mpr hl
    by_cases hstarts : (Lexeme.mark m).starts = true
    · revert hstarts
      cases m <;> decide
    · rw [s.isMark (Bool.eq_false_iff.mpr hstarts)] at hm
      cases hm
  · rfl

theorem last_of_one {l : Lexeme} (hlast : ts.EndsIn s.last) (hl : ts.head? = some l) (hnil : ts.advance.ahead = []) :
    s.last = l := by
  obtain ⟨t, ht, rfl⟩ := Tokens.exists_of_head hl
  rw [hnil] at ht
  simp only [Tokens.EndsIn, ht, List.getLast?_singleton] at hlast
  exact hlast.symm

theorem isWord_after_async (hlast : ts.EndsIn s.last) (hl : ts.isWord "async" = true) (w : String) :
    (ts.advance.extend s.next).isWord w = ts.advance.isWord w := by
  by_cases hnil : ts.advance.ahead = []
  · obtain ⟨hname, -⟩ := s.async (last_of_one hlast (Tokens.isWord_iff.mp hl) hnil)
    rw [Tokens.extend_nil hnil, Tokens.isWord_of_end hnil, Bool.eq_false_iff]
    intro hw
    simp [Tokens.isName, Tokens.isWord_iff.mp hw] at hname
  · exact Tokens.isWord_extend hnil _ w

theorem asyncFunctionAhead_extend (hne : ts.ahead ≠ []) (hlast : ts.EndsIn s.last) :
    (ts.extend s.next).asyncFunctionAhead = ts.asyncFunctionAhead := by
  rw [Tokens.asyncFunctionAhead, Tokens.asyncFunctionAhead, Tokens.isWord_extend hne, Tokens.advance_extend hne]
  cases h : ts.isWord "async" with
  | false => rfl
  | true => rw [isWord_after_async hlast h]

theorem arrowAhead_extend (hne : ts.ahead ≠ []) (hgroups : ts.Grouped) :
    (ts.extend s.next).arrowAhead = ts.arrowAhead := by
  rw [Tokens.arrowAhead, Tokens.arrowAhead, Tokens.head?_extend hne, Tokens.advance_extend hne]
  split
  · next n _ =>
    congr 1
    by_cases hnil : ts.advance.ahead = []
    · rw [Tokens.extend_nil hnil, Tokens.isMark_of_end hnil, s.isMark (by decide)]
    · exact Tokens.isMark_extend hnil _ _
  · next hl =>
    obtain ⟨t, ht, hlexeme⟩ := Tokens.exists_of_head hl
    obtain ⟨d, hd⟩ := hgroups
    rw [ht, openGroups_cons, hlexeme] at hd
    have hnext : ∀ t ∈ s.next.ahead.head?, t.lexeme ≠ .mark .arrow := fun t ht => s.head_ne ht (by decide)
    have hafter := arrowAfterGroup_append hd Nat.one_pos (Nat.le_add_left 1 d) hnext
    simpa [Tokens.extend, ht, arrowAfterGroup, hlexeme] using hafter
  · rfl

theorem asyncArrowAhead_extend (hne : ts.ahead ≠ []) (hlast : ts.EndsIn s.last) (hgroups : ts.Grouped) :
    (ts.extend s.next).asyncArrowAhead = ts.asyncArrowAhead := by
  rw [Tokens.asyncArrowAhead, Tokens.asyncArrowAhead, Tokens.isWord_extend hne, Tokens.advance_extend hne]
  cases h : ts.isWord "async" with
  | false => rfl
  | true =>
    have hl := Tokens.isWord_iff.mp h
    by_cases hnil : ts.advance.ahead = []
    · obtain ⟨hname, hparen⟩ := s.async (last_of_one hlast hl hnil)
      rw [Tokens.extend_nil hnil, hname, hparen]
      simp [Tokens.isName, Tokens.isMark_of_end hnil, Tokens.head?_of_end hnil]
    · obtain ⟨t, ht, -⟩ := Tokens.exists_of_head hl
      rw [Tokens.isMark_extend hnil, Tokens.isName_extend hnil, arrowAhead_extend hnil (hgroups.tail ht)]

end Seam

namespace Seam

open Parse

/-- The rule stays on its side of the seam if what comes next does not go on with an expression. -/
abbrev StaysOpen (s : Seam) {α : Type} (p : Parse α) (ts : Tokens) : Prop := s.Stays True 0 (fun _ => s.Quiet) p ts

/-- The rule stays on its side of the seam in any case. -/
abbrev StaysShut (s : Seam) {α : Type} (p : Parse α) (ts : Tokens) : Prop := s.Stays True 0 (fun _ => True) p ts

/-- The rules that others refer back to stay on their side of the seam. -/
structure StaysAll (s : Seam) (r : Rules) : Prop where
  expression (ts : Tokens) : s.StaysOpen r.expression ts
  assignment (ts : Tokens) : s.StaysOpen r.assignment ts
  binary (least : Nat) (ts : Tokens) : s.StaysOpen (r.binary least) ts
  unary (ts : Tokens) : s.StaysOpen r.unary ts
  statement (ts : Tokens) : s.Stays False 0 s.Ended r.statement ts
  assignment_end {ts : Tokens} : ts.ahead = [] → Refuses r.assignment ts

section Parts

variable {s : Seam} {α β : Type} {need : α → Prop} {p : Parse α} {ts : Tokens} {strict : Prop} {i j : Nat}

theorem StaysShut.stays (h : s.StaysShut p ts) : s.Stays strict 0 need p ts := h.mono fun _ _ => trivial

theorem refuses_expect (h : ts.ahead = []) (m : Mark) (f : Unit → Parse α) : Refuses (Parse.expect m >>= f) ts := by
  refine Refuses.bind (fun r hr => ?_) f
  simp [Parse.expect, Tokens.isMark_of_end h, Parse.unexpected] at hr

/-- A rule and the mark that has to come after it. -/
theorem Stays.before {f : α → Parse β} {need' : β → Prop} {m : Mark} (hp : s.Stays True 0 need p ts)
    (hshift : (Lexeme.mark m).Shift i j) (hm : m ≠ .semicolon) (hf : ∀ a us, s.Stays strict j need' (f a) us) :
    s.Stays strict i need' (p >>= fun a => Parse.expect m >>= fun _ => f a) ts :=
  hp.andStop (fun a us _ => .expect hshift hm (hf a us.advance)) fun _ _ hnil => refuses_expect hnil m _

theorem Stays.plain {f : Unit → Parse β} {need' : β → Prop} (hl : ∃ l, ts.head? = some l ∧ l.Plain)
    (hf : s.Stays strict i need' (f ()) ts.advance) : s.Stays strict i need' (Parse.advance >>= f) ts := by
  obtain ⟨l, hl, hplain⟩ := hl
  exact .advance hl (hplain.1 i) hplain.2 hf

end Parts

open Rules Lexeme

namespace StaysAll

variable {s : Seam} {r : Rules} (h : s.StaysAll r) (ts : Tokens)

include h

theorem block : s.StaysShut r.block ts := by
  refine .expect (shift_mark (by decide) 0) (by decide) ?_
  refine (Stays.listUntil (fun us hus => Tokens.isMark_of_end hus _) (fun us hus => Tokens.isMark_extend hus _ _)
    h.statement r.fuel).andAny fun body us hbody => ?_
  exact .advance (Tokens.isMark_iff.mp (Stays.stop_of_listUntil hbody)) (shift_mark (by decide) 0) (by simp) (.pure _)

omit h in
theorem block_end {ts : Tokens} (hnil : ts.ahead = []) (r : Rules) : Refuses r.block ts := refuses_expect hnil _ _

theorem param : s.StaysOpen r.param ts := by
  refine Stays.identifier.andAny fun name us _ => .eat (by decide) (shift_mark (by decide) 0) ?_ (.pure _)
  exact (h.assignment _).andThen fun _ _ _ => .pure _

theorem params : s.StaysShut r.params ts :=
  .expect (shift_open 0) (by decide) ((Stays.commaList (by decide) h.param r.fuel).before (shift_close 0) (by decide)
    fun _ _ => .pure _)

theorem functionRest (named : Bool) : s.StaysShut (r.functionRest named) ts := by
  unfold Rules.functionRest
  extract_lets rest
  have hrest (name : Option String) (us : Tokens) : s.StaysShut (rest name) us :=
    (h.params us).andAny fun _ us _ => (h.block us).andAny fun _ _ _ => .pure _
  have hend (name : Option String) {us : Tokens} (hnil : us.ahead = []) : Refuses (rest name) us :=
    (refuses_expect hnil _ _).bind _
  -- at the end there is no name, and then no parameters
  have hnamed (us : Tokens) : s.StaysShut (do
      if ← Parse.look Tokens.isName then (some <$> Parse.identifier) >>= rest
      else if named then Parse.unexpected >>= rest
      else (Pure.pure none : Parse (Option String)) >>= rest) us := by
    refine .look (fun hne _ _ => Tokens.isName_extend hne _) (fun hnil f vs hf _ => ?_) ?_
    · rw [if_neg (by simp [Tokens.isName, Tokens.head?_of_end hnil])] at hf
      split at hf
      · exact absurd hf (refuses_unexpected.bind _ _)
      · exact absurd hf (hend none hnil _)
    · split
      · exact Stays.identifier.map.andAny fun name us _ => hrest name us
      · split
        · exact .of_refuses (refuses_unexpected.bind _)
        · exact hrest none us
  exact .eat (by decide) (shift_mark (by decide) 0) (hnamed _) (hnamed _)

theorem arrowFunction : s.StaysOpen r.arrowFunction ts := by
  unfold Rules.arrowFunction
  extract_lets rest
  have hrest (params : List String) (us : Tokens) : s.StaysOpen (rest params) us := by
    refine .expect (shift_mark (by decide) 0) (by decide) (.ifMark_of (fun hnil _ _ hf _ => ?_) ?_ ?_)
    · exact absurd hf (((h.assignment_end hnil).bind _).bind _ _)
    · exact (h.block _).map.andAny fun _ _ _ => .pure _
    · exact (h.assignment _).map.andThen fun _ _ _ => .pure _
  refine .ifMark_of (fun hnil _ _ hf _ => ?_) ?_ ?_
  · exact absurd hf (((Tokens.Stuck.of_end hnil).identifier.bind _).bind _ _)
  · exact (h.params ts).andAny fun params us _ => hrest params us
  · exact (Stays.identifier.andAny fun _ _ _ => .pure _).andAny fun params us _ => hrest params us

theorem arguments : s.StaysShut r.arguments ts :=
  .expect (shift_open 0) (by decide) ((Stays.commaList (by decide) h.assignment r.fuel).before (shift_close 0) (by decide)
    fun _ _ => .pure _)

theorem fieldKey : s.StaysShut r.fieldKey ts := by
  cases hl : ts.head? with
  | none => exact .of_refuses (refuses_unexpected.of_eq (by rw [Rules.fieldKey, look_bind, hl]))
  | some l =>
    refine .head (Tokens.ne_nil_of_head hl) ?_
    rw [hl]
    cases l with
    | name n => exact .plain ⟨_, hl, plain_other (by simp)⟩ (.pure _)
    | string t => exact .plain ⟨_, hl, plain_other (by simp)⟩ (.pure _)
    | number x => exact .plain ⟨_, hl, plain_other (by simp)⟩ (.pure _)
    | template => exact .unexpected
    | mark m =>
      cases m with
      | bracketOpen =>
        refine .plain ⟨_, hl, plain_mark (by decide)⟩ ?_
        exact (h.assignment _).before (shift_mark (by decide) 0) (by decide) fun _ _ => .pure _
      | _ => exact .unexpected

theorem field : s.StaysOpen r.field ts := by
  refine (h.fieldKey ts).andAny fun key us _ => .eat (by decide) (shift_mark (by decide) 0) ?_ ?_
  · exact (h.assignment _).andThen fun _ _ _ => .pure _
  · refine .ifMark_of (fun _ _ _ _ hquiet => hquiet _ (by decide)) ?_ ?_
    · exact (h.params us).andAny fun _ us _ => (h.block us).andAny fun _ _ _ => .pure _
    · cases key with
      | inl name => exact .pure _
      | inr => exact .unexpected

theorem primaryName {n : String} (hl : ts.head? = some (.name n)) : s.StaysShut (r.primaryName n) ts := by
  have hplain : ∃ l, ts.head? = some l ∧ l.Plain := ⟨_, hl, plain_other (by simp)⟩
  unfold Rules.primaryName
  split
  · exact .plain hplain (.pure _)
  split
  · exact .plain hplain (.pure _)
  split
  · exact .plain hplain (.pure _)
  split
  · exact .plain hplain (.pure _)
  split
  · exact .plain hplain (h.functionRest _ false).map
  refine .look (fun hne hlast _ => asyncFunctionAhead_extend hne hlast)
    (fun hnil => absurd hnil (Tokens.ne_nil_of_head hl)) ?_
  split
  · next hasync =>
    rw [Tokens.asyncFunctionAhead, Bool.and_eq_true] at hasync
    refine .plain hplain (.plain ⟨_, Tokens.isWord_iff.mp hasync.2, plain_other (by simp)⟩ ?_)
    exact (h.functionRest _ false).map
  · exact Stays.identifier.map

theorem primary : s.StaysShut r.primary ts := by
  by_cases hne : ts.ahead = []
  · exact .of_refuses ((Tokens.Stuck.of_end hne).primary r)
  refine .head hne ?_
  split
  · next hl => exact .plain ⟨_, hl, plain_other (by simp)⟩ (.pure _)
  · next hl => exact .plain ⟨_, hl, plain_other (by simp)⟩ (.pure _)
  · next hl => exact .plain ⟨_, hl, plain_other (by simp)⟩ ((Stays.lift _).andAny fun _ _ _ => .pure _)
  · next hl => exact h.primaryName ts hl
  · next hl =>
    exact .advance hl (shift_open 0) (by simp) ((h.expression _).before (shift_close 0) (by decide) fun _ _ => .pure _)
  · next hl =>
    refine .plain ⟨_, hl, plain_mark (by decide)⟩ ?_
    exact (Stays.commaList (by decide) h.assignment _).before (shift_mark (by decide) 0) (by decide) fun _ _ => .pure _
  · next hl =>
    refine .plain ⟨_, hl, plain_mark (by decide)⟩ ?_
    exact (Stays.commaList (by decide) h.field _).before (shift_mark (by decide) 0) (by decide) fun _ _ => .pure _
  · exact .unexpected

omit h in
theorem memberOnly (n : Nat) (e : Expr) : s.StaysShut (Rules.memberOnly n e) ts := by
  induction n generalizing e ts with
  | zero => exact .fail _
  | succ n ih =>
    refine .eat (by decide) (shift_mark (by decide) 0) ?_ (.pure _)
    exact Stays.propertyName.andAny fun _ us _ => ih us _

theorem newOrPrimary : s.StaysOpen r.newOrPrimary ts := by
  by_cases hne : ts.ahead = []
  · refine .of_refuses ?_
    exact ((Tokens.Stuck.of_end hne).primary r).of_eq (if_eatWord_neg (Tokens.isWord_of_end hne _) _ _)
  refine .eatWord (fun hnil => absurd hnil hne) ?_ (h.primary ts).stays
  refine (h.primary _).andAny fun callee us _ => (memberOnly us _ _).andAny fun callee us _ => ?_
  refine .ifMark_of (fun _ _ _ _ hquiet => hquiet _ (by decide)) ?_ (.pure _)
  exact (h.arguments us).andAny fun _ _ _ => .pure _

theorem accesses (n : Nat) (e : Expr) : s.StaysOpen (r.accesses n e) ts := by
  induction n generalizing e ts with
  | zero => exact .fail _
  | succ n ih =>
    refine .eat (by decide) (shift_mark (by decide) 0) (Stays.propertyName.andAny fun _ us _ => ih us _) ?_
    refine .eat (by decide) (shift_mark (by decide) 0) (Stays.propertyName.andAny fun _ us _ => ih us _) ?_
    refine .eat_of (shift_mark (by decide) 0) (by decide) (fun _ _ _ _ hquiet => hquiet _ (by decide)) ?_ ?_
    · exact (h.expression _).before (shift_mark (by decide) 0) (by decide) fun _ us => ih us _
    refine .ifMark_of (fun _ _ _ _ hquiet => hquiet _ (by decide)) ?_ (.pure _)
    exact (h.arguments ts).andAny fun _ us _ => ih us _

theorem postfixed : s.StaysOpen r.postfixed ts := by
  refine (h.newOrPrimary ts).andThen fun e us _ => (h.accesses us _ e).andThen fun e us _ => ?_
  refine .look (fun hne _ _ => ?_) (fun hnil _ _ _ _ => ?_) ?_
  · rw [Tokens.newline_extend hne, Tokens.update?, Tokens.head?_extend hne]
    rfl
  · rw [s.newline, if_pos rfl]
    split
    · rfl
    · simp [Tokens.update?, Tokens.head?_of_end hnil]
  · split
    · next increment hupdate =>
      split
      · have hmark : us.update? = some increment := by
          split at hupdate
          · cases hupdate
          · exact hupdate
        exact .plain (Tokens.plain_of_update? hmark) (.pure _)
      · exact .fail _
    · exact .pure _

theorem unaryRule : s.StaysOpen r.unaryRule ts := by
  by_cases hne : ts.ahead = []
  · exact .of_refuses ((Tokens.Stuck.of_end hne).unaryRule r)
  refine .look (fun _ _ _ => by rw [Tokens.unaryOp?, Tokens.unaryOp?, Tokens.head?_extend hne]) (fun hnil => absurd hnil hne)
    ?_
  split
  · next op hop => exact .plain (Tokens.plain_of_unaryOp? hop) ((h.unary _).andThen fun _ _ _ => .pure _)
  refine .eatWord (fun hnil => absurd hnil hne) ((h.unary _).andThen fun _ _ _ => .pure _) ?_
  refine .look (fun _ _ _ => by rw [Tokens.update?, Tokens.update?, Tokens.head?_extend hne]) (fun hnil => absurd hnil hne) ?_
  split
  · next increment hupdate =>
    refine .plain (Tokens.plain_of_update? hupdate) ((h.unary _).andThen fun _ _ _ => ?_)
    split
    · exact .pure _
    · exact .fail _
  · exact h.postfixed ts

theorem operators (least n : Nat) (left : Expr) : s.StaysOpen (r.operators least n left) ts := by
  induction n generalizing left ts with
  | zero => exact .fail _
  | succ n ih =>
    refine .look (fun hne _ _ => by rw [Tokens.operator?, Tokens.operator?, Tokens.head?_extend hne])
      (fun hnil _ _ _ hquiet => ?_) ?_
    · rw [hquiet.operator?, Tokens.operator?, Tokens.head?_of_end hnil]
    · split
      · exact .pure _
      · next hop =>
        split
        · exact .pure _
        · exact .plain (Tokens.plain_of_operator? hop) ((h.binary _ _).andThen fun _ us _ => ih us _)

theorem binaryRule (least : Nat) : s.StaysOpen (r.binaryRule least) ts :=
  (h.unaryRule ts).andThen fun _ us _ => h.operators us least _ _

theorem conditional : s.StaysOpen r.conditional ts := by
  refine (h.binaryRule ts 1).andThen fun test us _ => .eat (by decide) (shift_mark (by decide) 0) ?_ (.pure _)
  refine (h.assignment _).andThen fun yes us _ => .expect (shift_mark (by decide) 0) (by decide) ?_
  exact (h.assignment _).andThen fun _ _ _ => .pure _

theorem plainAssignment : s.StaysOpen r.plainAssignment ts := by
  refine (h.conditional ts).andThen fun target us _ => ?_
  refine .look (fun hne _ _ => by rw [Tokens.assignment?, Tokens.assignment?, Tokens.head?_extend hne])
    (fun hnil _ _ _ _ => by rw [s.assignment?, Tokens.assignment?, Tokens.head?_of_end hnil]) ?_
  split
  · exact .pure _
  · next op hop =>
    split
    · exact .plain (Tokens.plain_of_assignment? hop) ((h.assignment _).andThen fun _ _ _ => .pure _)
    · exact .fail _

theorem assignmentRule : s.StaysOpen r.assignmentRule ts := by
  by_cases hne : ts.ahead = []
  · exact .of_refuses ((Tokens.Stuck.of_end hne).assignmentRule r)
  refine .look (fun _ => asyncArrowAhead_extend hne) (fun hnil => absurd hnil hne) ?_
  split
  · next hasync =>
    rw [Tokens.asyncArrowAhead, Bool.and_eq_true, Bool.and_eq_true] at hasync
    exact .plain ⟨_, Tokens.isWord_iff.mp hasync.1.1, plain_other (by simp)⟩ (h.arrowFunction _)
  refine .look (fun _ _ => arrowAhead_extend hne) (fun hnil => absurd hnil hne) ?_
  split
  · exact h.arrowFunction ts
  · exact h.plainAssignment ts

theorem sequenceRest (n : Nat) : s.StaysOpen (r.sequenceRest n) ts := by
  induction n generalizing ts with
  | zero => exact .fail _
  | succ n ih =>
    refine .eat (by decide) (shift_mark (by decide) 0) ?_ (.pure _)
    exact (h.assignmentRule _).andThen fun _ us _ => (ih us).andThen fun _ _ _ => .pure _

theorem expressionRule : s.StaysOpen r.expressionRule ts := by
  refine (h.assignmentRule ts).andThen fun first us _ => (h.sequenceRest us _).andThen fun rest vs _ => ?_
  split
  · exact .pure _
  · exact .pure _

end StaysAll

end Seam

end Apiary
