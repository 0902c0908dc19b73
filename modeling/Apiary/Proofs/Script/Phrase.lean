import Apiary.Script.Grammar
import Mathlib.Data.List.Forall2

/-!
What the rules of the grammar read. An operand is read whatever comes after it; any other phrase is read when
what comes after cannot continue it.
-/

namespace Apiary

namespace Parse

variable {α β : Type}

theorem bind_of_ok {p : Parse α} {f : α → Parse β} {a : α} {ts us : Tokens} (h : p ts = .ok (a, us)) :
    (p >>= f) ts = f a us := by
  simp only [bind, h]

theorem look_bind (g : Tokens → α) (f : α → Parse β) (ts : Tokens) : (look g >>= f) ts = f (g ts) ts := rfl

theorem advance_bind (f : Unit → Parse β) (ts : Tokens) : (advance >>= f) ts = f () ts.advance := rfl

theorem if_look_pos {g : Tokens → Bool} {ts : Tokens} (h : g ts = true) (p q : Parse β) :
    (do if ← look g then p else q) ts = p ts := by
  simp [bind, look, h]

theorem if_look_neg {g : Tokens → Bool} {ts : Tokens} (h : g ts = false) (p q : Parse β) :
    (do if ← look g then p else q) ts = q ts := by
  simp [bind, look, h]

theorem if_eat_pos {m : Mark} {ts : Tokens} (h : ts.isMark m = true) (p q : Parse β) :
    (do if ← eat m then p else q) ts = p ts.advance := by
  simp [bind, eat, h]

theorem if_eat_neg {m : Mark} {ts : Tokens} (h : ts.isMark m = false) (p q : Parse β) :
    (do if ← eat m then p else q) ts = q ts := by
  simp [bind, eat, h]

theorem if_eatWord_pos {w : String} {ts : Tokens} (h : ts.isWord w = true) (p q : Parse β) :
    (do if ← eatWord w then p else q) ts = p ts.advance := by
  simp [bind, eatWord, h]

theorem if_eatWord_neg {w : String} {ts : Tokens} (h : ts.isWord w = false) (p q : Parse β) :
    (do if ← eatWord w then p else q) ts = q ts := by
  simp [bind, eatWord, h]

theorem expect_bind {m : Mark} {ts : Tokens} (h : ts.isMark m = true) (f : Unit → Parse β) :
    (expect m >>= f) ts = f () ts.advance := by
  simp [bind, expect, h]

end Parse

namespace Tokens

/-- No line break and no arrow is ahead. -/
def Calm (ts : Tokens) : Prop := ∀ k ∈ ts.ahead, k.lexeme ≠ .mark .arrow ∧ k.newlineBefore = false

structure Reads (ts : Tokens) (ls : List Lexeme) (us : Tokens) : Prop where
  calm : ts.Calm
  split : ∃ read : List Token, read.map (·.lexeme) = ls ∧ ts = { us with ahead := read ++ us.ahead }

variable {ts us : Tokens} {l : Lexeme} {ls ms : List Lexeme}

theorem Reads.whole (h : ts.Calm) : ts.Reads (ts.ahead.map (·.lexeme)) { ts with ahead := [] } :=
  ⟨h, ts.ahead, rfl, by simp⟩

theorem Reads.calm_after (h : ts.Reads ls us) : us.Calm := by
  obtain ⟨read, -, rfl⟩ := h.split
  exact fun k hk => h.calm k (List.mem_append_right _ hk)

theorem Reads.nil (h : ts.Reads [] us) : ts = us := by
  obtain ⟨read, hread, rfl⟩ := h.split
  rw [List.map_eq_nil_iff.mp hread]
  rfl

theorem Reads.head? (h : ts.Reads (l :: ls) us) : ts.head? = some l := by
  obtain ⟨read, hread, rfl⟩ := h.split
  obtain ⟨k, read, rfl, rfl, rfl⟩ := List.map_eq_cons_iff.mp hread
  rfl

theorem Reads.advance (h : ts.Reads (l :: ls) us) : ts.advance.Reads ls us := by
  obtain ⟨read, hread, rfl⟩ := h.split
  obtain ⟨k, read, rfl, rfl, rfl⟩ := List.map_eq_cons_iff.mp hread
  exact ⟨fun k hk => h.calm k (List.mem_cons_of_mem _ hk), read, rfl, rfl⟩

theorem Reads.append (h : ts.Reads (ls ++ ms) us) : ∃ vs, ts.Reads ls vs ∧ vs.Reads ms us := by
  obtain ⟨read, hread, rfl⟩ := h.split
  obtain ⟨read₁, read₂, rfl, rfl, rfl⟩ := List.map_eq_append_iff.mp hread
  have first : Reads _ (read₁.map (·.lexeme)) { us with ahead := read₂ ++ us.ahead } :=
    ⟨h.calm, read₁, rfl, by simp⟩
  exact ⟨_, first, first.calm_after, read₂, rfl, rfl⟩

theorem Calm.newline (h : ts.Calm) (hl : ts.head? = some l) : ts.newline = false := by
  cases hts : ts.ahead with
  | nil => simp [Tokens.head?, hts] at hl
  | cons k rest => simpa [Tokens.newline, hts] using (h k (by simp [hts])).2

theorem Calm.isMark_arrow (h : ts.Calm) : ts.isMark .arrow = false := by
  cases hts : ts.ahead with
  | nil => simp [Tokens.isMark, Tokens.head?, hts]
  | cons k rest =>
    have hk := (h k (by simp [hts])).1
    simp only [Tokens.isMark, Tokens.head?, hts, List.head?_cons, Option.map_some]
    split
    · next m hm => simpa using fun hma => hk (by simpa [hma] using hm)
    · rfl

theorem arrowAfterGroup_calm : ∀ (ks : List Token) (depth : Nat), (∀ k ∈ ks, k.lexeme ≠ .mark .arrow) →
    arrowAfterGroup depth ks = false
  | [], _, _ => by simp [arrowAfterGroup]
  | k :: rest, depth, h => by
    have hrest : ∀ k ∈ rest, k.lexeme ≠ .mark .arrow := fun k hk => h k (List.mem_cons_of_mem _ hk)
    have ih := fun depth => arrowAfterGroup_calm rest depth hrest
    rw [arrowAfterGroup]
    split
    · exact ih _
    · split
      · cases rest with
        | nil => rfl
        | cons k' rest =>
          have hk' := hrest k' List.mem_cons_self
          simp only [List.head?_cons, Option.map_some]
          split
          · next harrow => exact absurd (by simpa using harrow) hk'
          · rfl
      · exact ih _
    · exact ih _

theorem Calm.arrowAhead (h : ts.Calm) : ts.arrowAhead = false := by
  have hadvance : ts.advance.Calm := fun k hk => h k (List.mem_of_mem_tail hk)
  rw [Tokens.arrowAhead]
  split
  · simp [hadvance.isMark_arrow]
  · exact arrowAfterGroup_calm _ _ fun k hk => (h k hk).1
  · rfl

end Tokens

/-- How late in the grammar a mark continues what stands before it: an access, an update, an operator, a
condition, an assignment, a sequence; other marks continue nothing. -/
def Mark.rank : Mark → Nat
  | .dot | .optionalDot | .bracketOpen | .parenOpen => 0
  | .increment | .decrement => 1
  | .question => 3
  | .comma => 5
  | m => if m.operator?.isSome then 2 else if m.assignment?.isSome then 4 else 6

theorem Mark.rank_operator {m : Mark} {precedence : Nat} {op : Operator}
    (h : m.operator? = some (precedence, op)) : m.rank = 2 ∧ 1 ≤ precedence := by
  cases m <;> cases h <;> decide

theorem Mark.rank_assignment {m : Mark} {op : Option BinaryOp} (h : m.assignment? = some op) : m.rank = 4 := by
  cases m <;> cases h <;> decide

def Tokens.Ends (rank : Nat) (ts : Tokens) : Prop := ∀ m, ts.head? = some (.mark m) → rank ≤ m.rank

namespace Tokens

variable {ts : Tokens} {rank rank' : Nat}

theorem Ends.mono (h : ts.Ends rank') (hrank : rank ≤ rank') : ts.Ends rank :=
  fun m hm => Nat.le_trans hrank (h m hm)

theorem Ends.of_head {m : Mark} (h : ts.head? = some (.mark m)) (hrank : rank ≤ m.rank) : ts.Ends rank := by
  intro m' hm
  rw [h] at hm
  cases hm
  exact hrank

theorem Ends.of_end (h : ts.ahead = []) : ts.Ends rank := by
  intro m hm
  simp [Tokens.head?, h] at hm

theorem isMark_iff {m : Mark} : ts.isMark m = true ↔ ts.head? = some (.mark m) := by
  unfold Tokens.isMark
  split
  · next m' h => simp [h]
  · next h =>
    constructor
    · intro hf
      cases hf
    · exact fun hm => absurd hm (h m)

theorem Ends.isMark {m : Mark} (h : ts.Ends rank) (hm : m.rank < rank) : ts.isMark m = false := by
  rw [Bool.eq_false_iff]
  intro hts
  exact absurd (h m (isMark_iff.mp hts)) (by omega)

theorem Ends.operator? (h : ts.Ends 3) : ts.operator? = none := by
  unfold Tokens.operator?
  split
  · next m hm =>
    cases hop : m.operator? with
    | none => rfl
    | some r =>
      have := (Mark.rank_operator hop).1
      have := h m hm
      omega
  · rfl

theorem Ends.assignment? (h : ts.Ends 5) : ts.assignment? = none := by
  unfold Tokens.assignment?
  split
  · next m hm =>
    cases hop : m.assignment? with
    | none => rfl
    | some r =>
      have := Mark.rank_assignment hop
      have := h m hm
      omega
  · rfl

theorem Ends.update? (h : ts.Ends 2) : ts.update? = none := by
  unfold Tokens.update?
  split
  · next hm => exact absurd (h _ hm) (by decide)
  · next hm => exact absurd (h _ hm) (by decide)
  · rfl

end Tokens

def Lexeme.opens : Lexeme → Bool
  | .name n => n ≠ "async"
  | .mark m => m.rank ≠ 5 ∧ m ≠ .braceClose ∧ m ≠ .bracketClose ∧ m ≠ .parenClose
  | _ => true

def Lexeme.opensOperand : Lexeme → Bool
  | .name n => n ∉ ["async", "await", "new", "typeof", "void"]
  | .mark m => m = .parenOpen ∨ m = .bracketOpen ∨ m = .braceOpen
  | _ => true

theorem Lexeme.opens_of_opensOperand {l : Lexeme} (h : l.opensOperand = true) : l.opens = true := by
  cases l with
  | name n =>
    simp only [opensOperand, opens, decide_eq_true_eq, List.mem_cons, not_or] at h ⊢
    exact h.1
  | mark m =>
    simp only [opensOperand, decide_eq_true_eq] at h
    rcases h with rfl | rfl | rfl <;> decide
  | _ => rfl

theorem opens_append {ls : List Lexeme} (h : ∃ l ∈ ls.head?, l.opens = true) (ms : List Lexeme) :
    ∃ l ∈ (ls ++ ms).head?, l.opens = true := by
  obtain ⟨l, hl, hopen⟩ := h
  obtain ⟨rest, rfl⟩ := List.head?_eq_some_iff.mp hl
  exact ⟨l, rfl, hopen⟩

theorem length_pos_of_opens {ls : List Lexeme} (h : ∃ l ∈ ls.head?, l.opens = true) : 0 < ls.length := by
  obtain ⟨l, hl, -⟩ := h
  exact List.length_pos_iff.mpr (List.ne_nil_of_mem (List.mem_of_mem_head? hl))

structure Operand (e : Expr) (ls : List Lexeme) : Prop where
  head : ∃ l ∈ ls.head?, l.opensOperand = true
  reads {n : Nat} {ts us : Tokens} : ts.Reads ls us → ls.length < n → (Rules.level n).primary ts = .ok (e, us)

/-- `ls` is read as `e` by a rule when a mark after it is of no lower rank than `rank`. -/
structure Phrase (rule : Rules → Parse Expr) (rank : Nat) (e : Expr) (ls : List Lexeme) : Prop where
  head : ∃ l ∈ ls.head?, l.opens = true
  reads {n : Nat} {ts us : Tokens} : ts.Reads ls us → ls.length < n → us.Ends rank →
    rule (Rules.level n) ts = .ok (e, us)

open Rules Parse

namespace Tokens

variable {ts : Tokens} {l : Lexeme}

theorem isWord_of_head {w : String} (h : ts.head? = some l) (hl : l ≠ .name w) : ts.isWord w = false := by
  unfold Tokens.isWord
  rw [h]
  cases l with
  | name n => simpa using hl
  | _ => rfl

theorem unaryOp?_of_operand (h : ts.head? = some l) (hl : l.opensOperand = true) : ts.unaryOp? = none := by
  unfold Tokens.unaryOp?
  rw [h]
  cases l with
  | name n =>
    simp only [Lexeme.opensOperand, decide_eq_true_eq, List.mem_cons, not_or] at hl
    simp [hl]
  | mark m =>
    simp only [Lexeme.opensOperand, decide_eq_true_eq] at hl
    rcases hl with rfl | rfl | rfl <;> rfl
  | _ => rfl

theorem update?_of_operand (h : ts.head? = some l) (hl : l.opensOperand = true) : ts.update? = none := by
  unfold Tokens.update?
  rw [h]
  cases l with
  | mark m =>
    simp only [Lexeme.opensOperand, decide_eq_true_eq] at hl
    rcases hl with rfl | rfl | rfl <;> rfl
  | _ => rfl

end Tokens

theorem level_fuel (n : Nat) : (level n).fuel = n := by
  cases n <;> rfl

theorem level_expression (n : Nat) : (level (n + 1)).expression = (level n).expressionRule := rfl

theorem level_assignment (n : Nat) : (level (n + 1)).assignment = (level n).assignmentRule := rfl

theorem level_binary (n least : Nat) : (level (n + 1)).binary least = (level n).binaryRule least := rfl

theorem level_unary (n : Nat) : (level (n + 1)).unary = (level n).unaryRule := rfl

theorem level_statement (n : Nat) : (level (n + 1)).statement = (level n).statementRule := rfl

namespace Operand

variable {e : Expr} {ls ms : List Lexeme}

theorem newOrPrimary (h : Operand e ls) {n : Nat} {ts us : Tokens} (hr : ts.Reads ls us) (hn : ls.length < n) :
    (level n).newOrPrimary ts = .ok (e, us) := by
  obtain ⟨l, hl, hopen⟩ := h.head
  obtain ⟨rest, rfl⟩ := List.head?_eq_some_iff.mp hl
  have hnew : ts.isWord "new" = false := by
    refine Tokens.isWord_of_head hr.head? ?_
    rintro rfl
    simp [Lexeme.opensOperand] at hopen
  rw [Rules.newOrPrimary, if_eatWord_neg hnew]
  exact h.reads hr hn

/-- An operand and what the rule for accesses reads after it. -/
theorem postfixed (h : Operand e ls) {n : Nat} {ts us : Tokens} (hr : ts.Reads (ls ++ ms) us)
    (hn : ls.length < n) {e' : Expr} (haccess : ∀ vs : Tokens, vs.Reads ms us →
      (level n).accesses n e vs = .ok (e', us)) (hend : us.Ends 2) :
    (level n).postfixed ts = .ok (e', us) := by
  obtain ⟨vs, hfirst, hrest⟩ := hr.append
  rw [Rules.postfixed, level_fuel, bind_of_ok (h.newOrPrimary hfirst hn), bind_of_ok (haccess vs hrest), look_bind]
  simp [hend.update?, pure_apply]

theorem unaryRule_eq (h : Operand e ls) {n : Nat} {ts us : Tokens} (hr : ts.Reads (ls ++ ms) us) :
    (level n).unaryRule ts = (level n).postfixed ts := by
  obtain ⟨l, hl, hopen⟩ := h.head
  obtain ⟨rest, rfl⟩ := List.head?_eq_some_iff.mp hl
  have hhead : ts.head? = some l := hr.head?
  have hawait : ts.isWord "await" = false := by
    refine Tokens.isWord_of_head hhead ?_
    rintro rfl
    simp [Lexeme.opensOperand] at hopen
  rw [Rules.unaryRule, look_bind, Tokens.unaryOp?_of_operand hhead hopen]
  dsimp only
  rw [if_eatWord_neg hawait, look_bind, Tokens.update?_of_operand hhead hopen]

theorem opens (h : Operand e ls) : ∃ l ∈ ls.head?, l.opens = true := by
  obtain ⟨l, hl, hopen⟩ := h.head
  exact ⟨l, hl, Lexeme.opens_of_opensOperand hopen⟩

end Operand

theorem accesses_done {n : Nat} {e : Expr} {us : Tokens} (h : us.Ends 1) (r : Rules) :
    r.accesses (n + 1) e us = .ok (e, us) := by
  rw [Rules.accesses, if_eat_neg (h.isMark (by decide)), if_eat_neg (h.isMark (by decide)),
    if_eat_neg (h.isMark (by decide)), if_look_neg (h.isMark (by decide)), pure_apply]

namespace Phrase

variable {rule : Rules → Parse Expr} {rank rank' : Nat} {e e' : Expr} {ls ms : List Lexeme}

theorem mono (h : Phrase rule rank e ls) (hrank : rank ≤ rank') : Phrase rule rank' e ls :=
  ⟨h.head, fun hr hn hend => h.reads hr hn (hend.mono hrank)⟩

/-- An operand followed by one access. -/
theorem access (h : Operand e ls) (haccess : ∀ {n : Nat} {vs us : Tokens}, vs.Reads ms us → ms.length < n →
    us.Ends 2 → (level (n + 1)).accesses (n + 1) e vs = .ok (e', us)) :
    Phrase Rules.unaryRule 2 e' (ls ++ ms) := by
  refine ⟨opens_append h.opens ms, ?_⟩
  intro n ts us hr hn hend
  have hpos := length_pos_of_opens h.opens
  rw [List.length_append] at hn
  obtain ⟨n, rfl⟩ : ∃ m, n = m + 1 := ⟨n - 1, by omega⟩
  rw [h.unaryRule_eq hr]
  exact h.postfixed hr (by omega) (fun vs hvs => haccess hvs (by omega) hend) hend

theorem of_operand (h : Operand e ls) : Phrase Rules.unaryRule 2 e ls := by
  have hdone : Phrase Rules.unaryRule 2 e (ls ++ []) := access h fun {n vs us} hvs _ hend => by
    rw [hvs.nil]
    exact accesses_done (hend.mono (by decide)) _
  rwa [List.append_nil] at hdone

theorem member (h : Operand e ls) (property : String) (optional : Bool) :
    Phrase Rules.unaryRule 2 (.member e property optional)
      (ls ++ [.mark (if optional then .optionalDot else .dot), .name property]) := by
  refine access h fun {n vs us} hr hn hend => ?_
  obtain ⟨n, rfl⟩ : ∃ m, n = m + 1 := ⟨n - 1, by simp at hn; omega⟩
  have hname : propertyName vs.advance = .ok (property, us) := by
    have hs := hr.advance
    simp [propertyName, hs.head?, hs.advance.nil]
  have hdone := accesses_done (n := n) (e := .member e property optional) (hend.mono (by decide)) (level (n + 2))
  have hhead := hr.head?
  cases optional with
  | false =>
    have hdot : vs.isMark .dot = true := Tokens.isMark_iff.mpr hhead
    rw [Rules.accesses, if_eat_pos hdot, bind_of_ok hname]
    exact hdone
  | true =>
    have hdot : vs.isMark .dot = false := by simp [Tokens.isMark, hhead]
    have hoptional : vs.isMark .optionalDot = true := Tokens.isMark_iff.mpr hhead
    rw [Rules.accesses, if_eat_neg hdot, if_eat_pos hoptional, bind_of_ok hname]
    exact hdone

theorem binary_of_unary (h : Phrase Rules.unaryRule 2 e ls) (least : Nat) :
    Phrase (·.binaryRule least) 3 e ls := by
  refine ⟨h.head, fun {n ts us} hr hn hend => ?_⟩
  obtain ⟨n, rfl⟩ : ∃ m, n = m + 1 := ⟨n - 1, by omega⟩
  show (level (n + 1)).binaryRule least ts = _
  rw [Rules.binaryRule, bind_of_ok (h.reads hr hn (hend.mono (by decide)))]
  rw [level_fuel, Rules.operators, look_bind, hend.operator?]
  rfl

theorem conditional_of_binary (h : Phrase (·.binaryRule 1) 3 e ls) : Phrase Rules.conditional 4 e ls := by
  refine ⟨h.head, fun {n ts us} hr hn hend => ?_⟩
  rw [Rules.conditional, bind_of_ok (h.reads hr hn (hend.mono (by decide))),
    if_eat_neg (hend.isMark (by decide)), pure_apply]

theorem plain_of_conditional (h : Phrase Rules.conditional 5 e ls) : Phrase Rules.plainAssignment 5 e ls := by
  refine ⟨h.head, fun {n ts us} hr hn hend => ?_⟩
  rw [Rules.plainAssignment, bind_of_ok (h.reads hr hn hend), look_bind, hend.assignment?]
  rfl

theorem assignment_of_plain (h : Phrase Rules.plainAssignment 5 e ls) : Phrase Rules.assignmentRule 5 e ls := by
  refine ⟨h.head, fun {n ts us} hr hn hend => ?_⟩
  obtain ⟨l, hl, hopen⟩ := h.head
  obtain ⟨rest, rfl⟩ := List.head?_eq_some_iff.mp hl
  have hword : ts.isWord "async" = false := by
    refine Tokens.isWord_of_head hr.head? ?_
    rintro rfl
    simp [Lexeme.opens] at hopen
  have hasync : ts.asyncArrowAhead = false := by simp [Tokens.asyncArrowAhead, hword]
  rw [Rules.assignmentRule, if_look_neg hasync, if_look_neg hr.calm.arrowAhead]
  exact h.reads hr hn hend

theorem assignment_of_unary (h : Phrase Rules.unaryRule 2 e ls) : Phrase Rules.assignmentRule 5 e ls :=
  ((h.binary_of_unary 1).conditional_of_binary.mono (by decide)).plain_of_conditional.assignment_of_plain

theorem expression_of_assignment (h : Phrase Rules.assignmentRule 5 e ls) :
    Phrase Rules.expressionRule 6 e ls := by
  refine ⟨h.head, fun {n ts us} hr hn hend => ?_⟩
  obtain ⟨n, rfl⟩ : ∃ m, n = m + 1 := ⟨n - 1, by omega⟩
  rw [Rules.expressionRule, bind_of_ok (h.reads hr hn (hend.mono (by decide)))]
  have hrest : (level (n + 1)).sequenceRest (n + 1) us = .ok ([], us) := by
    rw [Rules.sequenceRest, if_eat_neg (hend.isMark (by decide)), pure_apply]
  rw [level_fuel, bind_of_ok hrest]
  rfl

end Phrase

/-- Items with commas between them. -/
def commaJoined : List (List Lexeme) → List Lexeme
  | [] => []
  | ls :: rest => ls ++ rest.flatMap (.mark .comma :: ·)

theorem length_commaJoined (lss : List (List Lexeme)) :
    lss.length ≤ (commaJoined lss).length + 1 ∧ ∀ ls ∈ lss, ls.length ≤ (commaJoined lss).length := by
  have key : ∀ rest : List (List Lexeme), rest.length ≤ (rest.flatMap (.mark .comma :: ·)).length ∧
      ∀ ls ∈ rest, ls.length ≤ (rest.flatMap (.mark .comma :: ·)).length := by
    intro rest
    induction rest with
    | nil => simp
    | cons ls rest ih =>
      obtain ⟨hlen, hmem⟩ := ih
      simp only [List.flatMap_cons, List.length_append, List.length_cons, List.mem_cons, forall_eq_or_imp]
      exact ⟨by omega, by omega, fun ms hms => by have := hmem ms hms; omega⟩
  cases lss with
  | nil => simp
  | cons ls rest =>
    obtain ⟨hlen, hmem⟩ := key rest
    simp only [commaJoined, List.length_append, List.length_cons, List.mem_cons, forall_eq_or_imp]
    exact ⟨by omega, by omega, fun ms hms => by have := hmem ms hms; omega⟩

/-- An item of a list is read when a comma or the end of the list comes after it. -/
structure Item {α : Type} (item : Parse α) (a : α) (ls : List Lexeme) : Prop where
  head : ∃ l ∈ ls.head?, l.opens = true
  reads {ts us : Tokens} : ts.Reads ls us → us.Ends 5 → item ts = .ok (a, us)

theorem Phrase.item {e : Expr} {ls : List Lexeme} (h : Phrase Rules.assignmentRule 5 e ls) {n : Nat}
    (hn : ls.length < n) : Item (level n).assignmentRule e ls :=
  ⟨h.head, fun hr hend => h.reads hr hn hend⟩

def Mark.closes (m : Mark) : Prop := m = .parenClose ∨ m = .bracketClose ∨ m = .braceClose

theorem Mark.closes.rank {m : Mark} (h : m.closes) : m.rank = 6 := by
  rcases h with rfl | rfl | rfl <;> rfl

theorem Mark.closes.ne_comma {m : Mark} (h : m.closes) : m ≠ .comma := by
  rcases h with rfl | rfl | rfl <;> decide

theorem Mark.closes.not_opens {m : Mark} (h : m.closes) : (Lexeme.mark m).opens = false := by
  rcases h with rfl | rfl | rfl <;> decide

theorem commaList_reads {α : Type} {item : Parse α} {stop : Mark} (hstop : stop.closes) {as : List α}
    {lss : List (List Lexeme)} (h : List.Forall₂ (Item item) as lss) {n : Nat} (hn : lss.length ≤ n)
    {ts us : Tokens} (hr : ts.Reads (commaJoined lss) us) (hus : us.isMark stop = true) :
    commaList stop item (n + 1) ts = .ok (as, us) := by
  have hhead : us.head? = some (.mark stop) := Tokens.isMark_iff.mp hus
  induction h generalizing n ts with
  | nil =>
    cases hr.nil
    rw [commaList, if_look_pos hus, pure_apply]
  | @cons a ls as lss ha has ih =>
    obtain ⟨vs, hfirst, hrest⟩ := hr.append
    obtain ⟨l, hl, hopen⟩ := ha.head
    have hts : ts.isMark stop = false := by
      obtain ⟨tail, rfl⟩ := List.head?_eq_some_iff.mp hl
      rw [Bool.eq_false_iff]
      intro hts
      have hl : l = .mark stop := by simpa [hfirst.head?] using Tokens.isMark_iff.mp hts
      simp [hl, hstop.not_opens] at hopen
    rw [commaList, if_look_neg hts]
    cases has with
    | nil =>
      cases hrest.nil
      have hend : us.Ends 5 := Tokens.Ends.of_head hhead (by simp [hstop.rank])
      have hcomma : us.isMark .comma = false := by
        simp [Tokens.isMark, hhead, hstop.ne_comma]
      rw [bind_of_ok (ha.reads hfirst hend), if_eat_neg hcomma, pure_apply]
    | @cons b ms bs mss hb hbs =>
      have hcomma := hrest.head?
      have hend : vs.Ends 5 := Tokens.Ends.of_head hcomma (by decide)
      obtain ⟨n, rfl⟩ : ∃ m, n = m + 1 := ⟨n - 1, by simp at hn; omega⟩
      have htail := ih (n := n) (by simpa using hn) hrest.advance
      rw [bind_of_ok (ha.reads hfirst hend), if_eat_pos (Tokens.isMark_iff.mpr hcomma), bind_of_ok htail,
        pure_apply]

theorem assignments_read {stop : Mark} (hstop : stop.closes) {es : List Expr} {lss : List (List Lexeme)}
    (h : List.Forall₂ (Phrase Rules.assignmentRule 5) es lss) {n : Nat} (hn : (commaJoined lss).length + 1 < n)
    {ts us : Tokens} (hr : ts.Reads (commaJoined lss) us) (hus : us.isMark stop = true) :
    commaList stop (level n).assignment (level n).fuel ts = .ok (es, us) := by
  obtain ⟨n, rfl⟩ : ∃ m, n = m + 1 := ⟨n - 1, by omega⟩
  obtain ⟨hcount, hlength⟩ := length_commaJoined lss
  have hitem : List.Forall₂ (Item (level n).assignmentRule) es lss := by
    rw [List.forall₂_iff_get] at h ⊢
    refine ⟨h.1, fun i hi hj => (h.2 i hi hj).item ?_⟩
    have := hlength _ (List.get_mem lss ⟨i, hj⟩)
    omega
  rw [level_assignment, level_fuel]
  exact commaList_reads hstop hitem (by omega) hr hus

end Apiary
