import Apiary.Proofs.Script.Phrase
import Apiary.Proofs.Source.Joined

/-!
How statements start. No rule reads a statement where a token stands that cannot start one, and it makes no difference
to a statement whether a line break comes before its first token.
-/

namespace Apiary

/-- Can stand first in a statement. -/
def Lexeme.starts : Lexeme → Bool
  | .name n => n ∉ ["else", "catch", "finally", "in", "of", "case", "default"]
  | .mark m => m ∈ [.semicolon, .braceOpen, .parenOpen, .bracketOpen, .bang, .minus, .plus, .tilde, .increment, .decrement]
  | _ => true

/-- Nothing that can start a statement is ahead. -/
def Tokens.Stuck (ts : Tokens) : Prop := ∀ l ∈ ts.head?, l.starts = false

namespace Tokens

variable {ts : Tokens}

theorem Stuck.of_end (h : ts.ahead = []) : ts.Stuck := by
  simp [Stuck, head?, h]

theorem isWord_iff {w : String} : ts.isWord w = true ↔ ts.head? = some (.name w) := by
  unfold isWord
  split
  · next n h => simp [h]
  · next h => simpa using h w

theorem Stuck.isWord (h : ts.Stuck) {w : String} (hw : (Lexeme.name w).starts = true) : ts.isWord w = false := by
  rw [Bool.eq_false_iff]
  intro hts
  rw [h _ (isWord_iff.mp hts)] at hw
  cases hw

theorem Stuck.unaryOp? (h : ts.Stuck) : ts.unaryOp? = none := by
  unfold Tokens.unaryOp?
  split
  · next hl => exact absurd (h _ hl) (by decide)
  · next hl => exact absurd (h _ hl) (by decide)
  · next hl => exact absurd (h _ hl) (by decide)
  · next hl => exact absurd (h _ hl) (by decide)
  · next n hl =>
    have hn := h _ hl
    rw [if_neg, if_neg]
    · rintro rfl
      revert hn
      decide
    · rintro rfl
      revert hn
      decide
  · rfl

theorem Stuck.update? (h : ts.Stuck) : ts.update? = none := by
  unfold Tokens.update?
  split
  · next hl => exact absurd (h _ hl) (by decide)
  · next hl => exact absurd (h _ hl) (by decide)
  · rfl

theorem Stuck.name (h : ts.Stuck) {n : String} (hn : ts.head? = some (.name n)) :
    n ∈ ["else", "catch", "finally", "in", "of", "case", "default"] :=
  Decidable.not_not.mp (of_decide_eq_false (h _ hn))

theorem Stuck.isReserved (h : ts.Stuck) {n : String} (hn : ts.head? = some (.name n)) : isReserved n = true := by
  have hmem := h.name hn
  simp only [List.mem_cons, List.not_mem_nil, or_false] at hmem
  rcases hmem with rfl | rfl | rfl | rfl | rfl | rfl | rfl <;> rfl

theorem Stuck.arrowAhead (h : ts.Stuck) : ts.arrowAhead = false := by
  unfold Tokens.arrowAhead
  split
  · next n hn => rw [h.isReserved hn, Bool.not_true, Bool.false_and]
  · next hn => exact absurd (h _ hn) (by decide)
  · rfl

end Tokens

namespace Parse

variable {α β : Type} {p : Parse α} {ts : Tokens}

/-- Gives no answer. -/
def Refuses (p : Parse α) (ts : Tokens) : Prop := ∀ r, p ts ≠ .ok r

theorem refuses_unexpected : Refuses (unexpected : Parse α) ts := fun _ h => by cases h

theorem Refuses.bind (h : Refuses p ts) (f : α → Parse β) : Refuses (p >>= f) ts := by
  rintro ⟨b, us⟩ hb
  obtain ⟨a, vs, ha, -⟩ := bind_eq_ok.mp hb
  exact h _ ha

theorem Refuses.of_eq {q : Parse α} (h : Refuses q ts) (heq : p ts = q ts) : Refuses p ts :=
  fun r hr => h r (heq ▸ hr)

end Parse

namespace Tokens.Stuck

open Parse Rules

variable {ts : Tokens} (h : ts.Stuck) (r : Rules)

include h

theorem identifier : Refuses identifier ts := by
  intro a ha
  unfold Parse.identifier at ha
  split at ha
  · next n hn =>
    rw [h.isReserved hn] at ha
    cases ha
  · cases ha

theorem primaryName {n : String} (hn : ts.head? = some (.name n)) : Refuses (r.primaryName n) ts := by
  have hmem := h.name hn
  have hasync : ts.asyncFunctionAhead = false := by rw [asyncFunctionAhead, h.isWord (by decide), Bool.false_and]
  unfold Rules.primaryName
  rw [if_neg, if_neg, if_neg, if_neg, if_neg]
  · exact (h.identifier.bind _).of_eq (if_look_neg hasync _ _)
  all_goals
    rintro rfl
    revert hmem
    decide

theorem primary : Refuses r.primary ts := by
  refine Refuses.of_eq ?_ (look_bind Tokens.head? _ ts)
  split
  · next hl => exact Bool.noConfusion (h _ hl)
  · next hl => exact Bool.noConfusion (h _ hl)
  · next hl => exact Bool.noConfusion (h _ hl)
  · next hl => exact h.primaryName r hl
  · next hl => exact absurd (h _ hl) (by decide)
  · next hl => exact absurd (h _ hl) (by decide)
  · next hl => exact absurd (h _ hl) (by decide)
  · exact refuses_unexpected

theorem unaryRule : Refuses r.unaryRule ts := by
  have hpostfixed : Refuses r.postfixed ts :=
    ((h.primary r).of_eq (if_eatWord_neg (h.isWord (by decide)) _ _)).bind _
  refine Refuses.of_eq ?_ (look_bind Tokens.unaryOp? _ ts)
  rw [h.unaryOp?]
  refine Refuses.of_eq ?_ (if_eatWord_neg (h.isWord (by decide)) _ _)
  refine Refuses.of_eq ?_ (look_bind Tokens.update? _ ts)
  rw [h.update?]
  exact hpostfixed

theorem assignmentRule : Refuses r.assignmentRule ts := by
  have hasync : ts.asyncArrowAhead = false := by
    rw [asyncArrowAhead, h.isWord (by decide), Bool.false_and, Bool.false_and]
  have hplain : Refuses r.plainAssignment ts := (((h.unaryRule r).bind _).bind _).bind _
  refine Refuses.of_eq ?_ (if_look_neg hasync _ _)
  exact hplain.of_eq (if_look_neg h.arrowAhead _ _)

theorem expressionRule : Refuses r.expressionRule ts := (h.assignmentRule r).bind _

theorem statementRule : Refuses r.statementRule ts := by
  have hexpression : Refuses r.expressionStatement ts := (h.expressionRule r).bind _
  refine Refuses.of_eq ?_ (look_bind Tokens.head? _ ts)
  split
  · next hl => exact absurd (h _ hl) (by decide)
  · next hl => exact absurd (h _ hl) (by decide)
  · next word hl =>
    have hasync : ts.asyncFunctionAhead = false := by rw [asyncFunctionAhead, h.isWord (by decide), Bool.false_and]
    have hrule : r.wordRule? word = none := by
      have hmem := h.name hl
      simp only [List.mem_cons, List.not_mem_nil, or_false] at hmem
      rcases hmem with rfl | rfl | rfl | rfl | rfl | rfl | rfl <;> rfl
    rw [hrule]
    exact hexpression.of_eq (if_look_neg hasync _ _)
  · exact hexpression

end Tokens.Stuck

namespace Tokens

variable {ts : Tokens}

@[simp] theorem head?_opened (ts : Tokens) : ts.opened.head? = ts.head? := by
  obtain ⟨_ | ⟨t, rest⟩, _, _⟩ := ts <;> rfl

@[simp] theorem position_opened (ts : Tokens) : ts.opened.position = ts.position := by
  obtain ⟨_ | ⟨t, rest⟩, _, _⟩ := ts <;> rfl

theorem advance_opened (h : ts.ahead ≠ []) : ts.opened.advance = ts.advance := by
  obtain ⟨_ | ⟨t, rest⟩, _, _⟩ := ts
  · exact absurd rfl h
  · rfl

@[simp] theorem isMark_opened (m : Mark) : ts.opened.isMark m = ts.isMark m := by simp [isMark]

@[simp] theorem isWord_opened (w : String) : ts.opened.isWord w = ts.isWord w := by simp [isWord]

@[simp] theorem surprise_opened : ts.opened.surprise = ts.surprise := by simp [surprise]

theorem arrowAhead_opened (h : ts.ahead ≠ []) : ts.opened.arrowAhead = ts.arrowAhead := by
  obtain ⟨_ | ⟨t, rest⟩, _, _⟩ := ts
  · exact absurd rfl h
  · rfl

end Tokens

namespace Parse

variable {α β : Type} {p q : Parse α} {f : α → Parse β}

theorem eat_bind (m : Mark) (f : Bool → Parse β) (ts : Tokens) :
    (eat m >>= f) ts = if ts.isMark m then f true ts.advance else f false ts := by
  cases h : ts.isMark m <;> simp [bind, eat, h]

theorem eatWord_bind (w : String) (f : Bool → Parse β) (ts : Tokens) :
    (eatWord w >>= f) ts = if ts.isWord w then f true ts.advance else f false ts := by
  cases h : ts.isWord w <;> simp [bind, eatWord, h]

/-- Gives the same, whether or not a line break comes before the first token. -/
def Fresh (p : Parse α) : Prop := ∀ ts : Tokens, ts.ahead ≠ [] → p ts.opened = p ts

namespace Fresh

theorem bind (h : Fresh p) (f : α → Parse β) : Fresh (p >>= f) := by
  intro ts hne
  simp only [Bind.bind, h ts hne]

theorem look {g : Tokens → α} (hg : ∀ ts : Tokens, ts.ahead ≠ [] → g ts.opened = g ts) (hf : ∀ a, Fresh (f a)) :
    Fresh (Parse.look g >>= f) := by
  intro ts hne
  rw [look_bind, look_bind, hg ts hne, hf _ ts hne]

theorem ite {c : Prop} [Decidable c] (hp : Fresh p) (hq : Fresh q) : Fresh (if c then p else q) := by
  split
  · exact hp
  · exact hq

theorem unexpected : Fresh (Parse.unexpected : Parse α) := by
  intro ts _
  simp [Parse.unexpected]

theorem advance : Fresh Parse.advance := by
  intro ts hne
  rw [Parse.advance, Parse.advance, Tokens.advance_opened hne]

theorem eatWord {f : Bool → Parse β} (w : String) (hf : Fresh (f false)) : Fresh (Parse.eatWord w >>= f) := by
  intro ts hne
  rw [eatWord_bind, eatWord_bind, Tokens.isWord_opened, Tokens.advance_opened hne, hf ts hne]

theorem expect (m : Mark) : Fresh (Parse.expect m) := by
  intro ts hne
  simp only [Parse.expect, Tokens.isMark_opened, Tokens.advance_opened hne, unexpected ts hne]

theorem identifier : Fresh Parse.identifier := by
  intro ts hne
  simp only [Parse.identifier, Tokens.head?_opened, Tokens.advance_opened hne, unexpected ts hne]

open Rules

variable (r : Rules)

theorem primaryName (n : String) : Fresh (r.primaryName n) := by
  refine .ite (advance.bind _) (.ite (advance.bind _) (.ite (advance.bind _) (.ite (advance.bind _) ?_)))
  refine .ite (advance.bind _) (look (fun ts hne => ?_) fun _ => .ite (advance.bind _) (identifier.bind _))
  simp [Tokens.asyncFunctionAhead, Tokens.advance_opened hne]

theorem primary : Fresh r.primary := by
  refine look (fun ts _ => Tokens.head?_opened ts) fun l => ?_
  split
  all_goals first | exact advance.bind _ | exact primaryName r _ | exact unexpected

theorem unaryRule : Fresh r.unaryRule := by
  have hpostfixed : Fresh r.postfixed := (eatWord _ (primary r)).bind _
  refine look (fun ts _ => by simp [Tokens.unaryOp?]) fun op => ?_
  split
  · exact advance.bind _
  · refine eatWord _ (look (fun ts _ => by simp [Tokens.update?]) fun update => ?_)
    split
    · exact advance.bind _
    · exact hpostfixed

theorem arrowFunction : Fresh r.arrowFunction := by
  refine look (fun ts _ => Tokens.isMark_opened _) fun group => ?_
  extract_lets rest
  exact .ite (((expect _).bind _).bind _) ((identifier.bind _).bind _)

theorem assignmentRule : Fresh r.assignmentRule := by
  have hplain : Fresh r.plainAssignment := (((unaryRule r).bind _).bind _).bind _
  refine look (fun ts hne => ?_) fun _ => .ite (advance.bind _) ?_
  · simp [Tokens.asyncArrowAhead, Tokens.advance_opened hne]
  · exact look (fun ts hne => Tokens.arrowAhead_opened hne) fun _ => .ite (arrowFunction r) hplain

theorem statementRule : Fresh r.statementRule := by
  have hexpression : Fresh r.expressionStatement := ((assignmentRule r).bind _).bind _
  refine look (fun ts _ => Tokens.head?_opened ts) fun l => ?_
  split
  · exact advance.bind _
  · exact ((expect _).bind _).bind _
  · next word =>
    cases r.wordRule? word with
    | some rule => exact advance.bind _
    | none =>
      refine look (fun ts hne => ?_) fun _ => .ite (advance.bind _) hexpression
      simp [Tokens.asyncFunctionAhead, Tokens.advance_opened hne]
  · exact hexpression

end Fresh

end Parse

end Apiary
