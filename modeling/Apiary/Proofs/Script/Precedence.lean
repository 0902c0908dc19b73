import Apiary.Proofs.Script.Rendering

/-!
Operators between operands of one token. Such a run is read as the one tree that stands in the order of the run and
whose operators get tighter downwards: strictly to the right, for powers strictly to the left.
-/

namespace Apiary

open Rules Parse

/-- A number, a string or a name that is no keyword, with the tree that it stands for. -/
def Lexeme.operand? : Lexeme → Option Expr
  | .number x => some (.number x)
  | .string s => some (.string s)
  | .name n =>
    if isReserved n || n = "await" then none else if n = "undefined" then some .undefined else some (.name n)
  | _ => none

inductive OperatorRun : List Lexeme → Prop
  | operand {l : Lexeme} {e : Expr} : l.operand? = some e → OperatorRun [l]
  | operation {l : Lexeme} {e : Expr} {m : Mark} {p : Nat} {op : Operator} {ls : List Lexeme} :
    l.operand? = some e → m.operator? = some (p, op) → OperatorRun ls → OperatorRun (l :: .mark m :: ls)

namespace Expr

/-- Operations on operands, with their lexemes from left to right. -/
inductive InOrder : Expr → List Lexeme → Prop
  | operand {l : Lexeme} {e : Expr} : l.operand? = some e → InOrder e [l]
  | operation {m : Mark} {p : Nat} {o : Operator} {left right : Expr} {ls rs : List Lexeme} :
    m.operator? = some (p, o) → InOrder left ls → InOrder right rs →
    InOrder (o.apply left right) (ls ++ .mark m :: rs)

/-- The precedence of the operator at the root; no operator is as tight as an operand. -/
def tightness : Expr → Nat
  | .binary op _ _ => (op.mark.operator?.map (·.1)).getD 0
  | .logical op _ _ => (op.mark.operator?.map (·.1)).getD 0
  | _ => powerPrecedence + 1

end Expr

def Between (p : Nat) (left right : Expr) : Prop :=
  if p = powerPrecedence then p < left.tightness ∧ p ≤ right.tightness
  else p ≤ left.tightness ∧ p < right.tightness

instance (p : Nat) (left right : Expr) : Decidable (Between p left right) :=
  inferInstanceAs (Decidable (if p = powerPrecedence then p < left.tightness ∧ p ≤ right.tightness
    else p ≤ left.tightness ∧ p < right.tightness))

inductive Expr.Grouped : Expr → Prop
  | operand {l : Lexeme} {e : Expr} : l.operand? = some e → Grouped e
  | operation {m : Mark} {p : Nat} {o : Operator} {left right : Expr} : m.operator? = some (p, o) →
    Grouped left → Grouped right → Between p left right → Grouped (o.apply left right)

theorem Mark.operator?_tightness {m : Mark} {p : Nat} {op : Operator} (h : m.operator? = some (p, op))
    (left right : Expr) : (op.apply left right).tightness = p := by
  cases m <;> cases h <;> rfl

theorem Mark.operator?_bound {m : Mark} {p : Nat} {op : Operator} (h : m.operator? = some (p, op)) :
    p ≤ powerPrecedence := by
  cases m <;> cases h <;> decide

theorem Operator.apply_inj {op op' : Operator} {l l' r r' : Expr} (h : op.apply l r = op'.apply l' r') :
    op = op' ∧ l = l' ∧ r = r' := by
  cases op <;> cases op' <;> cases h <;> exact ⟨rfl, rfl, rfl⟩

theorem Lexeme.operand?_ne_apply {l : Lexeme} (o : Operator) {left right : Expr} :
    l.operand? ≠ some (o.apply left right) := by
  intro h
  cases l with
  | name n =>
    simp only [operand?] at h
    split at h
    · cases h
    · split at h <;> cases o <;> cases h
  | _ => cases o <;> cases h

theorem Lexeme.operand?_tightness {l : Lexeme} {e : Expr} (h : l.operand? = some e) :
    e.tightness = powerPrecedence + 1 := by
  cases e with
  | binary op left right => exact absurd h (Lexeme.operand?_ne_apply (.binary op))
  | logical op left right => exact absurd h (Lexeme.operand?_ne_apply (.logical op))
  | _ => rfl

theorem Expr.Grouped.sides {m : Mark} {p : Nat} {op : Operator} {left right : Expr} (hm : m.operator? = some (p, op))
    (h : (op.apply left right).Grouped) : left.Grouped ∧ right.Grouped ∧ Between p left right := by
  generalize he : op.apply left right = e at h
  cases h with
  | operand ho => exact absurd (he ▸ ho) (Lexeme.operand?_ne_apply op)
  | operation hm' hl hr hbetween =>
    obtain ⟨rfl, rfl, rfl⟩ := Operator.apply_inj he
    have hp := (Mark.operator?_tightness hm left right).symm.trans (Mark.operator?_tightness hm' left right)
    exact ⟨hl, hr, hp ▸ hbetween⟩

theorem Expr.InOrder.ne_nil {e : Expr} {ls : List Lexeme} (h : e.InOrder ls) : ls ≠ [] := by
  cases h <;> simp

theorem Expr.InOrder.tightness_le {e : Expr} {ls : List Lexeme} (h : e.InOrder ls) (hg : e.Grouped) {m : Mark} {p : Nat}
    {op : Operator} (hm : m.operator? = some (p, op)) (hmem : .mark m ∈ ls) : e.tightness ≤ p := by
  induction h with
  | operand ho =>
    rw [← List.mem_singleton.mp hmem] at ho
    cases ho
  | @operation m' p' op' left right ls rs hm' _ _ ihl ihr =>
    obtain ⟨hl, hr, hbetween⟩ := Grouped.sides hm' hg
    have hsides : p' ≤ left.tightness ∧ p' ≤ right.tightness := by
      unfold Between at hbetween
      split at hbetween <;> omega
    rw [Mark.operator?_tightness hm']
    rcases List.mem_append.mp hmem with hmem | hmem
    · exact Nat.le_trans hsides.1 (ihl hl hmem)
    · rcases List.mem_cons.mp hmem with heq | hmem
      · cases heq
        rw [hm'] at hm
        cases hm
        exact Nat.le_refl _
      · exact Nat.le_trans hsides.2 (ihr hr hmem)

/-- Two operators cannot each stand at the root of a grouped tree that has the other one further in, to its left in
one of the trees and to its right in the other. -/
theorem Between.not_both {p p' : Nat} {left right left' right' : Expr} (h : Between p left right)
    (h' : Between p' left' right') (hp : p ≤ powerPrecedence) (hleft : left.tightness ≤ p')
    (hright : right'.tightness ≤ p) : False := by
  unfold Between at h h'
  split at h <;> split at h' <;> omega

theorem cut_at_two {α : Type} {ls ls' rs rs' : List α} {x y : α} (h : ls ++ x :: rs = ls' ++ y :: rs') :
    (ls = ls' ∧ x = y ∧ rs = rs') ∨ (x ∈ ls' ∧ y ∈ rs) ∨ (y ∈ ls ∧ x ∈ rs') := by
  rcases List.append_eq_append_iff.mp h with ⟨mid, hleft, hright⟩ | ⟨mid, hleft, hright⟩
  · cases mid with
    | nil =>
      cases hright
      exact .inl ⟨by simp [hleft], rfl, rfl⟩
    | cons z mid =>
      cases hright
      exact .inr (.inl ⟨by simp [hleft], by simp⟩)
  · cases mid with
    | nil =>
      cases hright
      exact .inl ⟨by simp [hleft], rfl, rfl⟩
    | cons z mid =>
      cases hright
      exact .inr (.inr ⟨by simp [hleft], by simp⟩)

theorem Expr.InOrder.unique {e e' : Expr} {ls : List Lexeme} (h : e.InOrder ls) (h' : e'.InOrder ls) (hg : e.Grouped)
    (hg' : e'.Grouped) : e = e' := by
  induction h generalizing e' with
  | @operand l e ho =>
    generalize hks : [l] = ks at h'
    cases h' with
    | operand ho' =>
      cases hks
      exact Option.some.inj (ho.symm.trans ho')
    | operation _ hl _ =>
      have hlength := congrArg List.length hks
      have := List.length_pos_of_ne_nil hl.ne_nil
      simp at hlength
      omega
  | @operation m p op left right ls rs hm hl hr ihl ihr =>
    obtain ⟨hgl, hgr, hbetween⟩ := Grouped.sides hm hg
    generalize hks : ls ++ .mark m :: rs = ks at h'
    cases h' with
    | operand ho =>
      have hlength := congrArg List.length hks
      have := List.length_pos_of_ne_nil hl.ne_nil
      simp at hlength
      omega
    | @operation m' p' op' left' right' ls' rs' hm' hl' hr' =>
      obtain ⟨hgl', hgr', hbetween'⟩ := Grouped.sides hm' hg'
      -- Two different roots would each lie within a side of the other one.
      rcases cut_at_two hks with ⟨rfl, hmark, rfl⟩ | ⟨hin, hin'⟩ | ⟨hin, hin'⟩
      · cases hmark
        rw [hm] at hm'
        cases hm'
        rw [ihl hl' hgl hgl', ihr hr' hgr hgr']
      · have hleft := hl'.tightness_le hgl' hm hin
        have hright := hr.tightness_le hgr hm' hin'
        exact (hbetween'.not_both hbetween (Mark.operator?_bound hm') hleft hright).elim
      · have hleft := hl.tightness_le hgl hm' hin
        have hright := hr'.tightness_le hgr' hm hin'
        exact (hbetween.not_both hbetween' (Mark.operator?_bound hm) hleft hright).elim

namespace Tokens

variable {ts us : Tokens} {l : Lexeme} {ls : List Lexeme}

/-- `ts` goes on with `ls`, on any lines, and then with `us`. -/
def Starts (ts : Tokens) (ls : List Lexeme) (us : Tokens) : Prop :=
  ∃ read : List Token, read.map (·.lexeme) = ls ∧ ts = { us with ahead := read ++ us.ahead }

theorem Starts.nil (h : ts.Starts [] us) : ts = us := by
  obtain ⟨read, hread, rfl⟩ := h
  rw [List.map_eq_nil_iff.mp hread]
  rfl

theorem Starts.head? (h : ts.Starts (l :: ls) us) : ts.head? = some l := by
  obtain ⟨read, hread, rfl⟩ := h
  obtain ⟨k, read, rfl, rfl, rfl⟩ := List.map_eq_cons_iff.mp hread
  rfl

theorem Starts.advance (h : ts.Starts (l :: ls) us) : ts.advance.Starts ls us := by
  obtain ⟨read, hread, rfl⟩ := h
  obtain ⟨k, read, rfl, rfl, rfl⟩ := List.map_eq_cons_iff.mp hread
  exact ⟨read, rfl, rfl⟩

/-- Nothing here goes on with the operand `l`: no access, no update on its line; `async` is no name before the word
`function`. -/
structure Leaves (l : Lexeme) (us : Tokens) : Prop where
  access : us.Ends 1
  update : us.newline = true ∨ us.update? = none
  function : l = .name "async" → us.isWord "function" = false

theorem leaves_operator {m : Mark} {p : Nat} {op : Operator} (h : us.head? = some (.mark m))
    (hm : m.operator? = some (p, op)) : us.Leaves l := by
  have hrank := (Mark.rank_operator hm).1
  have hends : us.Ends 2 := Ends.of_head h (by omega)
  exact ⟨hends.mono (by decide), .inr hends.update?, fun _ => isWord_of_head h (by simp)⟩

end Tokens

theorem not_word_of_operand {n w : String} {e : Expr} (h : (Lexeme.name n).operand? = some e)
    (hw : isReserved w = true ∨ w = "await") : n ≠ w := by
  rintro rfl
  simp only [Lexeme.operand?] at h
  rcases hw with hw | rfl
  · simp [hw] at h
  · simp at h

theorem primary_operand {l : Lexeme} {e : Expr} {ts : Tokens} (ho : l.operand? = some e) (hl : ts.head? = some l)
    (hend : ts.advance.Leaves l) (r : Rules) : r.primary ts = .ok (e, ts.advance) := by
  rw [Rules.primary, look_bind, hl]
  cases l with
  | number x =>
    cases ho
    rfl
  | string s =>
    cases ho
    rfl
  | name n =>
    have hword (w : String) (hw : isReserved w = true) : n ≠ w := not_word_of_operand ho (.inl hw)
    dsimp only
    rw [Rules.primaryName, if_neg (hword "true" (by decide)), if_neg (hword "false" (by decide)),
      if_neg (hword "null" (by decide))]
    simp only [Lexeme.operand?] at ho
    split at ho
    · cases ho
    · next hfree =>
      simp only [Bool.or_eq_true, decide_eq_true_eq, not_or, Bool.not_eq_true] at hfree
      split at ho
      · next hundefined =>
        cases ho
        rw [if_pos hundefined]
        rfl
      · next hundefined =>
        cases ho
        have hasync : ts.asyncFunctionAhead = false := by
          by_cases hn : n = "async"
          · simp [Tokens.asyncFunctionAhead, hend.function (by rw [hn])]
          · simp [Tokens.asyncFunctionAhead, Tokens.isWord_of_head hl (w := "async") (by simpa using hn)]
        have hid : identifier ts = .ok (n, ts.advance) := by simp [identifier, hl, hfree.1]
        rw [if_neg hundefined, if_neg (hword "function" (by decide)), if_look_neg hasync]
        exact bind_of_ok hid
  | _ => cases ho

theorem unaryRule_operand {l : Lexeme} {e : Expr} {ts : Tokens} (ho : l.operand? = some e) (hl : ts.head? = some l)
    (hend : ts.advance.Leaves l) (n : Nat) : (level (n + 1)).unaryRule ts = .ok (e, ts.advance) := by
  have hword (w : String) (hw : isReserved w = true ∨ w = "await") : l ≠ .name w := by
    rintro rfl
    exact not_word_of_operand ho hw rfl
  have hunary : ts.unaryOp? = none := by
    unfold Tokens.unaryOp?
    rw [hl]
    cases l with
    | name n =>
      have htypeof := not_word_of_operand ho (w := "typeof") (.inl (by decide))
      have hvoid := not_word_of_operand ho (w := "void") (.inl (by decide))
      simp [htypeof, hvoid]
    | mark m => cases ho
    | _ => rfl
  have hupdate : ts.update? = none := by
    unfold Tokens.update?
    rw [hl]
    cases l with
    | mark m => cases ho
    | _ => rfl
  have hawait := Tokens.isWord_of_head hl (hword "await" (.inr rfl))
  have hnew := Tokens.isWord_of_head hl (hword "new" (.inl (by decide)))
  have hafter : (if ts.advance.newline then none else ts.advance.update?) = none := by
    rcases hend.update with hnewline | hnone
    · rw [if_pos hnewline]
    · rw [hnone, ite_self]
  rw [Rules.unaryRule, look_bind, hunary]
  dsimp only
  rw [if_eatWord_neg hawait, look_bind, hupdate]
  dsimp only
  rw [Rules.postfixed, Rules.newOrPrimary]
  rw [bind_of_ok (by rw [if_eatWord_neg hnew]; exact primary_operand ho hl hend _), level_fuel,
    bind_of_ok (accesses_done hend.access _), look_bind, hafter]
  rfl

inductive OperatorTail : List Lexeme → Prop
  | nil : OperatorTail []
  | operation {m : Mark} {p : Nat} {op : Operator} {ls : List Lexeme} :
    m.operator? = some (p, op) → OperatorRun ls → OperatorTail (.mark m :: ls)

theorem OperatorRun.first {ls : List Lexeme} (h : OperatorRun ls) :
    ∃ l e rest, ls = l :: rest ∧ l.operand? = some e ∧ OperatorTail rest := by
  cases h with
  | operand ho => exact ⟨_, _, [], rfl, ho, .nil⟩
  | operation ho hm hrun => exact ⟨_, _, _, rfl, ho, .operation hm hrun⟩

def Tokens.EndsRun (us : Tokens) (ls : List Lexeme) : Prop := ∀ l ∈ ls.getLast?, us.Leaves l

theorem Tokens.EndsRun.of_append {us : Tokens} (ls : List Lexeme) {ms : List Lexeme} (h : us.EndsRun (ls ++ ms)) :
    us.EndsRun ms := by
  intro l hl
  refine h l ?_
  rw [List.getLast?_append, hl]
  rfl

def Weaker (least : Nat) (ls : List Lexeme) : Prop :=
  ∀ (m : Mark) (p : Nat) (op : Operator), ls.head? = some (.mark m) → m.operator? = some (p, op) → p < least

def Follows (left : Expr) (ls : List Lexeme) : Prop :=
  ∀ (m : Mark) (p : Nat) (op : Operator), ls.head? = some (.mark m) → m.operator? = some (p, op) →
    if p = powerPrecedence then p < left.tightness else p ≤ left.tightness

theorem Follows.of_weaker {m : Mark} {p : Nat} {op : Operator} {left right : Expr} {ls : List Lexeme}
    (hm : m.operator? = some (p, op)) (h : Weaker (rightLeast p) ls) : Follows (op.apply left right) ls := by
  intro m' p' op' hhead hm'
  have hlt := h m' p' op' hhead hm'
  have hbound := Mark.operator?_bound hm
  rw [Mark.operator?_tightness hm]
  unfold rightLeast at hlt
  split at hlt <;> split <;> omega

/-- What climbing from a least precedence leaves of a run: a grouped tree of the part before the first weaker
operator, and the rest. -/
structure Climbed (us : Tokens) (least : Nat) (ls : List Lexeme) (e : Expr) (vs : Tokens) : Prop where
  grouped : e.Grouped
  tight : least ≤ e.tightness
  split : ∃ taken rest, ls = taken ++ rest ∧ e.InOrder taken ∧ OperatorTail rest ∧ vs.Starts rest us ∧ Weaker least rest

section

variable {us : Tokens} {least : Nat}

theorem operators_climb (hstop : us.operator? = none) {n : Nat} (bound : Nat)
    (hright : ∀ {least : Nat} {ls : List Lexeme} {ts : Tokens}, OperatorRun ls → ts.Starts ls us → us.EndsRun ls →
      ls.length < bound → least ≤ powerPrecedence →
      ∃ e vs, (level n).binary least ts = .ok (e, vs) ∧ Climbed us least ls e vs)
    {k : Nat} {left : Expr} (taken : List Lexeme) {ls : List Lexeme} {ts : Tokens} (hrun : OperatorTail ls) (hts : ts.Starts ls us)
    (hend : us.EndsRun ls) (hk : ls.length < k) (hbound : ls.length ≤ bound) (hleft : left.InOrder taken)
    (hgrouped : left.Grouped) (htight : least ≤ left.tightness) (hnext : Follows left ls) :
    ∃ e vs, (level n).operators least k left ts = .ok (e, vs) ∧ Climbed us least (taken ++ ls) e vs := by
  -- On the rounds of the loop: `left` stands for `taken`, and a round adds an operator and its right side to both.
  induction k generalizing left taken ls ts with
  | zero => omega
  | succ k ih =>
    cases hrun with
    | nil =>
      cases hts.nil
      refine ⟨left, us, ?_, hgrouped, htight, taken, [], rfl, hleft, .nil, hts, fun _ _ _ hhead => by cases hhead⟩
      rw [Rules.operators, look_bind, hstop]
      rfl
    | @operation m p op ls hm hrun =>
      have hop : ts.operator? = some (p, op) := by
        rw [Tokens.operator?, hts.head?]
        exact hm
      rw [Rules.operators, look_bind, hop]
      dsimp only
      by_cases hp : p < least
      · have hweaker : Weaker least (.mark m :: ls) := by
          intro m' p' op' hhead hm'
          cases hhead
          rw [hm] at hm'
          cases hm'
          exact hp
        rw [if_pos hp]
        exact ⟨left, ts, rfl, hgrouped, htight, taken, _, rfl, hleft, .operation hm hrun, hts, hweaker⟩
      · have hleast' : rightLeast p ≤ powerPrecedence := by
          have := Mark.operator?_bound hm
          unfold rightLeast
          split <;> omega
        have hfits := hnext m p op rfl hm
        obtain ⟨right, vs, hread, hgright, htright, inner, rest, rfl, hinner, htail, hvs, hweaker⟩ :=
          hright hrun hts.advance (hend.of_append [.mark m]) hbound hleast'
        have hbetween : Between p left right := by
          unfold Between
          unfold rightLeast at htright
          split at hfits
          · next hpower => rw [if_pos hpower] at htright ⊢; exact ⟨hfits, htright⟩
          · next hpower => rw [if_neg hpower] at htright ⊢; exact ⟨hfits, htright⟩
        have hlength : rest.length < k ∧ rest.length ≤ bound := by
          simp only [List.length_cons, List.length_append] at hk hbound
          omega
        rw [if_neg hp, advance_bind, bind_of_ok hread]
        have hroot : least ≤ (op.apply left right).tightness := by
          rw [Mark.operator?_tightness hm]
          omega
        obtain ⟨e, ws, hloop, hclimbed⟩ := ih _ htail hvs
          (hend.of_append (.mark m :: inner)) hlength.1 hlength.2 (.operation hm hleft hinner)
          (.operation hm hgrouped hgright hbetween) hroot (Follows.of_weaker hm hweaker)
        exact ⟨e, ws, hloop, by simpa using hclimbed⟩

theorem binaryRule_climb (hstop : us.operator? = none) {n : Nat} (hleast : least ≤ powerPrecedence) {ls : List Lexeme}
    {ts : Tokens} (hrun : OperatorRun ls) (hts : ts.Starts ls us) (hend : us.EndsRun ls) (hn : ls.length ≤ n) :
    ∃ e vs, (level n).binaryRule least ts = .ok (e, vs) ∧ Climbed us least ls e vs := by
  -- On the levels: right sides are read one level further in, and are shorter than the run.
  induction n generalizing least ls ts with
  | zero =>
    obtain ⟨l, e, rest, rfl, -, -⟩ := hrun.first
    simp at hn
  | succ n ih =>
    obtain ⟨l, e, rest, rfl, ho, htail⟩ := hrun.first
    have hadvance := hts.advance
    have hleaves : ts.advance.Leaves l := by
      cases htail with
      | nil =>
        rw [hadvance.nil]
        exact hend l rfl
      | operation hm _ => exact Tokens.leaves_operator hadvance.head? hm
    have htight := Lexeme.operand?_tightness ho
    have hfollows : Follows e rest := by
      intro m p op _ hm
      have := Mark.operator?_bound hm
      rw [htight]
      split <;> omega
    rw [Rules.binaryRule, bind_of_ok (unaryRule_operand ho hts.head? hleaves n), level_fuel]
    exact operators_climb hstop n (n := n + 1)
      (fun hrun hts hend hlength hleast => ih hleast hrun hts hend (Nat.le_of_lt hlength)) [l] htail hadvance
      (hend.of_append [l]) hn (by simpa using hn) (.operand ho) (.operand ho) (by omega) hfollows

end

theorem operators_grouped {ls : List Lexeme} (hrun : OperatorRun ls) {ts us : Tokens} (hts : ts.Starts ls us)
    (hstop : us.operator? = none) (hend : us.EndsRun ls) {n : Nat} (hn : ls.length ≤ n) :
    ∃ e, (level n).binaryRule 1 ts = .ok (e, us) ∧ e.InOrder ls ∧ e.Grouped ∧
      ∀ e' : Expr, e'.InOrder ls → e'.Grouped → e' = e := by
  obtain ⟨e, vs, hread, hgrouped, -, taken, rest, rfl, horder, htail, hvs, hweaker⟩ :=
    binaryRule_climb hstop (by decide : 1 ≤ powerPrecedence) hrun hts hend hn
  cases htail with
  | nil =>
    rw [List.append_nil] at hend ⊢
    rw [hvs.nil] at hread
    exact ⟨e, hread, horder, hgrouped, fun e' he' hg' => he'.unique horder hg' hgrouped⟩
  | operation hm _ =>
    have hlow := hweaker _ _ _ rfl hm
    have hhigh := (Mark.rank_operator hm).2
    omega

/-- Stands for `2 ** 3 ** x - "s" * 4`. -/
def sampleRun : List Lexeme :=
  [.number 2, .mark .power, .number 3, .mark .power, .name "x", .mark .minus, .string "s", .mark .star, .number 4]

def sampleRunTree : Expr :=
  .binary .sub (.binary .pow (.number 2) (.binary .pow (.number 3) (.name "x")))
    (.binary .mul (.string "s") (.number 4))

theorem sampleRun_grouped :
    OperatorRun sampleRun ∧
      (Tokens.ofLexemes (sampleRun ++ [.mark .parenClose])).Starts sampleRun (.ofLexemes [.mark .parenClose]) ∧
      (Tokens.ofLexemes [.mark .parenClose]).operator? = none ∧
      (Tokens.ofLexemes [.mark .parenClose]).EndsRun sampleRun ∧
      (level 9).binaryRule 1 (.ofLexemes (sampleRun ++ [.mark .parenClose])) =
        .ok (sampleRunTree, .ofLexemes [.mark .parenClose]) := by
  have number (x : Double) : (Lexeme.number x).operand? = some (.number x) := rfl
  have string (s : String) : (Lexeme.string s).operand? = some (.string s) := rfl
  have name : (Lexeme.name "x").operand? = some (.name "x") := by
    simp [Lexeme.operand?, isReserved, reservedWords]
  have run : OperatorRun sampleRun :=
    .operation (number 2) rfl (.operation (number 3) rfl (.operation name rfl
      (.operation (string "s") rfl (.operand (number 4)))))
  have starts :
      (Tokens.ofLexemes (sampleRun ++ [.mark .parenClose])).Starts sampleRun (.ofLexemes [.mark .parenClose]) :=
    ⟨(Tokens.ofLexemes sampleRun).ahead, rfl, rfl⟩
  have leaves : (Tokens.ofLexemes [.mark .parenClose]).EndsRun sampleRun := by
    intro l hl
    cases hl
    exact ⟨Tokens.Ends.of_head rfl (by decide), .inr rfl, fun h => by cases h⟩
  have order : sampleRunTree.InOrder sampleRun :=
    .operation (o := .binary .sub) (m := .minus) rfl
      (.operation (o := .binary .pow) (m := .power) rfl (.operand (number 2))
        (.operation (o := .binary .pow) (m := .power) rfl (.operand (number 3)) (.operand name)))
      (.operation (o := .binary .mul) (m := .star) rfl (.operand (string "s")) (.operand (number 4)))
  have grouped : sampleRunTree.Grouped :=
    .operation (o := .binary .sub) (m := .minus) rfl
      (.operation (o := .binary .pow) (m := .power) rfl (.operand (number 2))
        (.operation (o := .binary .pow) (m := .power) rfl (.operand (number 3)) (.operand name) (by decide))
        (by decide))
      (.operation (o := .binary .mul) (m := .star) rfl (.operand (string "s")) (.operand (number 4)) (by decide))
      (by decide)
  obtain ⟨e, hread, -, -, hunique⟩ := operators_grouped run starts rfl leaves (n := 9) (by decide)
  rw [← hunique _ order grouped] at hread
  exact ⟨run, starts, rfl, leaves, hread⟩

end Apiary
