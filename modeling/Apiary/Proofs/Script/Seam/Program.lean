import Apiary.Proofs.Script.Seam.Statement
import Mathlib.Algebra.GroupWithZero.Nat
import Mathlib.Data.List.Chain

/-!
Programs that are read as one text. The statements are those of each in turn, if none of them goes on with the one
before it.
-/

namespace Apiary

namespace Seam

open Parse Rules

variable {r : Rules} {n m : Nat} {p q : Program} {ts us vs : Tokens}

/-- A program is empty, or its first statement is read and then the rest. -/
theorem program_eq_ok (h : r.program (n + 1) ts = .ok (p, us)) :
    (ts.ahead = [] ∧ p = [] ∧ us = ts) ∨
      (ts.ahead ≠ [] ∧ ∃ st vs rest, r.statement ts = .ok (st, vs) ∧ r.program n vs = .ok (rest, us) ∧ p = st :: rest) := by
  obtain ⟨_, _, hend, h⟩ := bind_eq_ok.mp h
  cases hend
  split at h
  · next hend =>
    cases h
    exact .inl ⟨List.isEmpty_iff.mp hend, rfl, rfl⟩
  · next hend =>
    obtain ⟨st, vs, hst, h⟩ := bind_eq_ok.mp h
    obtain ⟨rest, ws, hrest, h⟩ := bind_eq_ok.mp h
    cases h
    exact .inr ⟨fun hnil => hend (List.isEmpty_iff.mpr hnil), st, vs, rest, hst, hrest, rfl⟩

theorem program_cons {st : Stmt} (hne : ts.ahead ≠ []) (hst : r.statement ts = .ok (st, vs))
    (hrest : r.program n vs = .ok (p, us)) : r.program (n + 1) ts = .ok (st :: p, us) := by
  have hend : ts.atEnd = false := by simpa [Tokens.atEnd] using hne
  rw [Rules.program, if_look_neg hend, bind_of_ok hst, bind_of_ok hrest, pure_apply]

theorem program_end (hnil : ts.ahead = []) (n : Nat) : r.program (n + 1) ts = .ok ([], ts) := by
  rw [Rules.program, if_look_pos (by simp [Tokens.atEnd, hnil]), pure_apply]

theorem program_mono (h : r.program n ts = .ok (p, us)) (hle : n ≤ m) : r.program m ts = .ok (p, us) := by
  induction n generalizing m ts p with
  | zero => cases h
  | succ n ih =>
    obtain ⟨m, rfl⟩ : ∃ j, m = j + 1 := ⟨m - 1, by omega⟩
    rcases program_eq_ok h with ⟨hnil, rfl, rfl⟩ | ⟨hne, st, vs, rest, hst, hrest, rfl⟩
    · exact program_end hnil m
    · exact program_cons hne hst (ih hrest (by omega))

theorem program_opened (h : (level m).program n ts = .ok (p, us)) :
    ∃ vs, (level m).program n ts.opened = .ok (p, vs) := by
  cases n with
  | zero => cases h
  | succ n =>
    rcases program_eq_ok h with ⟨hnil, rfl, rfl⟩ | ⟨hne, st, vs, rest, hst, hrest, rfl⟩
    · exact ⟨_, program_end (by simp [Tokens.opened, hnil]) n⟩
    · have hopened : ts.opened.ahead ≠ [] := by
        obtain ⟨_ | ⟨t, rest⟩, _, _⟩ := ts
        · exact absurd rfl hne
        · simp [Tokens.opened]
      cases m with
      | zero => cases hst
      | succ m => exact ⟨us, program_cons hopened ((Fresh.statementRule _ ts hne).trans hst) hrest⟩

variable {s : Seam}

/-- A program closes the groups that it opens. -/
theorem StaysAll.grouped (h : s.StaysAll r) (hp : r.program n ts = .ok (p, us)) : ts.Grouped := by
  suffices hgroups : openGroups 0 ts.ahead = some 0 from ⟨0, hgroups⟩
  induction n generalizing ts p with
  | zero => cases hp
  | succ n ih =>
    rcases program_eq_ok hp with ⟨hnil, -, -⟩ | ⟨-, st, vs, rest, hst, hrest, -⟩
    · rw [hnil]
      rfl
    · obtain ⟨read, hread, hgroups⟩ := (h.statement ts).reads hst
      have hfirst : openGroups 0 read = some 0 := hgroups 0
      rw [hread, openGroups_append, hfirst, Option.bind_some, ih hrest]

/-- The program before the seam, and then the one after it. -/
theorem StaysAll.program (h : s.StaysAll r) (hp : r.program n ts = .ok (p, us)) (hq : r.program m s.next = .ok (q, vs))
    (hlast : ts.EndsIn s.last) (hended : ∀ st ∈ p.getLast?, s.Ended st) :
    r.program (n + m) (ts.extend s.next) = .ok (p ++ q, vs) := by
  induction n generalizing ts p with
  | zero => cases hp
  | succ n ih =>
    have hgroups := h.grouped hp
    rcases program_eq_ok hp with ⟨hnil, rfl, -⟩ | ⟨hne, st, ws, rest, hst, hrest, rfl⟩
    · rw [Tokens.extend_nil hnil]
      exact program_mono hq (by omega)
    have hlater : (ts.extend s.next).ahead ≠ [] := by simp [Tokens.extend, hne]
    rw [Nat.add_right_comm, List.cons_append]
    by_cases hws : ws.ahead = []
    · -- the last statement, after which nothing is left of the script
      obtain rfl : rest = [] := by
        cases n with
        | zero => cases hrest
        | succ n =>
          rw [program_end hws] at hrest
          cases hrest
          rfl
      have hsame := (h.statement ts).same hst hlast hgroups fun _ => hended st rfl
      rw [Tokens.extend_nil hws] at hsame
      exact program_cons hlater hsame (program_mono hq (by omega))
    · obtain ⟨read, hread, -⟩ := (h.statement ts).reads hst
      have hsame := (h.statement ts).same hst hlast hgroups fun hnil => absurd hnil hws
      refine program_cons hlater hsame (ih hrest (hlast.suffix hread hws) fun st' hst' => hended st' ?_)
      cases rest with
      | nil => cases hst'
      | cons => simpa using hst'

end Seam

namespace Lexeme

instance (l : Lexeme) (m : Mark) : Decidable (l = .mark m) :=
  match l with
  | .mark m' => decidable_of_iff (m' = m) (by rw [Lexeme.mark.injEq])
  | .number _ | .string _ | .template _ | .name _ => .isFalse nofun

instance (l : Lexeme) (w : String) : Decidable (l = .name w) :=
  match l with
  | .name w' => decidable_of_iff (w' = w) (by rw [Lexeme.name.injEq])
  | .number _ | .string _ | .template _ | .mark _ => .isFalse nofun

end Lexeme

namespace Tokens

variable {ts us : Tokens}

theorem newline_opened (ts : Tokens) : ts.opened.newline = true := by
  obtain ⟨_ | ⟨t, rest⟩, _, _⟩ := ts <;> rfl

/-- The tokens of texts that stand one after another, each after a line break. -/
def joined : Tokens → List Tokens → Tokens
  | ts, [] => ts
  | ts, us :: rest => ts.extend (joined us rest).opened

theorem lexemes_opened (ts : Tokens) : ts.opened.ahead.map Token.lexeme = ts.ahead.map Token.lexeme := by
  obtain ⟨_ | ⟨t, rest⟩, _, _⟩ := ts <;> rfl

theorem lexemes_joined (ts : Tokens) (rest : List Tokens) :
    (ts.joined rest).ahead.map Token.lexeme = (ts :: rest).flatMap fun us => us.ahead.map Token.lexeme := by
  induction rest generalizing ts with
  | nil => simp [joined]
  | cons us rest ih => rw [joined, extend, List.map_append, lexemes_opened, ih, List.flatMap_cons, List.flatMap_cons,
      List.flatMap_cons]

/-- What comes next goes on neither with the last statement of a program nor with a last word that says it is async. -/
structure Apart (p : Program) (ts next : Tokens) : Prop where
  ended : (∃ t ∈ ts.ahead.getLast?, t.lexeme = .mark .semicolon) ∨
    ∀ st ∈ p.getLast?, ∀ m ∈ st.continuedBy, next.isMark m = false
  async : (∃ t ∈ ts.ahead.getLast?, t.lexeme = .name "async") → next.isName = false ∧ next.isMark .parenOpen = false

instance (p : Program) (ts next : Tokens) : Decidable (ts.Apart p next) :=
  decidable_of_iff (((∃ t ∈ ts.ahead.getLast?, t.lexeme = .mark .semicolon) ∨
      ∀ st ∈ p.getLast?, ∀ m ∈ st.continuedBy, next.isMark m = false) ∧
    ((∃ t ∈ ts.ahead.getLast?, t.lexeme = .name "async") → next.isName = false ∧ next.isMark .parenOpen = false))
    ⟨fun h => ⟨h.1, h.2⟩, fun h => ⟨h.ended, h.async⟩⟩

theorem Apart.of_end {p : Program} {next : Tokens} (h : next.head? = none) : ts.Apart p next where
  ended := .inr fun _ _ _ _ => by simp [isMark, h]
  async _ := by simp [isName, isMark, h]

theorem Apart.of_head {p : Program} {next : Tokens} (h : ts.Apart p us) (hhead : next.head? = us.head?) :
    ts.Apart p next where
  ended := by simpa [isMark, hhead] using h.ended
  async := by simpa [isName, isMark, hhead] using h.async

end Tokens

namespace Seam

open Parse Rules

/-- The seam after tokens, of which there is one at least. -/
theorem exists_seam {p : Program} {ts next : Tokens} (hne : ts.ahead ≠ []) (hstarts : ∀ l ∈ next.head?, l.starts = true)
    (hapart : ts.Apart p next) :
    ∃ s : Seam, s.next = next.opened ∧ ts.EndsIn s.last ∧ ∀ st ∈ p.getLast?, s.Ended st := by
  obtain ⟨t, ht⟩ : ∃ t, ts.ahead.getLast? = some t := ⟨_, List.getLast?_eq_some_getLast hne⟩
  refine ⟨⟨t.lexeme, next.opened, next.newline_opened, by simpa using hstarts, fun hasync => ?_⟩, rfl, ?_, ?_⟩
  · simpa [Tokens.isName] using hapart.async ⟨t, ht, hasync⟩
  · simp [Tokens.EndsIn, ht]
  · intro st hst
    rcases hapart.ended with ⟨t', ht', hsemicolon⟩ | hnext
    · obtain rfl := Option.some.inj (ht.symm.trans ht')
      exact .inl hsemicolon
    · exact .inr fun m hm => by simpa using hnext st hst m hm

theorem starts_of_program {ts us : Tokens} {p : Program} {m n : Nat} (h : (level m).program n ts = .ok (p, us)) :
    ∀ l ∈ ts.head?, l.starts = true := by
  intro l hl
  by_contra hstarts
  have hstuck : ts.Stuck := by
    intro l' hl'
    rw [← Option.some.inj (hl.symm.trans hl')]
    exact Bool.eq_false_iff.mpr hstarts
  cases n with
  | zero => cases h
  | succ n =>
    rcases program_eq_ok h with ⟨hnil, -, -⟩ | ⟨-, st, vs, -, hst, -, -⟩
    · exact Tokens.ne_nil_of_head hl hnil
    · cases m with
      | zero => cases hst
      | succ m => exact hstuck.statementRule _ _ hst

/-- One program after another. -/
theorem program_extend {m n k : Nat} {ts next us vs : Tokens} {p q : Program} (hp : (level m).program n ts = .ok (p, us))
    (hq : (level m).program k next = .ok (q, vs)) (hapart : ts.ahead ≠ [] → ts.Apart p next) :
    ∃ ws, (level m).program (n + k) (ts.extend next.opened) = .ok (p ++ q, ws) := by
  obtain ⟨ws, hws⟩ := program_opened hq
  refine ⟨ws, ?_⟩
  by_cases hnil : ts.ahead = []
  · have hnone : p = [] := by
      have hagain := program_mono hp (Nat.le_succ _)
      rw [program_end hnil] at hagain
      exact (congrArg Prod.fst (Except.ok.inj hagain)).symm
    rw [Tokens.extend_nil hnil, hnone]
    exact program_mono hws (Nat.le_add_left k n)
  · obtain ⟨s, hnext, hlast, hended⟩ := exists_seam hnil (starts_of_program hq) (hapart hnil)
    rw [← hnext] at hws ⊢
    exact (staysAll_level s m).program hp hws hlast hended

section Joined

variable {α : Type} {tokens : α → Tokens} {programs : α → Program} {fuel : α → Nat} {n : Nat} {x : α} {xs : List α}

/-- What comes first in joined tokens is the first token there is. -/
theorem head?_joined (x : α) (xs : List α) : ((tokens x).joined (xs.map tokens)).head? =
    ((x :: xs).find? fun y => !(tokens y).atEnd).bind fun y => (tokens y).head? := by
  have hhead {ts : Tokens} : ts.head? = (if !ts.atEnd then some ts else none).bind Tokens.head? := by
    obtain ⟨_ | ⟨t, rest⟩, _, _⟩ := ts <;> rfl
  induction xs generalizing x with
  | nil =>
    rw [List.find?_cons, List.find?_nil]
    cases h : (tokens x).atEnd with
    | false => rfl
    | true =>
      rw [List.map_nil, Tokens.joined, hhead, h]
      rfl
  | cons y ys ih =>
    rw [List.map_cons, Tokens.joined, List.find?_cons]
    cases h : (tokens x).atEnd with
    | false =>
      rw [Tokens.head?_extend (by simpa [Tokens.atEnd] using h)]
      rfl
    | true =>
      rw [Tokens.extend_nil (by simpa [Tokens.atEnd] using h), Tokens.head?_opened, ih]
      rfl

/-- The statements of joined programs. -/
theorem program_joined {m : Nat} (h : ∀ y ∈ x :: xs, ∃ us, (level m).program (fuel y) (tokens y) = .ok (programs y, us))
    (hapart : ((x :: xs).filter fun y => !(tokens y).atEnd).IsChain fun y z =>
      (tokens y).Apart (programs y) (tokens z)) :
    ∃ us, (level m).program ((x :: xs).map fuel).sum ((tokens x).joined (xs.map tokens)) =
      .ok ((x :: xs).flatMap programs, us) := by
  induction xs generalizing x with
  | nil =>
    obtain ⟨us, hus⟩ := h x List.mem_cons_self
    exact ⟨us, by simpa [Tokens.joined] using hus⟩
  | cons y ys ih =>
    obtain ⟨⟨us, hus⟩, hlater⟩ := List.forall_mem_cons.mp h
    have hchain : ((y :: ys).filter fun z => !(tokens z).atEnd).IsChain fun z z' =>
        (tokens z).Apart (programs z) (tokens z') := by
      rw [List.filter_cons] at hapart
      split at hapart
      · exact (List.isChain_cons.mp hapart).2
      · exact hapart
    obtain ⟨vs, hvs⟩ := ih hlater hchain
    rw [List.map_cons, List.sum_cons, List.flatMap_cons]
    refine program_extend hus hvs fun hne => ?_
    -- the first of the later tokens is that of the first script that has any
    rw [List.filter_cons, if_pos (by simpa [Tokens.atEnd] using hne), List.isChain_cons, List.head?_filter] at hapart
    cases hfirst : (y :: ys).find? fun z => !(tokens z).atEnd with
    | none => exact .of_end (by rw [head?_joined, hfirst]; rfl)
    | some z => exact (hapart.1 z hfirst).of_head (by rw [head?_joined, hfirst]; rfl)

end Joined

end Seam

end Apiary
