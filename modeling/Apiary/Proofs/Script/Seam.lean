import Apiary.Proofs.Script.Start

/-!
Seams between scripts that are read as one text. A rule stays on its side of a seam: the tokens of the first script are
read in the same way, whatever comes after them, unless what comes next goes on with what stands last.
-/

namespace Apiary

/-- How many groups are open after a lexeme, of `depth` before it; none when it closes one and none is open. -/
def Lexeme.regroup : Lexeme → Nat → Option Nat
  | .mark .parenOpen, depth => some (depth + 1)
  | .mark .parenClose, 0 => none
  | .mark .parenClose, depth + 1 => some depth
  | _, depth => some depth

def openGroups (depth : Nat) (ks : List Token) : Option Nat := ks.foldlM (fun depth t => t.lexeme.regroup depth) depth

/-- Takes `i` open groups to `j` open ones, below any others. -/
def Lexeme.Shift (l : Lexeme) (i j : Nat) : Prop := ∀ d, l.regroup (d + i) = some (d + j)

namespace Lexeme

theorem shift_open (i : Nat) : (mark .parenOpen).Shift i (i + 1) := fun _ => rfl

theorem shift_close (i : Nat) : (mark .parenClose).Shift (i + 1) i := fun _ => rfl

theorem shift_mark {m : Mark} (h : m ≠ .parenOpen ∧ m ≠ .parenClose) (i : Nat) : (mark m).Shift i i := by
  intro d
  cases m
  case parenOpen => exact absurd rfl h.1
  case parenClose => exact absurd rfl h.2
  all_goals rfl

theorem shift_other {l : Lexeme} (h : ∀ m, l ≠ mark m) (i : Nat) : l.Shift i i := by
  intro d
  cases l
  case mark m => exact absurd rfl (h m)
  all_goals rfl

end Lexeme

theorem openGroups_append (d : Nat) (ks ls : List Token) :
    openGroups d (ks ++ ls) = (openGroups d ks).bind fun d => openGroups d ls := List.foldlM_append

theorem openGroups_cons (d : Nat) (t : Token) (ks : List Token) :
    openGroups d (t :: ks) = (t.lexeme.regroup d).bind fun d => openGroups d ks := List.foldlM_cons

/-- A group that is closed among the tokens is followed by the same, whatever comes after them. -/
theorem arrowAfterGroup_append {ks next : List Token} {d e : Nat} (h : openGroups d ks = some 0) (he : 0 < e) (hle : e ≤ d)
    (hnext : ∀ t ∈ next.head?, t.lexeme ≠ .mark .arrow) : arrowAfterGroup e (ks ++ next) = arrowAfterGroup e ks := by
  induction ks generalizing d e with
  | nil =>
    cases h
    omega
  | cons t ks ih =>
    rw [List.cons_append]
    unfold arrowAfterGroup
    rw [openGroups_cons] at h
    cases hl : t.lexeme with
    | mark m =>
      rw [hl] at h
      cases m with
      | parenOpen => exact ih h (Nat.succ_pos e) (Nat.succ_le_succ hle)
      | parenClose =>
        obtain ⟨d, rfl⟩ : ∃ j, d = j + 1 := ⟨d - 1, by omega⟩
        dsimp only at h ⊢
        split
        · cases ks with
          | nil =>
            cases next with
            | nil => rfl
            | cons t' next =>
              have harrow := hnext t' rfl
              simp only [List.nil_append, List.head?_cons, Option.map_some, List.head?_nil, Option.map_none]
              split
              · next heq => exact absurd (Option.some.inj heq) harrow
              · rfl
          | cons t' ks => rfl
        · exact ih h (by omega) (by omega)
      | _ => exact ih h he hle
    | _ =>
      rw [hl] at h
      exact ih h he hle

namespace Tokens

/-- The groups that are open before the tokens, and those that they open, are closed in the end. -/
def Grouped (ts : Tokens) : Prop := ∃ d, openGroups d ts.ahead = some 0

/-- Whatever is the last lexeme, there is something else than a semicolon at the end. -/
def EndsIn (l : Lexeme) (ts : Tokens) : Prop :=
  match ts.ahead.getLast? with
  | some t => t.lexeme = l
  | none => l ≠ .mark .semicolon

variable {ts us next : Tokens} {read : List Token} {l last : Lexeme}

theorem extend_nil (h : ts.ahead = []) : ts.extend next = next := by
  simp [extend, h]

theorem head?_extend (h : ts.ahead ≠ []) (next : Tokens) : (ts.extend next).head? = ts.head? := by
  simp [head?, extend, List.head?_append_of_ne_nil _ h]

theorem advance_extend (h : ts.ahead ≠ []) (next : Tokens) : (ts.extend next).advance = ts.advance.extend next := by
  simp [advance, extend, List.tail_append_of_ne_nil h]

theorem newline_extend (h : ts.ahead ≠ []) (next : Tokens) : (ts.extend next).newline = ts.newline := by
  obtain ⟨_ | ⟨t, rest⟩, _, _⟩ := ts
  · exact absurd rfl h
  · rfl

theorem isMark_extend (h : ts.ahead ≠ []) (next : Tokens) (m : Mark) : (ts.extend next).isMark m = ts.isMark m := by
  rw [isMark, isMark, head?_extend h]

theorem isWord_extend (h : ts.ahead ≠ []) (next : Tokens) (w : String) : (ts.extend next).isWord w = ts.isWord w := by
  rw [isWord, isWord, head?_extend h]

theorem atEnd_extend (h : ts.ahead ≠ []) (next : Tokens) : (ts.extend next).atEnd = ts.atEnd := by
  rw [atEnd, atEnd, List.isEmpty_eq_false_iff.mpr h, List.isEmpty_eq_false_iff]
  simp [extend, h]

theorem isName_extend (h : ts.ahead ≠ []) (next : Tokens) : (ts.extend next).isName = ts.isName := by
  rw [isName, isName, head?_extend h]

theorem ne_nil_of_head (h : ts.head? = some l) : ts.ahead ≠ [] := by
  intro hnil
  simp [head?, hnil] at h

theorem exists_of_head (h : ts.head? = some l) : ∃ t, ts.ahead = t :: ts.advance.ahead ∧ t.lexeme = l := by
  obtain ⟨t, ht, rfl⟩ := Option.map_eq_some_iff.mp h
  obtain ⟨rest, hrest⟩ := List.head?_eq_some_iff.mp ht
  exact ⟨t, by simp [advance, hrest], rfl⟩

theorem head?_of_end (h : ts.ahead = []) : ts.head? = none := by
  simp [head?, h]

theorem isMark_of_end (h : ts.ahead = []) (m : Mark) : ts.isMark m = false := by
  simp [isMark, head?_of_end h]

theorem isWord_of_end (h : ts.ahead = []) (w : String) : ts.isWord w = false := by
  simp [isWord, head?_of_end h]

theorem Grouped.suffix (h : ts.Grouped) (hread : ts.ahead = read ++ us.ahead) : us.Grouped := by
  obtain ⟨d, hd⟩ := h
  rw [hread, openGroups_append] at hd
  obtain ⟨d', -, hd'⟩ := Option.bind_eq_some_iff.mp hd
  exact ⟨d', hd'⟩

theorem Grouped.tail {t : Token} (h : ts.Grouped) (ht : ts.ahead = t :: us.ahead) : us.Grouped :=
  h.suffix (show ts.ahead = [t] ++ us.ahead from ht)

theorem EndsIn.suffix (h : ts.EndsIn last) (hread : ts.ahead = read ++ us.ahead) (hne : us.ahead ≠ []) :
    us.EndsIn last := by
  rwa [EndsIn, hread, List.getLast?_append_of_ne_nil _ hne] at h

theorem EndsIn.advance (h : ts.EndsIn last) (hl : ts.head? = some l) (hsemicolon : l ≠ .mark .semicolon) :
    ts.advance.EndsIn last := by
  obtain ⟨t, ht, rfl⟩ := exists_of_head hl
  cases hrest : ts.advance.ahead with
  | nil =>
    rw [hrest] at ht
    simp only [EndsIn, ht, List.getLast?_singleton] at h
    simpa [EndsIn, hrest, ← h] using hsemicolon
  | cons => exact h.suffix (show ts.ahead = [t] ++ _ from ht) (by simp [hrest])

end Tokens

/-- Where one script ends and the next begin: the last lexeme before, and the tokens after. -/
structure Seam where
  last : Lexeme
  next : Tokens
  newline : next.newline = true
  starts : ∀ l ∈ next.head?, l.starts = true
  async : last = .name "async" → next.isName = false ∧ next.isMark .parenOpen = false

/-- The marks that an expression goes on with, across lines as well, and that can start a statement. -/
def Mark.continuing : List Mark := [.parenOpen, .bracketOpen, .plus, .minus]

/-- The marks that a statement goes on with, across lines as well, when no semicolon ends it. -/
def Stmt.continuedBy : Stmt → List Mark
  | .expr _ | .throw _ | .return (some _) => .semicolon :: Mark.continuing
  | .declare _ decls =>
    match decls.getLast? with
    | some (.mk _ (some _)) => .semicolon :: Mark.continuing
    | _ => [.semicolon]
  | .break | .continue | .return none | .doWhile .. => [.semicolon]
  | .ifElse _ yes none => yes.continuedBy
  | .ifElse _ _ (some no) => no.continuedBy
  | .while _ body | .for _ _ _ body | .forEach _ _ _ _ body => body.continuedBy
  | .block _ | .switch .. | .function _ | .try .. | .empty => []

namespace Seam

open Parse

variable (s : Seam)

/-- What comes next does not go on with an expression. -/
def Quiet : Prop := ∀ m ∈ Mark.continuing, s.next.isMark m = false

/-- What comes next does not go on with the statement. -/
def Ended (st : Stmt) : Prop := s.last = .mark .semicolon ∨ ∀ m ∈ st.continuedBy, s.next.isMark m = false

theorem isMark {m : Mark} (hm : (Lexeme.mark m).starts = false) : s.next.isMark m = false := by
  rw [Bool.eq_false_iff]
  intro hm'
  rw [s.starts _ (Tokens.isMark_iff.mp hm')] at hm
  cases hm

theorem isWord {w : String} (hw : (Lexeme.name w).starts = false) : s.next.isWord w = false := by
  rw [Bool.eq_false_iff]
  intro hw'
  rw [s.starts _ (Tokens.isWord_iff.mp hw')] at hw
  cases hw

theorem head_ne {t : Token} (h : t ∈ s.next.ahead.head?) {m : Mark} (hm : (Lexeme.mark m).starts = false) :
    t.lexeme ≠ .mark m := by
  intro hl
  have hhead : s.next.head? = some (.mark m) := by rw [Tokens.head?, Option.mem_def.mp h, Option.map_some, hl]
  have hfalse := s.isMark hm
  rw [Tokens.isMark_iff.mpr hhead] at hfalse
  cases hfalse

/-- On `ts`, the rule reads what it reads there when `s.next` comes after, if the answer meets the `need` whenever
nothing is left. What it reads closes `depth` groups more than it opens, and does not end with a semicolon if it is
`strict`. -/
structure Stays {α : Type} (strict : Prop) (depth : Nat) (need : α → Prop) (p : Parse α) (ts : Tokens) : Prop where
  reads {a : α} {us : Tokens} : p ts = .ok (a, us) →
    ∃ read, ts.ahead = read ++ us.ahead ∧ ∀ d, openGroups (d + depth) read = some d
  ends {a : α} {us : Tokens} : p ts = .ok (a, us) → strict → ts.EndsIn s.last → us.EndsIn s.last
  same {a : α} {us : Tokens} : p ts = .ok (a, us) → ts.EndsIn s.last → ts.Grouped → (us.ahead = [] → need a) →
    p (ts.extend s.next) = .ok (a, us.extend s.next)

namespace Stays

variable {s} {α β : Type} {strict : Prop} {i j : Nat} {need : α → Prop} {need' : β → Prop} {p q : Parse α}
  {f : α → Parse β} {ts : Tokens}

theorem of_refuses (h : Refuses p ts) : s.Stays strict i need p ts :=
  ⟨fun hp => absurd hp (h _), fun hp => absurd hp (h _), fun hp => absurd hp (h _)⟩

theorem unexpected : s.Stays strict i need Parse.unexpected ts := of_refuses refuses_unexpected

theorem fail (fault : SourceFault) : s.Stays strict i need (Parse.fail fault) ts := of_refuses fun _ h => by cases h

theorem pure (a : α) : s.Stays strict 0 need (Pure.pure a) ts where
  reads h := by
    cases h
    exact ⟨[], rfl, fun d => rfl⟩
  ends h _ hlast := by
    cases h
    exact hlast
  same h _ _ _ := by
    cases h
    rfl

theorem map {f : α → β} (hp : s.Stays strict 0 (need' ∘ f) p ts) : s.Stays strict 0 need' (f <$> p) ts where
  reads h := by
    obtain ⟨a, us, ha, hb⟩ := bind_eq_ok.mp h
    cases hb
    exact hp.reads ha
  ends h := by
    obtain ⟨a, us, ha, hb⟩ := bind_eq_ok.mp h
    cases hb
    exact hp.ends ha
  same h hlast hgroups hend := by
    obtain ⟨a, us, ha, hb⟩ := bind_eq_ok.mp h
    cases hb
    exact bind_eq_ok.mpr ⟨a, _, hp.same ha hlast hgroups hend, rfl⟩

theorem lift (r : Except SourceError α) : s.Stays strict 0 need (Rules.lift r) ts := by
  cases r with
  | error => exact of_refuses fun _ h => by cases h
  | ok a => exact pure a

theorem mono {need₂ : α → Prop} (h : s.Stays True i need p ts) (hneed : ∀ a, need₂ a → need a) :
    s.Stays strict i need₂ p ts where
  reads := h.reads
  ends hp _ := h.ends hp trivial
  same hp hlast hgroups hend := h.same hp hlast hgroups fun hnil => hneed _ (hend hnil)

/-- A rule that does what another one does. -/
theorem congr (hp : p ts = q ts)
    (hp' : ∀ a us, q ts = .ok (a, us) → ts.EndsIn s.last → ts.Grouped → (us.ahead = [] → need a) →
      p (ts.extend s.next) = q (ts.extend s.next))
    (hq : s.Stays strict i need q ts) : s.Stays strict i need p ts where
  reads h := hq.reads (hp ▸ h)
  ends h := hq.ends (hp ▸ h)
  same h hlast hgroups hend := by
    have h' := hp ▸ h
    exact (hp' _ _ h' hlast hgroups hend).trans (hq.same h' hlast hgroups hend)

/-- A rule that takes one token and then does what another one does. -/
theorem step {l : Lexeme} (hl : ts.head? = some l) (hshift : l.Shift i j)
    (hends : ts.EndsIn s.last → ts.advance.EndsIn s.last) (hp : p ts = q ts.advance)
    (hp' : p (ts.extend s.next) = q (ts.extend s.next).advance) (hq : s.Stays strict j need q ts.advance) :
    s.Stays strict i need p ts where
  reads h := by
    obtain ⟨t, ht, rfl⟩ := Tokens.exists_of_head hl
    obtain ⟨read, hread, hgroups⟩ := hq.reads (hp ▸ h)
    refine ⟨t :: read, by rw [ht, hread, List.cons_append], fun d => ?_⟩
    rw [openGroups_cons, hshift d, Option.bind_some, hgroups]
  ends h hstrict hlast := hq.ends (hp ▸ h) hstrict (hends hlast)
  same h hlast hgroups hend := by
    obtain ⟨t, ht, -⟩ := Tokens.exists_of_head hl
    rw [hp', Tokens.advance_extend (Tokens.ne_nil_of_head hl)]
    exact hq.same (hp ▸ h) (hends hlast) (hgroups.tail ht) hend

theorem bind (hp : s.Stays True 0 need p ts) (hf : ∀ a us, p ts = .ok (a, us) → s.Stays strict i need' (f a) us)
    (hneed : ∀ a us b vs, p ts = .ok (a, us) → f a us = .ok (b, vs) → us.ahead = [] → need' b → us.EndsIn s.last →
      need a) : s.Stays strict i need' (p >>= f) ts where
  reads h := by
    obtain ⟨a, us, ha, hb⟩ := bind_eq_ok.mp h
    obtain ⟨read, hread, hgroups⟩ := hp.reads ha
    obtain ⟨read', hread', hgroups'⟩ := (hf a us ha).reads hb
    refine ⟨read ++ read', by rw [hread, hread', List.append_assoc], fun d => ?_⟩
    have hfirst := hgroups (d + i)
    rw [Nat.add_zero] at hfirst
    rw [openGroups_append, hfirst, Option.bind_some, hgroups']
  ends h hstrict hlast := by
    obtain ⟨a, us, ha, hb⟩ := bind_eq_ok.mp h
    exact (hf a us ha).ends hb hstrict (hp.ends ha trivial hlast)
  same h hlast hgroups hend := by
    obtain ⟨a, us, ha, hb⟩ := bind_eq_ok.mp h
    obtain ⟨read, hread, -⟩ := hp.reads ha
    obtain ⟨read', hread', -⟩ := (hf a us ha).reads hb
    have hlast' := hp.ends ha trivial hlast
    have hneed' (hnil : us.ahead = []) : need a := by
      refine hneed a us _ _ ha hb hnil (hend ?_) hlast'
      exact (List.append_eq_nil_iff.mp (hread'.symm.trans hnil)).2
    have hsame := hp.same ha hlast hgroups hneed'
    exact bind_eq_ok.mpr ⟨a, _, hsame, (hf a us ha).same hb hlast' (hgroups.suffix hread) hend⟩

/-- One rule after another, neither of them complete. -/
theorem andThen (hp : s.Stays True 0 (fun _ => s.Quiet) p ts)
    (hf : ∀ a us, p ts = .ok (a, us) → s.Stays strict i (fun _ => s.Quiet) (f a) us) :
    s.Stays strict i (fun _ => s.Quiet) (p >>= f) ts :=
  hp.bind hf fun _ _ _ _ _ _ _ hquiet _ => hquiet

/-- A rule after which there has to be something. -/
theorem andStop (hp : s.Stays True 0 need p ts) (hf : ∀ a us, p ts = .ok (a, us) → s.Stays strict i need' (f a) us)
    (hstop : ∀ a us, us.ahead = [] → Refuses (f a) us) : s.Stays strict i need' (p >>= f) ts :=
  hp.bind hf fun a us _ _ _ hb hnil _ _ => absurd hb (hstop a us hnil _)

/-- A complete rule. -/
theorem andAny (hp : s.Stays True 0 (fun _ => True) p ts)
    (hf : ∀ a us, p ts = .ok (a, us) → s.Stays strict i need' (f a) us) : s.Stays strict i need' (p >>= f) ts :=
  hp.bind hf fun _ _ _ _ _ _ _ _ _ => trivial

theorem look {γ : Type} {g : Tokens → γ} {f : γ → Parse β}
    (hg : ts.ahead ≠ [] → ts.EndsIn s.last → ts.Grouped → g (ts.extend s.next) = g ts)
    (hnil : ts.ahead = [] → ∀ b us, f (g ts) ts = .ok (b, us) → need' b → g s.next = g ts)
    (hf : s.Stays strict i need' (f (g ts)) ts) : s.Stays strict i need' (Parse.look g >>= f) ts := by
  refine congr (look_bind g f ts) (fun b us hb hlast hgroups hend => ?_) hf
  have hsame : g (ts.extend s.next) = g ts := by
    by_cases hts : ts.ahead = []
    · obtain ⟨read, hread, -⟩ := hf.reads hb
      rw [Tokens.extend_nil hts]
      exact hnil hts b us hb (hend (List.append_eq_nil_iff.mp (hread.symm.trans hts)).2)
    · exact hg hts hlast hgroups
  rw [look_bind, hsame]

theorem head {f : Option Lexeme → Parse β} (hne : ts.ahead ≠ []) (hf : s.Stays strict i need' (f ts.head?) ts) :
    s.Stays strict i need' (Parse.look Tokens.head? >>= f) ts :=
  look (fun _ _ _ => Tokens.head?_extend hne _) (fun hnil => absurd hnil hne) hf

theorem advance {f : Unit → Parse β} {l : Lexeme} (hl : ts.head? = some l) (hshift : l.Shift i j)
    (hsemicolon : l ≠ .mark .semicolon) (hf : s.Stays strict j need' (f ()) ts.advance) :
    s.Stays strict i need' (Parse.advance >>= f) ts :=
  step hl hshift (·.advance hl hsemicolon) (advance_bind f ts) (advance_bind f _) hf

/-- A rule that takes a token which passes a test, and does something else otherwise. -/
theorem take {test : Tokens → Bool} {p yes no : Parse β}
    (hp : ∀ us : Tokens, p us = if test us then yes us.advance else no us)
    (hhead : test ts = true → ∃ l, ts.head? = some l ∧ l.Shift i j ∧ l ≠ .mark .semicolon)
    (htest : ts.ahead ≠ [] → test (ts.extend s.next) = test ts)
    (hnil : ts.ahead = [] → ∀ b us, no ts = .ok (b, us) → need' b → test s.next = false)
    (hyes : test ts = true → s.Stays strict j need' yes ts.advance)
    (hno : test ts = false → s.Stays strict i need' no ts) : s.Stays strict i need' p ts := by
  cases h : test ts with
  | true =>
    obtain ⟨l, hl, hshift, hsemicolon⟩ := hhead h
    refine step hl hshift (·.advance hl hsemicolon) (by rw [hp, if_pos h]) ?_ (hyes h)
    rw [hp, htest (Tokens.ne_nil_of_head hl), if_pos h]
  | false =>
    refine congr (q := no) (by simp [hp, h]) (fun b us hb _ _ hend => ?_) (hno h)
    have hsame : test (ts.extend s.next) = false := by
      by_cases hts : ts.ahead = []
      · obtain ⟨read, hread, -⟩ := (hno h).reads hb
        rw [Tokens.extend_nil hts]
        exact hnil hts b us hb (hend (List.append_eq_nil_iff.mp (hread.symm.trans hts)).2)
      · rw [htest hts, h]
    simp [hp, hsame]

section Mark

variable {m : Mark}

theorem eat_of {f : Bool → Parse β} (hshift : (Lexeme.mark m).Shift i j) (hm : m ≠ .semicolon)
    (hnil : ts.ahead = [] → ∀ b us, f false ts = .ok (b, us) → need' b → s.next.isMark m = false)
    (hyes : s.Stays strict j need' (f true) ts.advance) (hno : s.Stays strict i need' (f false) ts) :
    s.Stays strict i need' (Parse.eat m >>= f) ts :=
  take (eat_bind m f) (fun h => ⟨_, Tokens.isMark_iff.mp h, hshift, by simpa using hm⟩)
    (fun hne => Tokens.isMark_extend hne _ m) hnil (fun _ => hyes) fun _ => hno

/-- The mark of an optional part, with which no statement starts. -/
theorem eat {f : Bool → Parse β} (hm : (Lexeme.mark m).starts = false) (hshift : (Lexeme.mark m).Shift i j)
    (hyes : s.Stays strict j need' (f true) ts.advance) (hno : s.Stays strict i need' (f false) ts) :
    s.Stays strict i need' (Parse.eat m >>= f) ts := by
  refine eat_of hshift ?_ (fun _ _ _ _ _ => s.isMark hm) hyes hno
  rintro rfl
  cases hm

theorem expect {f : Unit → Parse β} (hshift : (Lexeme.mark m).Shift i j) (hm : m ≠ .semicolon)
    (hf : s.Stays strict j need' (f ()) ts.advance) : s.Stays strict i need' (Parse.expect m >>= f) ts := by
  have htake (us : Tokens) : (Parse.expect m >>= f) us = if us.isMark m then f () us.advance else Parse.unexpected us := by
    cases h : us.isMark m <;> simp [Bind.bind, Parse.expect, h, Parse.unexpected]
  exact take htake (fun h => ⟨_, Tokens.isMark_iff.mp h, hshift, by simpa using hm⟩)
    (fun hne => Tokens.isMark_extend hne _ m) (fun _ _ _ hb => absurd hb (refuses_unexpected _)) (fun _ => hf)
    fun _ => unexpected

theorem ifMark_of {p q : Parse β}
    (hnil : ts.ahead = [] → ∀ b us, q ts = .ok (b, us) → need' b → s.next.isMark m = false)
    (hp : s.Stays strict i need' p ts) (hq : s.Stays strict i need' q ts) :
    s.Stays strict i need' (do if ← Parse.look (·.isMark m) then p else q) ts := by
  refine look (fun hne _ _ => Tokens.isMark_extend hne _ m) (fun hts b us hb hneed => ?_) ?_
  · rw [Tokens.isMark_of_end hts] at hb ⊢
    exact hnil hts b us hb hneed
  · split
    · exact hp
    · exact hq

/-- A test for a mark with which no statement starts. -/
theorem ifMark {p q : Parse β} (hm : (Lexeme.mark m).starts = false) (hp : s.Stays strict i need' p ts)
    (hq : s.Stays strict i need' q ts) : s.Stays strict i need' (do if ← Parse.look (·.isMark m) then p else q) ts :=
  ifMark_of (fun _ _ _ _ _ => s.isMark hm) hp hq

end Mark

section Word

variable {w : String}

theorem eatWord {f : Bool → Parse β} (hw : ts.ahead = [] → s.next.isWord w = false)
    (hyes : s.Stays strict i need' (f true) ts.advance) (hno : s.Stays strict i need' (f false) ts) :
    s.Stays strict i need' (Parse.eatWord w >>= f) ts :=
  take (eatWord_bind w f) (fun h => ⟨_, Tokens.isWord_iff.mp h, Lexeme.shift_other (by simp) i, by simp⟩)
    (fun hne => Tokens.isWord_extend hne _ w) (fun hnil _ _ _ _ => hw hnil) (fun _ => hyes) fun _ => hno

theorem expectWord {f : Unit → Parse β} (hf : s.Stays strict i need' (f ()) ts.advance) :
    s.Stays strict i need' (Parse.expectWord w >>= f) ts := by
  have htake (us : Tokens) :
      (Parse.expectWord w >>= f) us = if us.isWord w then f () us.advance else Parse.unexpected us := by
    cases h : us.isWord w <;> simp [Bind.bind, Parse.expectWord, h, Parse.unexpected]
  exact take htake (fun h => ⟨_, Tokens.isWord_iff.mp h, Lexeme.shift_other (by simp) i, by simp⟩)
    (fun hne => Tokens.isWord_extend hne _ w) (fun _ _ _ hb => absurd hb (refuses_unexpected _)) (fun _ => hf)
    fun _ => unexpected

theorem identifier : s.Stays True 0 (fun _ => True) Parse.identifier ts := by
  cases hl : ts.head? with
  | none => exact of_refuses (Tokens.Stuck.identifier (by simp [Tokens.Stuck, hl]))
  | some l =>
    have hl' := (Tokens.head?_extend (Tokens.ne_nil_of_head hl) s.next).trans hl
    cases l with
    | name n =>
      by_cases hn : isReserved n = true
      · exact of_refuses fun r hr => by simp [Parse.identifier, hl, hn, Parse.unexpected] at hr
      · refine step (q := Pure.pure n) hl (Lexeme.shift_other (by simp) 0) (·.advance hl (by simp)) ?_ ?_ (pure n)
        · simp [Parse.identifier, hl, hn, pure_apply]
        · simp [Parse.identifier, hl', hn, pure_apply]
    | _ => exact of_refuses fun r hr => by simp [Parse.identifier, hl, Parse.unexpected] at hr

theorem propertyName : s.Stays True 0 (fun _ => True) Parse.propertyName ts := by
  cases hl : ts.head? with
  | none => exact of_refuses fun r hr => by simp [Parse.propertyName, hl, Parse.unexpected] at hr
  | some l =>
    have hl' := (Tokens.head?_extend (Tokens.ne_nil_of_head hl) s.next).trans hl
    cases l with
    | name n =>
      refine step (q := Pure.pure n) hl (Lexeme.shift_other (by simp) 0) (·.advance hl (by simp)) ?_ ?_ (pure n)
      · simp [Parse.propertyName, hl, pure_apply]
      · simp [Parse.propertyName, hl', pure_apply]
    | _ => exact of_refuses fun r hr => by simp [Parse.propertyName, hl, Parse.unexpected] at hr

end Word

theorem commaList {item : Parse α} {stop : Mark} (hstop : (Lexeme.mark stop).starts = false)
    (hitem : ∀ us, s.Stays True 0 (fun _ => s.Quiet) item us) (n : Nat) :
    s.Stays True 0 (fun _ => s.Quiet) (Parse.commaList stop item n) ts := by
  induction n generalizing ts with
  | zero => exact fail _
  | succ n ih =>
    refine ifMark hstop (pure _) ((hitem ts).andThen fun a us _ => ?_)
    refine eat (by decide) (Lexeme.shift_mark (by decide) 0) ?_ (pure _)
    exact ih.andThen fun _ _ _ => pure _

/-- A rule after one that may read a semicolon last. At the end it takes nothing, whatever comes next. -/
theorem andLast (hp : s.Stays False 0 need p ts)
    (hf : ∀ a us, p ts = .ok (a, us) → us.ahead ≠ [] → s.Stays strict 0 need' (f a) us)
    (hend : ∀ a us b vs, p ts = .ok (a, us) → us.ahead = [] → f a us = .ok (b, vs) →
      vs.ahead = [] ∧ ¬ strict ∧ (need' b → need a) ∧ f a s.next = .ok (b, s.next)) :
    s.Stays strict 0 need' (p >>= f) ts where
  reads h := by
    obtain ⟨a, us, ha, hb⟩ := bind_eq_ok.mp h
    obtain ⟨read, hread, hgroups⟩ := hp.reads ha
    by_cases hnil : us.ahead = []
    · obtain ⟨hvs, -⟩ := hend a us _ _ ha hnil hb
      exact ⟨read, by rw [hread, hnil, hvs], hgroups⟩
    · obtain ⟨read', hread', hgroups'⟩ := (hf a us ha hnil).reads hb
      refine ⟨read ++ read', by rw [hread, hread', List.append_assoc], fun d => ?_⟩
      rw [openGroups_append, hgroups, Option.bind_some]
      exact hgroups' d
  ends h hstrict hlast := by
    obtain ⟨a, us, ha, hb⟩ := bind_eq_ok.mp h
    obtain ⟨read, hread, -⟩ := hp.reads ha
    by_cases hnil : us.ahead = []
    · exact absurd hstrict (hend a us _ _ ha hnil hb).2.1
    · exact (hf a us ha hnil).ends hb hstrict (hlast.suffix hread hnil)
  same {b vs} h hlast hgroups hlater := by
    obtain ⟨a, us, ha, hb⟩ := bind_eq_ok.mp h
    obtain ⟨read, hread, -⟩ := hp.reads ha
    by_cases hnil : us.ahead = []
    · obtain ⟨hvs, -, hneed, hnext⟩ := hend a us b vs ha hnil hb
      have hsame := hp.same ha hlast hgroups fun _ => hneed (hlater hvs)
      rw [Tokens.extend_nil hnil] at hsame
      rw [Tokens.extend_nil hvs]
      exact bind_eq_ok.mpr ⟨a, _, hsame, hnext⟩
    · have hsame := hp.same ha hlast hgroups fun h => absurd h hnil
      exact bind_eq_ok.mpr ⟨a, _, hsame, (hf a us ha hnil).same hb (hlast.suffix hread hnil) (hgroups.suffix hread) hlater⟩

/-- The items end before the tokens do. -/
theorem listUntil {item : Parse α} {stop : Tokens → Bool} (hnil : ∀ us : Tokens, us.ahead = [] → stop us = false)
    (hstop : ∀ us : Tokens, us.ahead ≠ [] → stop (us.extend s.next) = stop us)
    (hitem : ∀ us, s.Stays False 0 need item us) (n : Nat) :
    s.Stays True 0 (fun _ => True) (Parse.listUntil stop item n) ts := by
  have hrefuse (n : Nat) {us : Tokens} (hus : us.ahead = []) : Refuses (Parse.listUntil stop item n) us := by
    cases n with
    | zero => exact fun r hr => by cases hr
    | succ n =>
      refine Refuses.of_eq ?_ (if_look_neg (hnil us hus) _ _)
      exact refuses_unexpected.of_eq (if_look_pos (by simp [Tokens.atEnd, hus]) _ _)
  induction n generalizing ts with
  | zero => exact fail _
  | succ n ih =>
    by_cases hts : ts.ahead = []
    · exact of_refuses (hrefuse (n + 1) hts)
    refine look (fun hne _ _ => hstop ts hne) (fun h => absurd h hts) ?_
    split
    · exact pure _
    refine look (fun hne _ _ => Tokens.atEnd_extend hne _) (fun h => absurd h hts) ?_
    split
    · exact unexpected
    refine (hitem ts).andLast (fun a us _ _ => ?_) fun a us _ _ _ hus hb => ?_
    · exact ih.andAny fun _ _ _ => pure _
    · exact absurd hb ((hrefuse n hus).bind _ _)

/-- What stops the items stands there. -/
theorem stop_of_listUntil {item : Parse α} {stop : Tokens → Bool} {n : Nat} {as : List α} {us : Tokens}
    (h : Parse.listUntil stop item n ts = .ok (as, us)) : stop us = true := by
  induction n generalizing ts as with
  | zero => cases h
  | succ n ih =>
    obtain ⟨b, vs, hb, h⟩ := bind_eq_ok.mp h
    cases hb
    split at h
    · next hstop =>
      cases h
      exact hstop
    · obtain ⟨e, vs, he, h⟩ := bind_eq_ok.mp h
      cases he
      split at h
      · cases h
      · obtain ⟨a, vs, -, h⟩ := bind_eq_ok.mp h
        obtain ⟨rest, ws, hrest, h⟩ := bind_eq_ok.mp h
        cases h
        exact ih hrest

end Stays

end Seam

end Apiary
