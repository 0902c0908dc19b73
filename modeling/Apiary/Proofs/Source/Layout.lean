import Apiary.Proofs.Source.Rescan

/-!
Layout that crosses no line. Put before a token it leaves all tokens as they are, up to the places where they stand.
-/

namespace Apiary

def Token.unplaced (t : Token) : Token := ⟨t.lexeme.unplaced, .start, t.newlineBefore⟩

def Tokens.unplaced (ts : Tokens) : Tokens := ⟨ts.ahead.map Token.unplaced, .start, ts.newlineAtEnd⟩

/-- Where the tokens stand, and where the text ends. -/
def Tokens.places (ts : Tokens) : List Position := ts.ahead.map (·.position) ++ [ts.endPosition]

/-- Spaces and tabs in a row, or a comment with a space on each side. -/
inductive Layout : List Char → Prop
  | blanks {gap : List Char} : (∀ c ∈ gap, c = ' ' ∨ c = '\t') → Layout gap
  | comment {text : List Char} : '\n' ∉ text → ¬ ['*', '/'] <:+: text →
    Layout (' ' :: '/' :: '*' :: text ++ ['*', '/', ' '])

namespace Layout

variable {ins : List Char}

theorem gap (h : Layout ins) (rest : List Char) : Gap ins rest := by
  cases h with
  | blanks h =>
    induction ins with
    | nil => exact .nil
    | cons c ins ih =>
      obtain ⟨hc, h⟩ := List.forall_mem_cons.mp h
      exact .blank (by rcases hc with rfl | rfl <;> decide) (ih h)
  | comment _ hclosed =>
    have h : Gap _ rest := .blank (c := ' ') (by decide) (.block hclosed (.blank (c := ' ') (by decide) .nil))
    simpa using h

theorem newline (h : Layout ins) : '\n' ∉ ins := by
  cases h with
  | blanks h => exact fun hmem => absurd (h _ hmem) (by decide)
  | comment hline _ => simpa using hline

theorem loosened (h : Layout ins) (u : List Char) : Loosened u (ins ++ u) := by
  cases h with
  | blanks h =>
    cases ins with
    | nil => exact .same u
    | cons c ins => exact .blank ((h c List.mem_cons_self).imp_right .inl)
  | comment => exact .blank (.inl rfl)

end Layout

/-- No gap can go on with this. -/
structure Unspaced (rest : List Char) : Prop where
  blank : ∀ c ∈ rest.head?, isBlank c = false
  line : ¬ ['/', '/'] <+: rest
  block : ¬ ['/', '*'] <+: rest

theorem Unspaced.loosened {s u u' : List Char} (h : Unspaced (s ++ u)) (hs : s ≠ []) (hl : Loosened u u') :
    Unspaced (s ++ u') where
  blank := by
    obtain ⟨c, s, rfl⟩ := List.exists_cons_of_ne_nil hs
    exact h.blank
  line hp := h.line ((hl.append_left s).prefix_of (.of_all (by decide)) hp)
  block hp := h.block ((hl.append_left s).prefix_of (.of_all (by decide)) hp)

namespace Gap

variable {gap rest : List Char}

theorem relocate {rest' : List Char} (h : Gap gap rest) (hhead : rest'.head? = rest.head?) : Gap gap rest' := by
  induction h with
  | nil => exact .nil
  | blank hc _ ih => exact .blank hc (ih hhead)
  | @line text gap rest hline hend _ ih =>
    refine .line hline ?_ (ih hhead)
    rwa [List.head?_append, hhead, ← List.head?_append]
  | block hclosed _ ih => exact .block hclosed (ih hhead)

/-- A line comment at the end of the text takes in what follows it. -/
theorem append {ins : List Char} (h : Gap gap rest) (hrest : Unspaced rest) (hins : Layout ins) :
    Gap (gap ++ ins) rest := by
  induction h with
  | nil => exact hins.gap _
  | blank hc _ ih => exact .blank hc (ih hrest)
  | @line text gap rest hline hend _ ih =>
    cases gap with
    | nil =>
      cases rest with
      | nil =>
        have h : Gap ('/' :: '/' :: (text ++ ins) ++ []) [] := .line (by simp [hline, hins.newline]) (by simp) .nil
        simpa using h
      | cons c rest =>
        have hc := hend c rfl
        exact absurd (hrest.blank c rfl) (by rw [hc]; decide)
    | cons c gap =>
      have h : Gap ('/' :: '/' :: text ++ (c :: gap ++ ins)) rest := .line hline hend (ih hrest)
      simpa using h
  | @block text gap rest hclosed _ ih =>
    have h := Gap.block hclosed (ih hrest)
    simpa using h

end Gap

namespace Position

theorem le_after (p : Position) (text : List Char) :
    p.line < (p.after text).line ∨ (p.line = (p.after text).line ∧ p.column + text.length = (p.after text).column) := by
  induction text generalizing p with
  | nil => exact .inr ⟨rfl, rfl⟩
  | cons c text ih =>
    rw [after_cons, List.length_cons]
    have := ih (p.next c)
    by_cases hc : c = '\n'
    · simp only [next, hc, if_true] at this ⊢
      omega
    · simp only [next, hc, if_false] at this ⊢
      omega

/-- A place in a text tells how far it is. -/
theorem after_inj {p : Position} {s t rest : List Char} (hs : s <+: rest) (ht : t <+: rest)
    (h : p.after s = p.after t) : s = t := by
  have key {s t : List Char} (hst : s <+: t) (h : p.after s = p.after t) : s = t := by
    obtain ⟨d, rfl⟩ := hst
    rw [after_append] at h
    have hd := le_after (p.after s) d
    rw [← h] at hd
    have : d = [] := List.eq_nil_of_length_eq_zero (by omega)
    simp [this]
  rcases Nat.le_total s.length t.length with hle | hle
  · exact key (List.prefix_of_prefix_length_le hs ht hle) h
  · exact (key (List.prefix_of_prefix_length_le ht hs hle) h.symm).symm

end Position

theorem Tiling.placed {start last q : Position} {newline : Bool} {before text : List Char} {ks : List Token}
    (h : Tiling start last newline before text ks) (hq : q ∈ ks.map (·.position) ++ [last]) :
    ∃ pre, pre <+: text ∧ q = start.after (before ++ pre) := by
  induction h with
  | @last before gap _ hlast _ =>
    obtain rfl : q = _ := by simpa using hq
    exact ⟨gap, List.prefix_rfl, hlast⟩
  | @token before gap text rest k ks _ _ _ hplace _ _ ih =>
    rcases List.mem_cons.mp hq with rfl | hq
    · exact ⟨gap, ⟨text ++ rest, by simp⟩, hplace⟩
    · obtain ⟨pre, ⟨post, rfl⟩, rfl⟩ := ih hq
      exact ⟨gap ++ text ++ pre, ⟨post, by simp⟩, by simp⟩

namespace Cursor

variable {k k' m : Cursor}

theorem trivia_stops {n : Nat} {newline found : Bool} (h : trivia n newline k = .ok (found, k')) :
    Unspaced k'.rest := by
  induction n generalizing newline k with
  | zero => cases h
  | succ n ih =>
    simp only [trivia] at h
    split at h
    next => exact ih h
    next =>
      obtain ⟨_, -, h⟩ := ok_of_bind h
      exact ih h
    next c rest hline hblock hk =>
      split at h
      next => exact ih h
      next hc =>
        cases h
        rw [hk]
        refine ⟨fun d hd => ?_, ?_, ?_⟩
        · cases hd
          exact Bool.eq_false_iff.mpr hc
        · rintro ⟨r, hr⟩
          obtain ⟨hc, hr⟩ := List.cons.inj hr
          exact hline r hc.symm hr.symm
        · rintro ⟨r, hr⟩
          obtain ⟨hc, hr⟩ := List.cons.inj hr
          exact hblock r hc.symm hr.symm
    next hk =>
      cases h
      rw [hk]
      exact ⟨by simp, by simp, by simp⟩

theorem blockComment_scans {text rest : List Char} {n : Nat} (newline : Bool) (h : ¬ ['*', '/'] <:+: text)
    (hk : k.rest = text ++ '*' :: '/' :: rest) (hn : text.length < n) :
    ∃ k', k.Reads (text ++ ['*', '/']) k' ∧
      blockComment n newline k = .ok (newline || decide ('\n' ∈ text), k') := by
  induction text generalizing n newline k with
  | nil =>
    obtain ⟨n, rfl⟩ : ∃ m, n = m + 1 := ⟨n - 1, by simp at hn; omega⟩
    exact ⟨k.drop 2, reads_drop ['*', '/'] hk, by simp [blockComment, hk]⟩
  | cons c text ih =>
    simp only [List.length_cons] at hn
    obtain ⟨n, rfl⟩ : ∃ m, n = m + 1 := ⟨n - 1, by omega⟩
    have hbump : k.Reads [c] k.bump := reads_bump hk
    obtain ⟨k', hr, hb⟩ := @ih k.bump n (newline || c == '\n') (fun hin => h (List.infix_cons hin))
      (hbump.rest_of hk) (by omega)
    refine ⟨k', hbump.trans hr, ?_⟩
    unfold blockComment
    split
    next hnone => simp [hk] at hnone
    next r hclose =>
      rw [hk] at hclose
      obtain ⟨rfl, hnext⟩ := List.cons.inj hclose
      cases text with
      | nil => simp at hnext
      | cons d text =>
        obtain ⟨rfl, -⟩ := List.cons.inj hnext
        exact absurd ⟨[], text, rfl⟩ h
    next d r _ hd =>
      rw [hk] at hd
      obtain ⟨rfl, -⟩ := List.cons.inj hd
      rw [hb]
      simp [Bool.or_assoc, beq_eq_decide, eq_comm (a := '\n')]

theorem trivia_char {c : Char} {rest : List Char} (n : Nat) (newline : Bool) (hk : k.rest = c :: rest)
    (hline : ¬ ['/', '/'] <+: c :: rest) (hblock : ¬ ['/', '*'] <+: c :: rest) :
    trivia (n + 1) newline k = if isBlank c then trivia n (newline || c == '\n') k.bump else .ok (newline, k) := by
  rw [trivia]
  split
  next r hr => exact absurd ⟨r, hr.symm.trans hk⟩ hline
  next r hr => exact absurd ⟨r, hr.symm.trans hk⟩ hblock
  next d r _ _ hr =>
    obtain ⟨rfl, rfl⟩ := List.cons.inj (hr.symm.trans hk)
    rfl
  next hnone => simp [hk] at hnone

theorem trivia_scans {gap rest : List Char} {n : Nat} (newline : Bool) (h : Gap gap rest) (hrest : Unspaced rest)
    (hk : k.rest = gap ++ rest) (hn : gap.length < n) :
    ∃ k', k.Reads gap k' ∧ trivia n newline k = .ok (newline || decide ('\n' ∈ gap), k') := by
  obtain ⟨n, rfl⟩ : ∃ m, n = m + 1 := ⟨n - 1, by omega⟩
  induction h generalizing n newline k with
  | @nil rest =>
    refine ⟨k, Reads.refl k, ?_⟩
    cases rest with
    | nil => simp [trivia, hk]
    | cons c rest => simp [trivia_char n newline hk hrest.line hrest.block, hrest.blank c rfl]
  | @blank c gap rest hc _ ih =>
    have hslash : '/' ≠ c := by
      rintro rfl
      revert hc
      decide
    have hbump : k.Reads [c] k.bump := reads_bump hk
    simp only [List.length_cons] at hn
    obtain ⟨n, rfl⟩ : ∃ m, n = m + 1 := ⟨n - 1, by omega⟩
    obtain ⟨k', hr, ht⟩ := @ih k.bump (newline || c == '\n') hrest (hbump.rest_of hk) n (by omega)
    refine ⟨k', hbump.trans hr, ?_⟩
    rw [trivia_char _ newline hk (by simp [hslash]) (by simp [hslash]), if_pos hc, ht]
    simp [Bool.or_assoc, beq_eq_decide, eq_comm (a := '\n')]
  | @line text gap rest hline hend _ ih =>
    have hk' : k.rest = '/' :: '/' :: text ++ (gap ++ rest) := by simp [hk]
    have hskip := skipWhile_scans (p := (· ≠ '\n')) hk' (by simpa using fun c hc => ne_of_mem_of_not_mem hc hline)
      (by simpa using hend)
    simp only [List.length_cons, List.length_append] at hn
    obtain ⟨n, rfl⟩ : ∃ m, n = m + 1 := ⟨n - 1, by omega⟩
    obtain ⟨k', hr, ht⟩ := @ih (k.skipWhile (· ≠ '\n')) newline hrest (hskip.rest_of hk') n (by omega)
    refine ⟨k', hskip.trans hr, ?_⟩
    rw [trivia, hk']
    dsimp only [List.cons_append]
    rw [ht]
    simp [hline]
  | @block text gap rest hclosed _ ih =>
    have hk' : k.rest = ['/', '*'] ++ (text ++ '*' :: '/' :: (gap ++ rest)) := by simp [hk]
    have hopen : k.Reads ['/', '*'] (k.drop 2) := reads_drop ['/', '*'] hk'
    simp only [List.length_cons, List.length_append] at hn
    obtain ⟨k1, hr1, hb⟩ := blockComment_scans newline hclosed (hopen.rest_of hk')
      (n := n) (by omega)
    have hrest1 : k1.rest = gap ++ rest := hr1.rest_of (by simp [hopen.rest_of hk'])
    obtain ⟨n, rfl⟩ : ∃ m, n = m + 1 := ⟨n - 1, by omega⟩
    obtain ⟨k', hr, ht⟩ := @ih k1 (newline || decide ('\n' ∈ text)) hrest hrest1 n (by omega)
    refine ⟨k', by simpa using (hopen.trans hr1).trans hr, ?_⟩
    rw [trivia, hk']
    simp [hb, ht, bind, Except.bind, Bool.or_assoc]

/-- One token, taken apart: the gap before it and its text. -/
inductive Step (n : Nat) (done : List Token) (k : Cursor) (ts : Tokens) : Prop
  | last {gap : List Char} {k' : Cursor} : k.Reads gap k' → Gap gap [] → k'.rest = [] →
    ts = ⟨done.reverse, k'.position, decide ('\n' ∈ gap)⟩ → Step n done k ts
  | token {gap text rest : List Char} {c : Char} {l : Lexeme} {k1 k2 : Cursor} : k.Reads gap k1 →
    Gap gap k1.rest → Unspaced k1.rest → k1.rest = c :: rest → k1.lexeme (n + 1) c = .ok (l, k2) →
    k1.Reads text k2 → text ≠ [] →
    tokens n (⟨l, k1.position, decide ('\n' ∈ gap)⟩ :: done) k2 = .ok ts → Step n done k ts

theorem tokens_step {n : Nat} {done : List Token} {ts : Tokens} (h : tokens (n + 1) done k = .ok ts) :
    Step n done k ts := by
  obtain ⟨⟨newline, k1⟩, ht, h⟩ := ok_of_bind h
  obtain ⟨gap, hr, hg, hn⟩ := trivia_reads ht
  have hnewline : newline = decide ('\n' ∈ gap) := by
    rw [Bool.eq_iff_iff, hn]
    simp
  subst hnewline
  dsimp only at h
  split at h
  next hend =>
    cases h
    exact .last hr (hend ▸ hg) hend rfl
  next c rest hc =>
    obtain ⟨⟨l, k2⟩, hl, h⟩ := ok_of_bind h
    obtain ⟨text, hread, hs⟩ := lexeme_reads hc hl
    exact .token hr hg (trivia_stops ht) hc hl hread hs.ne_nil h

theorem tokens_scans_last {n : Nat} {done : List Token} {gap : List Char} (hg : Gap gap []) (hk : k.rest = gap)
    (hn : k.rest.length < n) :
    ∃ k' : Cursor, tokens n done k = .ok ⟨done.reverse, k'.position, decide ('\n' ∈ gap)⟩ := by
  obtain ⟨n, rfl⟩ : ∃ m, n = m + 1 := ⟨n - 1, by omega⟩
  have hk' : k.rest = gap ++ [] := by simp [hk]
  obtain ⟨k', hr, ht⟩ := trivia_scans false hg ⟨by simp, by simp, by simp⟩ hk' (hk ▸ hn)
  refine ⟨k', ?_⟩
  simp [tokens, ht, hr.rest_of hk', bind, Except.bind, pure, Except.pure]

theorem tokens_scans_token {n : Nat} (done : List Token) {gap rest : List Char} {c : Char} (hg : Gap gap (c :: rest))
    (hstop : Unspaced (c :: rest)) (hk : k.rest = gap ++ c :: rest) (hn : k.rest.length < n + 1) :
    ∃ k' : Cursor, k.Reads gap k' ∧ tokens (n + 1) done k = k'.lexeme (n + 1) c >>= fun (l, next) =>
      tokens n (⟨l, k'.position, decide ('\n' ∈ gap)⟩ :: done) next := by
  obtain ⟨k', hr, ht⟩ := trivia_scans false hg hstop hk (n := n + 1) (by
    rw [hk, List.length_append] at hn
    omega)
  refine ⟨k', hr, ?_⟩
  simp [tokens, ht, hr.rest_of hk, bind, Except.bind]

/-- The text at `m` is that at `k`, perhaps with layout put in where one of the tokens still to come stands. -/
inductive Relaid (k : Cursor) (done : List Token) (ts : Tokens) (m : Cursor) : Prop
  | same : m.rest = k.rest → Relaid k done ts m
  | layout {before ins after : List Char} {ks : List Token} : Layout ins → k.rest = before ++ after →
    m.rest = before ++ ins ++ after → ts.ahead = done.reverse ++ ks →
    k.position.after before ∈ ks.map (·.position) ++ [ts.endPosition] → Relaid k done ts m

namespace Relaid

variable {done : List Token} {ts : Tokens} {gap : List Char}

theorem last (h : Relaid k done ts m) (hr : k.Reads gap k') (hend : k'.rest = [])
    (hts : ts = ⟨done.reverse, k'.position, decide ('\n' ∈ gap)⟩) : ∃ ins, Layout ins ∧ m.rest = gap ++ ins := by
  have hgap : k.rest = gap := by rw [hr.rest_eq, hend, List.append_nil]
  cases h with
  | same hm => exact ⟨[], .blanks (by simp), by rw [hm, hgap, List.append_nil]⟩
  | @layout before ins after ks hins hk hm hks hplace =>
    subst hts
    obtain rfl : ks = [] := by simpa using hks
    have hplace : k.position.after before = k.position.after gap := by
      rw [← hr.position_eq]
      simpa using hplace
    obtain rfl := Position.after_inj ⟨after, hk.symm⟩ ⟨[], by rw [hgap, List.append_nil]⟩ hplace
    obtain rfl : after = [] := by
      rw [hgap] at hk
      simpa using hk
    exact ⟨ins, hins, by rw [hm, List.append_nil]⟩

theorem token {n : Nat} {text : List Char} {l : Lexeme} {newline : Bool} {k1 k2 : Cursor} (h : Relaid k done ts m)
    (hr : k.Reads gap k1) (hg : Gap gap k1.rest) (hstop : Unspaced k1.rest) (hread : k1.Reads text k2)
    (hne : text ≠ []) (hnext : tokens n (⟨l, k1.position, newline⟩ :: done) k2 = .ok ts) :
    ∃ gap' u', m.rest = gap' ++ (text ++ u') ∧ Gap gap' (text ++ u') ∧ ('\n' ∈ gap' ↔ '\n' ∈ gap) ∧
      Loosened k2.rest u' ∧
      ∀ m2 : Cursor, m2.rest = u' → Relaid k2 (⟨l, k1.position, newline⟩ :: done) ts m2 := by
  cases h with
  | same hm =>
    refine ⟨gap, k2.rest, ?_, hread.rest_eq ▸ hg, Iff.rfl, .same _, fun m2 hm2 => .same hm2⟩
    rw [hm, hr.rest_eq, hread.rest_eq]
  | @layout before ins after ks hins hk hm hks hplace =>
    obtain ⟨later, hlater, htile⟩ : ∃ later, ts.ahead = _ ∧
        Tiling k2.position ts.endPosition ts.newlineAtEnd [] k2.rest later := tokens_tile hnext rfl
    obtain rfl : ks = ⟨l, k1.position, newline⟩ :: later := by
      rw [hlater] at hks
      simpa using hks.symm
    rcases List.mem_cons.mp hplace with hhere | hlater'
    · -- the layout stands right before this token
      have hbefore : before = gap :=
        Position.after_inj ⟨after, hk.symm⟩ ⟨k1.rest, hr.rest_eq.symm⟩ (hhere.trans hr.position_eq)
      subst hbefore
      obtain rfl : k1.rest = after := hr.rest_of hk
      refine ⟨before ++ ins, k2.rest, ?_, hread.rest_eq ▸ hg.append hstop hins, ?_, .same _,
        fun m2 hm2 => .same hm2⟩
      · rw [hm, hread.rest_eq]
      · simp [hins.newline]
    · obtain ⟨pre, hpre, hpos⟩ := htile.placed hlater'
      have hbefore : before = gap ++ text ++ pre := by
        refine Position.after_inj (p := k.position) ⟨after, hk.symm⟩ ?_ ?_
        · obtain ⟨post, hpost⟩ := hpre
          exact ⟨post, by rw [List.append_assoc, hpost, (hr.trans hread).rest_eq]⟩
        · rw [Position.after_append, ← (hr.trans hread).position_eq]
          exact hpos
      have hafter : k2.rest = pre ++ after := (hr.trans hread).rest_of (by simp [hk, hbefore])
      have hloose : Loosened k2.rest (pre ++ (ins ++ after)) := hafter ▸ (hins.loosened after).append_left pre
      refine ⟨gap, pre ++ (ins ++ after), by simp [hm, hbefore], hg.relocate ?_, Iff.rfl, hloose, fun m2 hm2 => ?_⟩
      · rw [hread.rest_eq, List.head?_append_of_ne_nil _ hne, List.head?_append_of_ne_nil _ hne]
      · rw [hpos] at hlater'
        exact .layout hins hafter (by simp [hm2]) hlater hlater'

end Relaid

theorem tokens_relaid {n n' : Nat} {done done' : List Token} {ts : Tokens} (h : tokens n done k = .ok ts)
    (hm : Relaid k done ts m) (hn : m.rest.length < n') (hdone : done'.map Token.unplaced = done.map Token.unplaced) :
    ∃ us, tokens n' done' m = .ok us ∧ us.unplaced = ts.unplaced := by
  induction n generalizing n' done done' k m with
  | zero => cases h
  | succ n ih =>
    cases tokens_step h with
    | last hr hg hend hts =>
      obtain ⟨ins, hins, hrest⟩ := hm.last hr hend hts
      obtain ⟨m', hm'⟩ := tokens_scans_last (hg.append ⟨by simp, by simp, by simp⟩ hins) hrest hn
      exact ⟨_, hm', by simp [Tokens.unplaced, hts, hdone, hins.newline]⟩
    | @token gap text rest c l k1 k2 hr hg hstop hc hl hread hne hnext =>
      obtain ⟨n', rfl⟩ : ∃ j, n' = j + 1 := ⟨n' - 1, by omega⟩
      obtain ⟨gap', u', hrest, hg', hnewline, hloose, hrelaid⟩ := hm.token hr hg hstop hread hne hnext
      have hstop' : Unspaced (text ++ u') := Unspaced.loosened (hread.rest_eq ▸ hstop) hne hloose
      obtain ⟨tail, rfl⟩ : ∃ tail, text = c :: tail := by
        obtain ⟨d, tail, rfl⟩ := List.exists_cons_of_ne_nil hne
        exact ⟨tail, by rw [(List.cons.inj (hc.symm.trans hread.rest_eq)).1]⟩
      obtain ⟨m1, hr1, heq⟩ := tokens_scans_token done' hg' hstop' hrest hn
      have hm1 := hr1.rest_of hrest
      have hlength : m1.rest.length ≤ n' + 1 := by
        rw [hrest, List.length_append] at hn
        rw [hm1]
        omega
      obtain ⟨l', m2, hl', hread', hlexeme⟩ := lexeme_again hc hl hread hm1 hloose hlength
      have hm2 := hread'.rest_of hm1
      have hlength' : m2.rest.length < n' := by
        rw [hrest] at hn
        simp only [List.cons_append, List.length_cons, List.length_append] at hn
        rw [hm2]
        omega
      have hdone' : (⟨l', m1.position, decide ('\n' ∈ gap')⟩ :: done').map Token.unplaced =
          (⟨l, k1.position, decide ('\n' ∈ gap)⟩ :: done).map Token.unplaced := by
        simp [Token.unplaced, hlexeme, hnewline, hdone]
      obtain ⟨us, hus, hsame⟩ := ih hnext (hrelaid m2 hm2) hlength' hdone'
      refine ⟨us, ?_, hsame⟩
      rw [heq, hl']
      exact hus

end Cursor

/-- The holes of a template hold the same tokens wherever the template stands. -/
theorem tokenizeAt_anywhere {source : String} {start : Position} {ts : Tokens} (h : tokenizeAt source start = .ok ts)
    (start' : Position) : ∃ us, tokenizeAt source start' = .ok us ∧ us.unplaced = ts.unplaced :=
  Cursor.tokens_relaid h (.same rfl) (by simp [Cursor.ofChars, String.length_toList]) rfl

theorem tokenize_relaid {before gap after : String} {ts : Tokens} (h : tokenize (before ++ after) = .ok ts)
    (hplace : Position.start.after before.toList ∈ ts.places) (hgap : Layout gap.toList) :
    ∃ us, tokenize (before ++ gap ++ after) = .ok us ∧ us.unplaced = ts.unplaced := by
  refine Cursor.tokens_relaid h (.layout hgap String.toList_append ?_ (by simp) hplace) ?_ rfl
  · simp [Cursor.ofChars, String.toList_append]
  · simp [Cursor.ofChars, String.length_toList, Nat.add_assoc]

end Apiary
