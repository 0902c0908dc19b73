import Apiary.Proofs.Source.Layout

/-!
Texts put after one another, with a gap between them that begins with a line break. The tokens are those of the first
text and then those of the second, of which the first comes after a line break now.
-/

namespace Apiary

namespace Tokens

/-- These tokens, and then those that come next. -/
def extend (ts next : Tokens) : Tokens := ⟨ts.ahead ++ next.ahead, next.endPosition, next.newlineAtEnd⟩

/-- The same tokens after a line break. -/
def opened (ts : Tokens) : Tokens :=
  match ts.ahead with
  | [] => { ts with newlineAtEnd := true }
  | t :: rest => { ts with ahead := { t with newlineBefore := true } :: rest }

theorem unplaced_extend (ts next : Tokens) : (ts.extend next).unplaced = ts.unplaced.extend next.unplaced := by
  simp [extend, unplaced]

theorem unplaced_opened (ts : Tokens) : ts.opened.unplaced = ts.unplaced.opened := by
  obtain ⟨_ | ⟨t, rest⟩, _, _⟩ := ts <;> rfl

end Tokens

/-- A gap that any other gap may come after, with a line break in it. -/
structure Break (g : List Char) : Prop where
  leads {gap rest : List Char} : Gap gap rest → Gap (g ++ gap) rest
  line : '\n' ∈ g

namespace Break

variable {g : List Char}

/-- A comment that fills a line. -/
theorem comment {text : List Char} (h : '\n' ∉ text) : Break ('/' :: '/' :: text ++ ['\n']) where
  leads hgap := by
    have hrest := Gap.blank (c := '\n') (by decide) hgap
    simpa using Gap.line h (by simp) hrest
  line := by simp

theorem blank {c : Char} (hc : isBlank c = true) (h : Break g) : Break (c :: g) where
  leads hgap := .blank hc (h.leads hgap)
  line := List.mem_cons_of_mem _ h.line

/-- Layout at the end of a text ends with the line. -/
theorem after {gap : List Char} (h : Break g) (hstart : g.head? = some '\n') (hgap : Gap gap []) : Break (gap ++ g) where
  leads {gap' rest'} hgap' := by
    generalize hrest : ([] : List Char) = rest at hgap
    induction hgap with
    | nil => exact h.leads hgap'
    | blank hc _ ih => exact .blank hc (ih hrest)
    | @line text gap _ hline hend _ ih =>
      subst hrest
      have hline' : Gap ('/' :: '/' :: text ++ (gap ++ g ++ gap')) rest' := by
        refine .line hline ?_ (ih rfl)
        cases gap with
        | nil =>
          obtain ⟨g, rfl⟩ := List.head?_eq_some_iff.mp hstart
          simp
        | cons c gap => simpa using hend
      simpa using hline'
    | @block text gap _ hclosed _ ih => simpa using Gap.block hclosed (ih hrest)
  line := List.mem_append_right _ h.line

end Break

namespace Cursor

variable {n n' : Nat} {k u m : Cursor} {ts us : Tokens} {g : List Char}

/-- Tokens read before are put in front. -/
theorem tokens_done (n : Nat) (done : List Token) (k : Cursor) :
    tokens n done k = (tokens n [] k).map fun ts => { ts with ahead := done.reverse ++ ts.ahead } := by
  induction n generalizing done k with
  | zero => rfl
  | succ n ih =>
    simp only [tokens, bind, Except.bind]
    split
    · rfl
    · split
      · simp [pure, Except.pure, Except.map]
      · split
        · rfl
        · rw [ih (_ :: done), ih [_]]
          cases tokens n [] _ <;> simp [Except.map]

theorem tokens_first {t : Token} (h : tokens n [t] k = .ok ts) :
    ∃ us, tokens n [] k = .ok us ∧ ts = { us with ahead := t :: us.ahead } := by
  rw [tokens_done] at h
  cases hus : tokens n [] k with
  | error e => simp [hus, Except.map] at h
  | ok us =>
    refine ⟨us, rfl, ?_⟩
    rw [hus] at h
    exact (Except.ok.inj h).symm

/-- A token is read again behind another gap, and then what comes after it. -/
theorem token_again {gap text rest u' : List Char} {c : Char} {l : Lexeme} {k1 k2 : Cursor} (hc : k1.rest = c :: rest)
    (hl : k1.lexeme (n + 1) c = .ok (l, k2)) (hread : k1.Reads text k2) (hne : text ≠ []) (hstop : Unspaced k1.rest)
    (hg : Gap gap (text ++ u')) (hloose : Loosened k2.rest u') (hm : m.rest = gap ++ (text ++ u'))
    (hn : m.rest.length < n') :
    ∃ l' p n₂ m₂, l'.unplaced = l.unplaced ∧ m₂.rest = u' ∧ m₂.rest.length < n₂ ∧ ∀ vs, tokens n₂ [] m₂ = .ok vs →
      tokens n' [] m = .ok { vs with ahead := ⟨l', p, decide ('\n' ∈ gap)⟩ :: vs.ahead } := by
  obtain ⟨n', rfl⟩ : ∃ j, n' = j + 1 := ⟨n' - 1, by omega⟩
  obtain ⟨tail, rfl⟩ : ∃ tail, text = c :: tail := by
    obtain ⟨d, tail, rfl⟩ := List.exists_cons_of_ne_nil hne
    exact ⟨tail, by rw [(List.cons.inj (hc.symm.trans hread.rest_eq)).1]⟩
  have hstop' := Unspaced.loosened (hread.rest_eq ▸ hstop) hne hloose
  obtain ⟨m₁, hr, heq⟩ := tokens_scans_token [] hg hstop' hm hn
  have hm₁ := hr.rest_of hm
  rw [hm, List.length_append] at hn
  have hlength : m₁.rest.length ≤ n' + 1 := by
    rw [hm₁]
    omega
  obtain ⟨l', m₂, hl', hread', hlexeme⟩ := lexeme_again hc hl hread hm₁ hloose hlength
  have hm₂ := hread'.rest_of hm₁
  refine ⟨l', m₁.position, n', m₂, hlexeme, hm₂, ?_, fun vs hvs => ?_⟩
  · simp only [List.cons_append, List.length_cons, List.length_append] at hn
    rw [hm₂]
    omega
  · rw [heq, hl']
    change tokens n' [_] m₂ = _
    rw [tokens_done, hvs]
    rfl

/-- The tokens of a text with such a gap put before it. -/
theorem tokens_behind (h : tokens n [] k = .ok ts) (hg : Break g) (hm : m.rest = g ++ k.rest)
    (hn : m.rest.length < n') : ∃ us, tokens n' [] m = .ok us ∧ us.unplaced = ts.opened.unplaced := by
  cases n with
  | zero => cases h
  | succ n =>
  cases tokens_step h with
  | @last gap k' hr hgap hend hts =>
    have hk : k.rest = gap := by rw [hr.rest_eq, hend, List.append_nil]
    obtain ⟨m', hm'⟩ := tokens_scans_last (hg.leads hgap) (by rw [hm, hk]) hn
    refine ⟨_, hm', ?_⟩
    simp [hts, Tokens.opened, Tokens.unplaced, hg.line]
  | @token gap text rest c l k1 k2 hr hgap hstop hc hl hread hne hnext =>
    obtain ⟨ts, hts, rfl⟩ := tokens_first hnext
    rw [hr.rest_eq, hread.rest_eq, ← List.append_assoc] at hm
    obtain ⟨l', p, n₂, m₂, hlexeme, hm₂, hn₂, hus⟩ :=
      token_again hc hl hread hne hstop (hread.rest_eq ▸ hg.leads hgap) (.same _) hm hn
    obtain ⟨us, htail, hsame⟩ := tokens_relaid hts (.same hm₂) hn₂ rfl
    refine ⟨_, hus us htail, ?_⟩
    simp only [Tokens.unplaced, Tokens.mk.injEq] at hsame
    simp [Tokens.opened, Tokens.unplaced, Token.unplaced, hlexeme, hg.line, hsame]

/-- The tokens of two texts with such a gap between them. -/
theorem tokens_joined (h : tokens n [] k = .ok ts) {n₂ : Nat} (hu : tokens n₂ [] u = .ok us) (hg : Break g)
    (hstart : g.head? = some '\n') (hm : m.rest = k.rest ++ (g ++ u.rest)) (hn : m.rest.length < n') :
    ∃ vs, tokens n' [] m = .ok vs ∧ vs.unplaced = (ts.extend us.opened).unplaced := by
  induction n generalizing n' k m ts with
  | zero => cases h
  | succ n ih =>
  cases tokens_step h with
  | @last gap k' hr hgap hend hts =>
    rw [hr.rest_eq, hend, List.append_nil, ← List.append_assoc] at hm
    obtain ⟨vs, hvs, hsame⟩ := tokens_behind hu (hg.after hstart hgap) hm hn
    refine ⟨vs, hvs, ?_⟩
    simpa [hts, Tokens.extend] using hsame
  | @token gap text rest c l k1 k2 hr hgap hstop hc hl hread hne hnext =>
    obtain ⟨ts, hts, rfl⟩ := tokens_first hnext
    have hloose : Loosened k2.rest (k2.rest ++ (g ++ u.rest)) := by
      obtain ⟨g, rfl⟩ := List.head?_eq_some_iff.mp hstart
      have hblank := (Loosened.blank (.inr (.inr rfl)) : Loosened [] ('\n' :: (g ++ u.rest)))
      simpa using hblank.append_left k2.rest
    rw [hr.rest_eq, hread.rest_eq, List.append_assoc, List.append_assoc] at hm
    have hgap' : Gap gap (text ++ (k2.rest ++ (g ++ u.rest))) := by
      refine hgap.relocate ?_
      rw [hread.rest_eq, List.head?_append_of_ne_nil _ hne, List.head?_append_of_ne_nil _ hne]
    obtain ⟨l', p, n₂, m₂, hlexeme, hm₂, hn₂, hvs⟩ := token_again hc hl hread hne hstop hgap' hloose hm hn
    obtain ⟨vs, htail, hsame⟩ := ih hts hm₂ hn₂
    refine ⟨_, hvs vs htail, ?_⟩
    simp only [Tokens.unplaced, Tokens.mk.injEq] at hsame
    simp [Tokens.extend, Tokens.unplaced, Token.unplaced, hlexeme] at hsame ⊢
    exact hsame

end Cursor

theorem tokenize_behind {gap source : String} {ts : Tokens} (h : tokenize source = .ok ts) (hg : Break gap.toList) :
    ∃ us, tokenize (gap ++ source) = .ok us ∧ us.unplaced = ts.opened.unplaced :=
  Cursor.tokens_behind h hg (by simp [Cursor.ofChars, String.toList_append])
    (by simp [Cursor.ofChars, String.length_toList])

theorem tokenize_joined {first gap second : String} {ts us : Tokens} (h : tokenize first = .ok ts)
    (hu : tokenize second = .ok us) (hg : Break gap.toList) (hstart : gap.toList.head? = some '\n') :
    ∃ vs, tokenize (first ++ (gap ++ second)) = .ok vs ∧ vs.unplaced = (ts.extend us.opened).unplaced :=
  Cursor.tokens_joined h hu hg hstart (by simp [Cursor.ofChars, String.toList_append])
    (by simp [Cursor.ofChars, String.length_toList])

end Apiary
