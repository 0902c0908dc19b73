import Apiary.Proofs.Source.Hole

/-!
What was scanned once is scanned again at any other place, and also when the text after it is loosened: from some
point on, which the scanner has not passed, it goes on with a blank or a line break.
-/

namespace Apiary

/-- The same text, or the same up to a point, from where it goes on with a blank or a line break. -/
inductive Loosened : List Char → List Char → Prop
  | same (u : List Char) : Loosened u u
  | blank {c : Char} {u u' : List Char} : c = ' ' ∨ c = '\t' ∨ c = '\n' → Loosened u (c :: u')
  | cons (c : Char) {u u' : List Char} : Loosened u u' → Loosened (c :: u) (c :: u')

/-- No space, no tab and no line break. -/
def Unblank (t : List Char) : Prop := ∀ c ∈ t, ¬ (c = ' ' ∨ c = '\t' ∨ c = '\n')

theorem Unblank.of_all {t : List Char} (h : t.all (fun c => ¬ (c = ' ' ∨ c = '\t' ∨ c = '\n')) = true) : Unblank t :=
  fun c hc => of_decide_eq_true (List.all_eq_true.mp h c hc)

namespace Loosened

variable {u u' : List Char}

theorem append_left (s : List Char) (h : Loosened u u') : Loosened (s ++ u) (s ++ u') := by
  induction s with
  | nil => exact h
  | cons c s ih => exact .cons c ih

theorem head {p : Char → Bool} (h : Loosened u u') (hp : p ' ' = false ∧ p '\t' = false ∧ p '\n' = false)
    (hu : ∀ c ∈ u.head?, p c = false) : ∀ c ∈ u'.head?, p c = false := by
  cases h with
  | same => exact hu
  | cons c => exact hu
  | blank hc =>
    intro d hd
    cases hd
    rcases hc with rfl | rfl | rfl
    · exact hp.1
    · exact hp.2.1
    · exact hp.2.2

/-- Without blanks, what opens the loosened text opens the text itself. -/
theorem prefix_of {t : List Char} (h : Loosened u u') (ht : Unblank t) (hp : t <+: u') :
    t <+: u := by
  induction h generalizing t with
  | same => exact hp
  | blank hc =>
    cases t with
    | nil => exact List.nil_prefix
    | cons d t =>
      obtain ⟨rfl, -⟩ := List.cons_prefix_cons.mp hp
      exact absurd hc (ht _ List.mem_cons_self)
  | cons c _ ih =>
    cases t with
    | nil => exact List.nil_prefix
    | cons d t =>
      obtain ⟨rfl, hrest⟩ := List.cons_prefix_cons.mp hp
      exact List.cons_prefix_cons.mpr ⟨rfl, ih (fun c hc => ht c (List.mem_cons_of_mem _ hc)) hrest⟩

end Loosened

theorem Exponent.unblank {text : List Char} (h : Exponent text) : Unblank text := by
  intro c hc hblank
  have hchars := h.chars c hc
  rcases hblank with rfl | rfl | rfl
  all_goals
    revert hchars
    decide

/-- The lexeme without the places of its holes. -/
def Lexeme.unplaced : Lexeme → Lexeme
  | .template parts => .template (parts.map TemplatePart.unplaced)
  | l => l

theorem Mark.unblank (m : Mark) : Unblank m.text.toList := by
  cases m <;> exact .of_all (by decide)

theorem NumberSpelling.ne_dot {x : Double} {text : List Char} (h : NumberSpelling x text) : text ≠ ['.'] := by
  cases h with
  | hex => simp
  | decimal _ _ _ _ hx =>
    intro hdot
    rw [hdot] at hx
    cases hx

namespace Cursor

theorem Reads.unique {k k' : Cursor} {s t : List Char} (h : k.Reads s k') (h' : k.Reads t k') : s = t :=
  h.textTo_eq.symm.trans h'.textTo_eq

theorem exponent_longest {mark : Char} {sign digits rest : List Char} {k : Cursor}
    (hmark : mark = 'e' ∨ mark = 'E') (hsign : sign = [] ∨ sign = ['+'] ∨ sign = ['-']) (hne : digits ≠ [])
    (hdigits : Digits digits) (hk : k.rest = mark :: sign ++ digits ++ rest) :
    k.Reads (mark :: sign ++ (digits ++ rest.takeWhile Char.isDigit)) k.exponent := by
  have hk' : k.rest = mark :: sign ++ (digits ++ rest.takeWhile Char.isDigit) ++ rest.dropWhile Char.isDigit := by
    rw [hk, List.append_assoc, List.append_assoc, List.append_assoc, List.takeWhile_append_dropWhile]
  refine exponent_scans_marked hmark hsign ?_ ?_ ?_ hk'
  · exact fun h => hne (List.append_eq_nil_iff.mp h).1
  · intro c hc
    rcases List.mem_append.mp hc with hc | hc
    · exact hdigits c hc
    · exact List.all_eq_true.mp List.all_takeWhile c hc
  · intro c hc
    have := List.head?_dropWhile_not Char.isDigit rest
    rw [Option.mem_def.mp hc] at this
    simpa using this

def afterPoint (k : Cursor) : Cursor :=
  match k.rest with
  | '.' :: _ => k.bump
  | _ => k

theorem afterPoint_cases (k : Cursor) :
    (∃ r, k.rest = '.' :: r ∧ k.afterPoint = k.bump) ∨ (k.rest.head? ≠ some '.' ∧ k.afterPoint = k) := by
  unfold afterPoint
  split
  next r h => exact .inl ⟨r, h, rfl⟩
  next h =>
    refine .inr ⟨fun hdot => ?_, rfl⟩
    obtain ⟨r, hr⟩ := List.head?_eq_some_iff.mp hdot
    exact h r hr

/-- A scanner that never fails, and that reads again what it has read. -/
structure Steady (g : Cursor → Cursor) : Prop where
  reads (k : Cursor) : ∃ s, k.Reads s (g k)
  again {k m : Cursor} {s u' : List Char} : k.Reads s (g k) → m.rest = s ++ u' → Loosened (g k).rest u' →
    m.Reads s (g m)

namespace Steady

variable {g h : Cursor → Cursor}

theorem comp (hg : Steady g) (hh : Steady h) : Steady fun k => h (g k) where
  reads k := by
    obtain ⟨s, hs⟩ := hg.reads k
    obtain ⟨t, ht⟩ := hh.reads (g k)
    exact ⟨s ++ t, hs.trans ht⟩
  again {k m s u'} hr hm hl := by
    obtain ⟨s₁, h₁⟩ := hg.reads k
    obtain ⟨s₂, h₂⟩ := hh.reads (g k)
    obtain rfl := hr.unique (h₁.trans h₂)
    rw [List.append_assoc] at hm
    have hfirst := hg.again h₁ hm (h₂.rest_eq ▸ hl.append_left s₂)
    exact hfirst.trans (hh.again h₂ (hfirst.rest_of hm) hl)

theorem skipWhile {p : Char → Bool} (hp : p ' ' = false ∧ p '\t' = false ∧ p '\n' = false) : Steady (skipWhile p) where
  reads k := ⟨_, reads_skipWhile p k⟩
  again {k m s u'} hr hm hl := by
    obtain rfl := hr.unique (reads_skipWhile p k)
    refine skipWhile_scans hm (fun c hc => List.all_eq_true.mp List.all_takeWhile c hc) ?_
    exact hl.head hp (head_skipWhile p k)

theorem exponent : Steady exponent where
  reads k := by
    obtain ⟨s, hs, -⟩ := exponent_reads k
    exact ⟨s, hs⟩
  again {k m s u'} hr hm hl := by
    obtain ⟨s', hs', hexp⟩ := exponent_reads k
    obtain rfl := hr.unique hs'
    cases hexp with
    | some hmark hsign hne hdigits =>
      refine exponent_scans_marked hmark hsign hne hdigits (hl.head (by decide) fun c hc => ?_) hm
      -- a digit that comes next would have been read
      have hlongest := hr.unique (exponent_longest hmark hsign hne hdigits hr.rest_eq)
      have hnone : k.exponent.rest.takeWhile Char.isDigit = [] := by simpa using hlongest
      obtain ⟨rest, hrest⟩ := List.head?_eq_some_iff.mp (Option.mem_def.mp hc)
      refine Bool.eq_false_iff.mpr fun hd => ?_
      simp [hrest, hd] at hnone
    | none =>
      obtain ⟨t, ht, hexp⟩ := exponent_reads m
      cases hexp with
      | none => exact ht
      | some hmark hsign hne hdigits =>
        have hblank := Exponent.unblank (.some hmark hsign hne hdigits)
        obtain ⟨rest, hrest⟩ := hl.prefix_of hblank ⟨m.exponent.rest, (hm.symm.trans ht.rest_eq).symm⟩
        have hk : k.rest = _ ++ rest := hr.rest_eq.trans hrest.symm
        exact absurd (hr.unique (exponent_longest hmark hsign hne hdigits hk)) (by simp)

theorem afterPoint : Steady afterPoint where
  reads k := by
    rcases afterPoint_cases k with ⟨r, hr, heq⟩ | ⟨-, heq⟩
    · exact ⟨_, by rw [heq]; exact reads_bump hr⟩
    · exact ⟨_, by rw [heq]; exact .refl k⟩
  again {k m s u'} hr hm hl := by
    rcases afterPoint_cases k with ⟨r, hk, heq⟩ | ⟨hk, heq⟩
    · rw [heq] at hr
      obtain rfl := hr.unique (reads_bump hk)
      rcases afterPoint_cases m with ⟨-, -, heq'⟩ | ⟨hm', -⟩
      · rw [heq']
        exact reads_bump hm
      · exact absurd (congrArg List.head? hm) hm'
    · rw [heq] at hr hl
      obtain rfl := hr.unique (Reads.refl k)
      rcases afterPoint_cases m with ⟨r, hm', -⟩ | ⟨-, heq'⟩
      · obtain ⟨rest, hrest⟩ := hl.prefix_of (t := ['.']) (.of_all (by decide)) ⟨r, (hm.symm.trans hm').symm⟩
        exact absurd (congrArg List.head? hrest.symm) hk
      · rw [heq']
        exact .refl m

theorem decimalEnd : Steady decimalEnd :=
  (((skipWhile (by decide)).comp afterPoint).comp (skipWhile (by decide))).comp exponent

end Steady

section Lexeme

variable {k k' m : Cursor} {s u' : List Char} {l : Lexeme}

theorem decimalNumber_again (h : k.decimalNumber = .ok (l, k')) (hr : k.Reads s k') (hm : m.rest = s ++ u')
    (hl : Loosened k'.rest u') : ∃ m', m.decimalNumber = .ok (l, m') ∧ m.Reads s m' := by
  simp only [decimalNumber] at h
  split at h
  next x hx =>
    cases h
    have hagain := Steady.decimalEnd.again hr hm hl
    rw [hr.textTo_eq] at hx
    exact ⟨_, by simp only [decimalNumber, hagain.textTo_eq, hx], hagain⟩
  next => cases h

theorem hexNumber_again {mark : Char} {rest : List Char} (hk : k.rest = '0' :: mark :: rest)
    (h : k.hexNumber = .ok (l, k')) (hr : k.Reads s k') (hm : m.rest = s ++ u') (hl : Loosened k'.rest u') :
    (∃ tail, s = '0' :: mark :: tail) ∧ ∃ m', m.hexNumber = .ok (l, m') ∧ m.Reads s m' := by
  simp only [hexNumber] at h
  split at h
  next n hn =>
    cases h
    have hopen : k.Reads ['0', mark] (k.drop 2) := reads_drop ['0', mark] hk
    have hdigits := reads_skipWhile isHexDigit (k.drop 2)
    obtain rfl := hr.unique (hopen.trans hdigits)
    have hopen' : m.Reads ['0', mark] (m.drop 2) := reads_drop ['0', mark] (by rw [hm, List.append_assoc])
    have hagain := (Steady.skipWhile (by decide)).again hdigits
      (hopen'.rest_of (hm.trans (List.append_assoc _ _ _))) hl
    rw [hdigits.textTo_eq] at hn
    exact ⟨⟨_, rfl⟩, _, by simp only [hexNumber, hagain.textTo_eq, hn], hopen'.trans hagain⟩
  next => cases h

theorem number_again (h : k.number = .ok (l, k')) (hr : k.Reads s k') (hm : m.rest = s ++ u')
    (hl : Loosened k'.rest u') : ∃ m', m.number = .ok (l, m') ∧ m.Reads s m' := by
  have hloose : Loosened k.rest m.rest := by
    rw [hr.rest_eq, hm]
    exact hl.append_left s
  unfold number at h
  split at h
  next rest hk =>
    obtain ⟨⟨tail, rfl⟩, m', hm', hread⟩ := hexNumber_again hk h hr hm hl
    exact ⟨m', by simp only [number, hm, List.cons_append, hm'], hread⟩
  next rest hk =>
    obtain ⟨⟨tail, rfl⟩, m', hm', hread⟩ := hexNumber_again hk h hr hm hl
    exact ⟨m', by simp only [number, hm, List.cons_append, hm'], hread⟩
  next hx hX =>
    obtain ⟨m', hm', hread⟩ := decimalNumber_again h hr hm hl
    refine ⟨m', ?_, hread⟩
    unfold number
    split
    next rest hrest =>
      obtain ⟨r, hr⟩ := hloose.prefix_of (t := ['0', 'x']) (.of_all (by decide)) ⟨rest, hrest.symm⟩
      exact absurd hr.symm (hx r)
    next rest hrest =>
      obtain ⟨r, hr⟩ := hloose.prefix_of (t := ['0', 'X']) (.of_all (by decide)) ⟨rest, hrest.symm⟩
      exact absurd hr.symm (hX r)
    next => exact hm'

theorem string_again {n n' : Nat} {quote : Char} {rest : List Char} {t : String}
    (hquote : quote = '"' ∨ quote = '\'') (hk : k.rest = quote :: rest) (h : k.string n quote = .ok (t, k'))
    (hr : k.Reads s k') (hm : m.rest = s ++ u') (hn : m.rest.length ≤ n') :
    ∃ m', m.string n' quote = .ok (t, m') ∧ m.Reads s m' := by
  obtain ⟨body, text, rfl, hr', hq⟩ := string_reads hk h
  obtain rfl := hr.unique hr'
  have hne : quote ≠ '\\' := by rcases hquote with rfl | rfl <;> decide
  have hopen : m.Reads [quote] m.bump := reads_bump hm
  have hbody : m.bump.rest = text ++ quote :: u' := by simp [hopen.rest_of hm]
  obtain ⟨m', hread, hs⟩ := stringBody_scans hq hne n' [] hbody (by
    rw [hm] at hn
    simp at hn
    omega)
  exact ⟨m', hs, hopen.trans hread⟩

theorem template_again {n n' : Nat} {rest : List Char} (hk : k.rest = backquote :: rest)
    (h : k.template n = .ok (l, k')) (hr : k.Reads s k') (hm : m.rest = s ++ u') (hn : m.rest.length ≤ n') :
    ∃ l' m', m.template n' = .ok (l', m') ∧ m.Reads s m' ∧ l'.unplaced = l.unplaced := by
  obtain ⟨text, hr', hs⟩ := template_reads hk h
  obtain rfl := hr.unique hr'
  obtain ⟨⟨parts, k1⟩, -, h⟩ := ok_of_bind h
  cases h
  generalize hparts : parts.reverse = scanned at hs
  cases hs with
  | @template items text hf =>
    have hopen : m.Reads [backquote] m.bump := reads_bump hm
    have hbody : m.bump.rest = text ++ backquote :: u' := by simp [hopen.rest_of hm]
    obtain ⟨parts', m', hread, hb, hp⟩ := (template_and_hole_scan n').1 [] [] hf hbody (by
      rw [hm] at hn
      simp at hn
      omega)
    refine ⟨.template parts'.reverse, m', ?_, hopen.trans hread, ?_⟩
    · simp [template, hb, bind, Except.bind, pure, Except.pure]
    · simp only [Lexeme.unplaced, hp]
      rfl

theorem mark_again {c : Char} (h : k.mark c = .ok (l, k')) (hr : k.Reads s k') (hm : m.rest = s ++ u')
    (hl : Loosened k'.rest u') : ∃ m', m.mark c = .ok (l, m') ∧ m.Reads s m' := by
  have hloose : Loosened k.rest m.rest := by
    rw [hr.rest_eq, hm]
    exact hl.append_left s
  simp only [mark] at h
  split at h
  next mk hfind =>
    cases h
    obtain ⟨hstart, front, back, hall, hnone⟩ := List.find?_eq_some_iff_append.mp hfind
    obtain ⟨r, hkr⟩ := List.isPrefixOf_iff_prefix.mp hstart
    obtain rfl := hr.unique (reads_drop mk.text.toList hkr.symm)
    -- an earlier mark that opened the loosened text would have opened the text itself
    have hfind' : Mark.all.find? (fun mk => startsWith mk.text.toList m.rest) = some mk := by
      refine List.find?_eq_some_iff_append.mpr ⟨?_, front, back, hall, fun mk' hmk' => ?_⟩
      · exact List.isPrefixOf_iff_prefix.mpr ⟨u', hm.symm⟩
      · have hno := hnone mk' hmk'
        rw [Bool.not_eq_true', Bool.eq_false_iff] at hno ⊢
        exact fun hopen => hno (List.isPrefixOf_iff_prefix.mpr
          (hloose.prefix_of mk'.unblank (List.isPrefixOf_iff_prefix.mp hopen)))
    exact ⟨_, by simp only [mark, hfind', String.length_toList], reads_drop mk.text.toList hm⟩
  next => cases h

theorem lexeme_again {n n' : Nat} {c : Char} {rest : List Char} (hk : k.rest = c :: rest)
    (h : k.lexeme n c = .ok (l, k')) (hr : k.Reads s k') (hm : m.rest = s ++ u') (hl : Loosened k'.rest u')
    (hn : m.rest.length ≤ n') : ∃ l' m', m.lexeme n' c = .ok (l', m') ∧ m.Reads s m' ∧ l'.unplaced = l.unplaced := by
  obtain ⟨text, hr', hspell⟩ := lexeme_reads hk h
  obtain rfl := hr.unique hr'
  obtain ⟨s, rfl⟩ : ∃ s', s = c :: s' := by
    obtain ⟨d, s', rfl⟩ := List.exists_cons_of_ne_nil hspell.ne_nil
    exact ⟨s', by rw [(List.cons.inj (hk.symm.trans hr.rest_eq)).1]⟩
  have number (h : k.number = .ok (l, k')) :
      ∃ l' m', m.number = .ok (l', m') ∧ m.Reads (c :: s) m' ∧ l'.unplaced = l.unplaced := by
    obtain ⟨m', hm', hread⟩ := number_again h hr hm hl
    exact ⟨l, m', hm', hread, rfl⟩
  simp only [lexeme] at h ⊢
  split at h
  next hdigit =>
    rw [if_pos hdigit]
    exact number h
  next hdigit =>
  rw [if_neg hdigit]
  split at h
  next hdot =>
    obtain ⟨x, text, -, hr', hnumber⟩ := number_reads h
    obtain rfl := hr.unique hr'
    rw [if_pos]
    · exact number h
    · -- the digit after the dot is part of the number
      refine ⟨hdot.1, ?_⟩
      cases s with
      | nil => exact absurd (congrArg (fun c => [c]) hdot.1) hnumber.ne_dot
      | cons d s =>
        rw [hr.rest_eq] at hdot
        rw [hm]
        exact hdot.2
  next hdot =>
  have hdot' : ¬ (c = '.' ∧ m.rest.tail.head?.any Char.isDigit = true) := by
    rintro ⟨hc, hd⟩
    obtain ⟨d, hhead, hd⟩ := Option.any_eq_true .. |>.mp hd
    rw [hm] at hhead
    refine Bool.eq_false_iff.mp ((hl.append_left s).head (p := Char.isDigit) (by decide) ?_ d hhead) hd
    intro e he
    refine Bool.eq_false_iff.mpr fun hdigit => hdot ⟨hc, ?_⟩
    rw [hr.rest_eq]
    exact Option.any_eq_true .. |>.mpr ⟨e, he, hdigit⟩
  rw [if_neg hdot']
  split at h
  next hquote =>
    rw [if_pos hquote]
    obtain ⟨⟨t, k1⟩, ht, h⟩ := ok_of_bind h
    cases h
    obtain ⟨m', hm', hread⟩ := string_again hquote hk ht hr hm hn
    exact ⟨_, m', by simp [hm', bind, Except.bind, pure, Except.pure], hread, rfl⟩
  next hquote =>
  rw [if_neg hquote]
  split at h
  next hback =>
    rw [if_pos hback]
    exact template_again (hback ▸ hk) h hr hm hn
  next hback =>
  rw [if_neg hback]
  split at h
  next hstart =>
    cases h
    have hagain := (Steady.skipWhile (p := isNamePart) (by decide)).again hr hm hl
    rw [if_pos hstart, hr.textTo_eq]
    exact ⟨_, _, by rw [hagain.textTo_eq], hagain, rfl⟩
  next hstart =>
    rw [if_neg hstart]
    obtain ⟨m', hm', hread⟩ := mark_again h hr hm hl
    exact ⟨l, m', hm', hread, rfl⟩

end Lexeme

end Cursor

end Apiary
