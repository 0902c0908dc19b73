import Apiary.Proofs.Source.Spelling
import Apiary.Proofs.Success
import Mathlib.Data.List.Infix

/-!
What a scanner reads when it succeeds: the characters it passed over are a gap or a spelling of what it gives.
-/

namespace Apiary

namespace Cursor

variable {k k' : Cursor}

theorem reads_drop (text : List Char) {rest : List Char} (h : k.rest = text ++ rest) :
    k.Reads text (k.drop text.length) := by
  induction text generalizing k with
  | nil => exact Reads.refl k
  | cons c text ih =>
    have first : k.Reads [c] k.bump := reads_bump h
    have left : k.bump.rest = text ++ rest := by simp [bump, h]
    exact first.trans (ih left)

theorem head_skipWhile (p : Char → Bool) (k : Cursor) : ∀ c ∈ (k.skipWhile p).rest.head?, p c = false := by
  have key : ∀ (s : List Char) (a : Position) (n : Nat), ∀ c ∈ (skipFrom p s a n).rest.head?, p c = false := by
    intro s
    induction s with
    | nil => intro a n c hc; cases hc
    | cons d s ih =>
      intro a n c hc
      by_cases hd : p d = true
      · simp only [skipFrom, hd, if_true] at hc
        exact ih _ _ c hc
      · simp only [skipFrom, hd] at hc
        cases hc
        exact Bool.eq_false_iff.mpr hd
  exact key k.rest k.position k.offset

theorem blockComment_reads {n : Nat} {newline found : Bool}
    (h : blockComment n newline k = .ok (found, k')) :
    ∃ text, k.Reads (text ++ ['*', '/']) k' ∧ ¬ ['*', '/'] <:+: text ∧
      (found = true ↔ newline = true ∨ '\n' ∈ text) := by
  induction n generalizing newline k with
  | zero => cases h
  | succ n ih =>
    simp only [blockComment] at h
    split at h
    · cases h
    · next rest hk =>
      cases h
      exact ⟨[], reads_drop ['*', '/'] hk, by simp, by simp⟩
    · next c rest hopen hk =>
      obtain ⟨text, hr, hin, hn⟩ := ih h
      have hrest : rest = text ++ '*' :: '/' :: k'.rest := by
        have := hr.rest_eq
        simpa [bump, hk] using this
      refine ⟨c :: text, (reads_bump hk).trans hr, ?_, ?_⟩
      · intro hc
        rcases List.infix_cons_iff.mp hc with hp | hi
        · -- a comment that ended here would have been closed by the rule before
          obtain ⟨hstar, hp⟩ := List.cons_prefix_cons.mp hp
          cases text with
          | nil => simp at hp
          | cons d text =>
            obtain ⟨hslash, -⟩ := List.cons_prefix_cons.mp hp
            exact hopen (text ++ '*' :: '/' :: k'.rest) hstar.symm (by rw [hrest, ← hslash]; rfl)
        · exact hin hi
      · rw [hn]
        simp [or_assoc, eq_comm (a := '\n')]

theorem trivia_reads {n : Nat} {newline found : Bool} (h : trivia n newline k = .ok (found, k')) :
    ∃ gap, k.Reads gap k' ∧ Gap gap k'.rest ∧ (found = true ↔ newline = true ∨ '\n' ∈ gap) := by
  induction n generalizing newline k with
  | zero => cases h
  | succ n ih =>
    simp only [trivia] at h
    split at h
    · next rest hk =>
      obtain ⟨gap, hr, hg, hn⟩ := ih h
      let text := rest.takeWhile (· ≠ '\n')
      have hline : k.Reads ('/' :: '/' :: text) (k.skipWhile (· ≠ '\n')) := by
        have := reads_skipWhile (· ≠ '\n') k
        simpa [hk, text] using this
      have hout : '\n' ∉ text := by
        intro hm
        simpa using List.all_eq_true.mp List.all_takeWhile _ hm
      have hend : ∀ c ∈ (gap ++ k'.rest).head?, c = '\n' := by
        intro c hc
        rw [← hr.rest_eq] at hc
        simpa using head_skipWhile (· ≠ '\n') k c hc
      refine ⟨_, hline.trans hr, Gap.line hout hend hg, ?_⟩
      simp [hn, hout]
    · next rest hk =>
      obtain ⟨⟨mid, k1⟩, hb, ht⟩ := ok_of_bind h
      obtain ⟨text, hr1, hin, hn1⟩ := blockComment_reads hb
      obtain ⟨gap, hr2, hg, hn2⟩ := ih ht
      have hopen : k.Reads ['/', '*'] (k.drop 2) := reads_drop ['/', '*'] hk
      refine ⟨'/' :: '*' :: text ++ '*' :: '/' :: gap, ?_, Gap.block hin hg, ?_⟩
      · simpa using (hopen.trans hr1).trans hr2
      · simp [hn1, hn2, or_assoc]
    · next c rest _ _ hk =>
      split at h
      · next hc =>
        obtain ⟨gap, hr, hg, hn⟩ := ih h
        refine ⟨c :: gap, (reads_bump hk).trans hr, Gap.blank hc hg, ?_⟩
        simp [hn, or_assoc, eq_comm (a := '\n')]
      · cases h
        exact ⟨[], Reads.refl _, Gap.nil, by simp⟩
    · cases h
      exact ⟨[], Reads.refl _, Gap.nil, by simp⟩

theorem hexDigits_reads {n code v : Nat} (h : hexDigits n code k = .ok (v, k')) :
    ∃ digits, k.Reads digits k' ∧ digits.length = n ∧
      digits.foldlM (fun n c => (digitOf? 16 c).map (n * 16 + ·)) code = some v := by
  induction n generalizing code k with
  | zero =>
    cases h
    exact ⟨[], Reads.refl _, rfl, rfl⟩
  | succ n ih =>
    simp only [hexDigits] at h
    split at h
    · cases h
    · next c rest hk =>
      split at h
      · cases h
      · next d hd =>
        obtain ⟨digits, hr, hlen, hv⟩ := ih h
        refine ⟨c :: digits, (reads_bump hk).trans hr, by simp [hlen], ?_⟩
        simpa [hd] using hv

theorem escape_reads {c : Char} (h : k.escape = .ok (c, k')) : ∃ e, k.Reads e k' ∧ Escape c e := by
  simp only [escape] at h
  split at h
  · cases h
  · next rest hk =>
    obtain ⟨⟨code, k1⟩, hd, h⟩ := ok_of_bind h
    cases h
    obtain ⟨digits, hr, hlen, hv⟩ := hexDigits_reads hd
    have hvalue : valueOf? 16 digits = some code := by
      cases digits with
      | nil => simp at hlen
      | cons d digits => exact hv
    exact ⟨'u' :: digits, (reads_bump hk).trans hr, Escape.code hlen hvalue⟩
  · next d rest hu hk =>
    cases h
    exact ⟨[d], reads_bump hk, Escape.simple fun hd => hu hd⟩

theorem stringBody_reads {quote : Char} {n : Nat} {done : List Char} {s : String}
    (h : stringBody quote n done k = .ok (s, k')) :
    ∃ body text, s = String.ofList (done.reverse ++ body) ∧ k.Reads (text ++ [quote]) k' ∧
      Quoted quote body text := by
  induction n generalizing done k with
  | zero => cases h
  | succ n ih =>
    simp only [stringBody] at h
    split at h
    · cases h
    · next c rest hk =>
      split at h
      · next hc =>
        cases h
        exact ⟨[], [], by simp, by simpa [hc] using reads_bump hk, Quoted.nil⟩
      · next hquote =>
        split at h
        · next hc =>
          obtain ⟨⟨e, k1⟩, he, h⟩ := ok_of_bind h
          obtain ⟨body, text, hs, hr, hq⟩ := ih h
          obtain ⟨spelled, hr1, hspell⟩ := escape_reads he
          subst hc
          refine ⟨e :: body, '\\' :: spelled ++ text, by simpa using hs, ?_, Quoted.escape hspell hq⟩
          simpa using ((reads_bump hk).trans hr1).trans hr
        · next hslash =>
          split at h
          · cases h
          · next hline =>
            obtain ⟨body, text, hs, hr, hq⟩ := ih h
            exact ⟨c :: body, c :: text, by simpa using hs, (reads_bump hk).trans hr,
              Quoted.plain hquote hslash hline hq⟩

theorem string_reads {n : Nat} {quote : Char} {rest : List Char} {s : String} (hk : k.rest = quote :: rest)
    (h : k.string n quote = .ok (s, k')) :
    ∃ body text, s = String.ofList body ∧ k.Reads (quote :: text ++ [quote]) k' ∧ Quoted quote body text := by
  obtain ⟨body, text, hs, hr, hq⟩ := stringBody_reads h
  exact ⟨body, text, hs, (reads_bump hk).trans hr, hq⟩

theorem exponent_reads (k : Cursor) : ∃ text, k.Reads text k.exponent ∧ Exponent text := by
  have digitsFrom : ∀ {k2 : Cursor} {marked : List Char} {d : Char} {rest : List Char}, k.Reads marked k2 →
      k2.rest = d :: rest → d.isDigit = true →
      ∃ digits, k.Reads (marked ++ digits) (k2.skipWhile Char.isDigit) ∧ digits ≠ [] ∧ Digits digits := by
    intro k2 marked d rest hm hk hd
    refine ⟨k2.rest.takeWhile Char.isDigit, hm.trans (reads_skipWhile _ k2), ?_, ?_⟩
    · simp [hk, hd]
    · exact fun c hc => List.all_eq_true.mp List.all_takeWhile c hc
  have none : ∃ text, k.Reads text k ∧ Exponent text := ⟨[], Reads.refl k, Exponent.none⟩
  simp only [exponent]
  split
  · next c rest hk =>
    split
    · next hc =>
      have hmark : k.Reads [c] k.bump := reads_bump hk
      split
      · next d r hsigned =>
        split
        · next hd =>
          have signed {sign : List Char} {k2 : Cursor} (hsign : sign = [] ∨ sign = ['+'] ∨ sign = ['-'])
              (hread : k.Reads (c :: sign) k2) (hk2 : k2.rest = d :: r) :
              ∃ text, k.Reads text (k2.skipWhile Char.isDigit) ∧ Exponent text := by
            obtain ⟨digits, hr, hne, hdigits⟩ := digitsFrom hread hk2 hd
            exact ⟨c :: sign ++ digits, hr, Exponent.some hc hsign hne hdigits⟩
          -- the sign, if there is one
          revert hsigned
          split
          · next r hr => exact signed (.inr (.inl rfl)) (hmark.trans (reads_bump hr))
          · next r hr => exact signed (.inr (.inr rfl)) (hmark.trans (reads_bump hr))
          · exact signed (.inl rfl) hmark
        · exact none
      · exact none
    · exact none
  · exact none

theorem decimalEnd_reads (k : Cursor) : ∃ whole point fraction exponent,
    k.Reads (whole ++ point ++ fraction ++ exponent) k.decimalEnd ∧ Separated whole ∧
      (point = [] ∨ point = ['.']) ∧ Separated fraction ∧ Exponent exponent := by
  have separated (k : Cursor) : Separated (k.rest.takeWhile isDigitOrSeparator) :=
    fun c hc => List.all_eq_true.mp List.all_takeWhile c hc
  let whole := k.skipWhile isDigitOrSeparator
  have hwhole : k.Reads (k.rest.takeWhile isDigitOrSeparator) whole := reads_skipWhile _ k
  obtain ⟨point, k1, hpoint, hread, heq⟩ : ∃ point k1,
      (point = [] ∨ point = ['.']) ∧ whole.Reads point k1 ∧
      k.decimalEnd = (k1.skipWhile isDigitOrSeparator).exponent := by
    unfold decimalEnd
    dsimp only
    split
    · next r hr => exact ⟨['.'], _, .inr rfl, reads_bump hr, rfl⟩
    · exact ⟨[], _, .inl rfl, Reads.refl _, rfl⟩
  obtain ⟨exponent, hexp, hexponent⟩ := exponent_reads (k1.skipWhile isDigitOrSeparator)
  refine ⟨_, point, _, exponent, ?_, separated k, hpoint, separated k1, hexponent⟩
  rw [heq]
  exact ((hwhole.trans hread).trans (reads_skipWhile _ k1)).trans hexp

theorem decimalNumber_reads {l : Lexeme} (h : k.decimalNumber = .ok (l, k')) :
    ∃ x text, l = .number x ∧ k.Reads text k' ∧ NumberSpelling x text := by
  obtain ⟨whole, point, fraction, exponent, hr, hw, hp, hf, he⟩ := decimalEnd_reads k
  simp only [decimalNumber] at h
  split at h
  · next x hx =>
    cases h
    rw [hr.textTo_eq] at hx
    exact ⟨x, _, rfl, hr, NumberSpelling.decimal hw hp hf he hx⟩
  · cases h

theorem hexNumber_reads {mark : Char} {rest : List Char} {l : Lexeme} (hk : k.rest = '0' :: mark :: rest)
    (hmark : mark = 'x' ∨ mark = 'X') (h : k.hexNumber = .ok (l, k')) :
    ∃ x text, l = .number x ∧ k.Reads text k' ∧ NumberSpelling x text := by
  simp only [hexNumber] at h
  split at h
  · next n hn =>
    cases h
    obtain ⟨hvalue, hlimit⟩ := Option.filter_eq_some_iff.mp hn
    have hopen : k.Reads ['0', mark] (k.drop 2) := reads_drop ['0', mark] hk
    have hdigits := reads_skipWhile isHexDigit (k.drop 2)
    rw [hdigits.textTo_eq] at hvalue
    exact ⟨_, _, rfl, hopen.trans hdigits, NumberSpelling.hex hmark hvalue (by simpa using hlimit)⟩
  · cases h

theorem number_reads {l : Lexeme} (h : k.number = .ok (l, k')) :
    ∃ x text, l = .number x ∧ k.Reads text k' ∧ NumberSpelling x text := by
  simp only [number] at h
  split at h
  · next rest hk => exact hexNumber_reads hk (.inl rfl) h
  · next rest hk => exact hexNumber_reads hk (.inr rfl) h
  · exact decimalNumber_reads h

theorem mark_reads {c : Char} {l : Lexeme} (h : k.mark c = .ok (l, k')) :
    ∃ m : Mark, l = .mark m ∧ k.Reads m.text.toList k' := by
  simp only [mark] at h
  split at h
  · next m hm =>
    cases h
    have hstart : startsWith m.text.toList k.rest = true :=
      List.find?_some (p := fun m : Mark => startsWith m.text.toList k.rest) hm
    obtain ⟨rest, hrest⟩ := List.isPrefixOf_iff_prefix.mp hstart
    exact ⟨m, rfl, reads_drop _ hrest.symm⟩
  · cases h

end Cursor

namespace TemplateItem

theorem parts_hole (chars : List Char) (source : String) (start : Position) (items : List TemplateItem) :
    parts (chars.map char ++ hole source start :: items) =
      parts (chars.map char) ++ .hole source start :: parts items := by
  induction chars with
  | nil => rfl
  | cons c chars ih =>
    simp only [List.map_cons, List.cons_append, parts, ih]
    cases parts (chars.map char) with
    | nil => rfl
    | cons part others => cases part <;> rfl

theorem parts_chars {chars : List Char} (h : chars ≠ []) :
    parts (chars.map char) = [.text (String.ofList chars)] := by
  induction chars with
  | nil => exact absurd rfl h
  | cons c chars ih =>
    cases chars with
    | nil => rfl
    | cons d chars =>
      simp only [List.map_cons] at ih ⊢
      rw [parts, ih (by simp)]
      simp

theorem parts_addText (done : List Char) (parts : List TemplatePart) :
    (Cursor.addText done parts).reverse = parts.reverse ++ TemplateItem.parts (done.reverse.map char) := by
  cases done with
  | nil => simp [Cursor.addText, TemplateItem.parts]
  | cons c done =>
    rw [parts_chars (by simp)]
    simp [Cursor.addText]

end TemplateItem

namespace Cursor

variable {k k' : Cursor}

def BodyReads (n : Nat) : Prop :=
  ∀ {parts parts' : List TemplatePart} {done : List Char} {k k' : Cursor},
    templateBody n parts done k = .ok (parts', k') → ∃ items text, k.Reads (text ++ [backquote]) k' ∧
      Filling k.position items text ∧
      parts'.reverse = parts.reverse ++ TemplateItem.parts (done.reverse.map .char ++ items)

def HoleReads (n : Nat) : Prop :=
  ∀ {depth : Nat} {k k' : Cursor}, holeEnd n depth k = .ok k' →
    ∃ code rest, k.Reads code k' ∧ k'.rest = '\x7d' :: rest ∧ Enclosed depth code

theorem templateBody_step {n : Nat} (body : BodyReads n) (hole : HoleReads n) : BodyReads (n + 1) := by
  intro parts parts' done k k' h
  simp only [templateBody] at h
  split at h
  · cases h
  · next rest hk =>
    obtain ⟨stop, hs, h⟩ := ok_of_bind h
    obtain ⟨code, after, hcode, hstop, henc⟩ := hole hs
    obtain ⟨items, text, hr, hf, hp⟩ := body h
    have hopen : k.Reads ['$', '\x7b'] (k.drop 2) := reads_drop ['$', '\x7b'] hk
    have hclosed := (hopen.trans hcode).trans (reads_bump hstop)
    rw [hcode.textTo_eq, hopen.position_eq] at hp
    refine ⟨.hole (String.ofList code) _ :: items, '$' :: '\x7b' :: code ++ '\x7d' :: text, ?_,
      Filling.hole henc ?_, ?_⟩
    · simpa using hclosed.trans hr
    · rw [hclosed.position_eq] at hf
      exact hf
    · rw [TemplateItem.parts_hole, hp]
      simp [TemplateItem.parts_addText]
  · next c rest hhole hk =>
    split at h
    · next hc =>
      cases h
      refine ⟨[], [], by simpa [hc] using reads_bump hk, Filling.nil, ?_⟩
      simp [TemplateItem.parts_addText]
    · next hquote =>
      split at h
      · next hc =>
        obtain ⟨⟨e, k1⟩, he, h⟩ := ok_of_bind h
        obtain ⟨spelled, hr1, hspell⟩ := escape_reads he
        obtain ⟨items, text, hr, hf, hp⟩ := body h
        subst hc
        have hescape := (reads_bump hk).trans hr1
        rw [hescape.position_eq] at hf
        exact ⟨.char e :: items, '\\' :: spelled ++ text, by simpa using hescape.trans hr,
          Filling.escape hspell hf, by simpa using hp⟩
      · next hslash =>
        obtain ⟨items, text, hr, hf, hp⟩ := body h
        have hstep := reads_bump hk
        rw [hstep.position_eq] at hf
        refine ⟨.char c :: items, c :: text, hstep.trans hr, Filling.plain hquote hslash ?_ hf,
          by simpa using hp⟩
        -- a dollar sign with a brace after it would have opened a hole
        rintro ⟨rfl, hbrace⟩
        have hrest : rest = text ++ backquote :: k'.rest := by
          have := hr.rest_eq
          simpa [bump, hk] using this
        cases text with
        | nil => cases hbrace
        | cons d text =>
          cases hbrace
          exact hhole _ rfl hrest

theorem holeEnd_step {n : Nat} (body : BodyReads n) (hole : HoleReads n) : HoleReads (n + 1) := by
  intro depth k k' h
  simp only [holeEnd] at h
  split at h
  · cases h
  · next c rest hk =>
    have hstep : k.Reads [c] k.bump := reads_bump hk
    split at h
    · next hc =>
      subst hc
      split at h
      · cases h
        exact ⟨[], rest, Reads.refl _, hk, Enclosed.nil⟩
      · obtain ⟨code, after, hr, hstop, henc⟩ := hole h
        exact ⟨_, after, hstep.trans hr, hstop, Enclosed.close henc⟩
    · next hclose =>
      split at h
      · next hc =>
        subst hc
        obtain ⟨code, after, hr, hstop, henc⟩ := hole h
        exact ⟨_, after, hstep.trans hr, hstop, Enclosed.open henc⟩
      · next hopen =>
        split at h
        · next hquote =>
          obtain ⟨⟨s, k1⟩, hs, h⟩ := ok_of_bind h
          obtain ⟨s', text, -, hr1, hq⟩ := string_reads hk hs
          obtain ⟨code, after, hr, hstop, henc⟩ := hole h
          exact ⟨_, after, by simpa using hr1.trans hr, hstop, Enclosed.string hquote hq henc⟩
        · next hquote =>
          rw [not_or] at hquote
          split at h
          · next hc =>
            subst hc
            obtain ⟨⟨parts, k1⟩, ht, h⟩ := ok_of_bind h
            obtain ⟨items, text, hr1, hf, -⟩ := body ht
            obtain ⟨code, after, hr, hstop, henc⟩ := hole h
            refine ⟨_, after, ?_, hstop, Enclosed.template hf henc⟩
            simpa using (hstep.trans hr1).trans hr
          · next hback =>
            obtain ⟨code, after, hr, hstop, henc⟩ := hole h
            exact ⟨_, after, hstep.trans hr, hstop,
              Enclosed.other hopen hclose hquote.1 hquote.2 hback henc⟩

theorem template_and_hole_read : ∀ n, BodyReads n ∧ HoleReads n
  | 0 => ⟨fun h => by simp [templateBody, fail] at h, fun h => by simp [holeEnd, fail] at h⟩
  | n + 1 =>
    have ⟨body, hole⟩ := template_and_hole_read n
    ⟨templateBody_step body hole, holeEnd_step body hole⟩

theorem template_reads {n : Nat} {rest : List Char} {l : Lexeme} (hk : k.rest = backquote :: rest)
    (h : k.template n = .ok (l, k')) : ∃ text, k.Reads text k' ∧ Spelling k.position l text := by
  obtain ⟨⟨parts, k1⟩, hb, h⟩ := ok_of_bind h
  cases h
  obtain ⟨items, text, hr, hf, hp⟩ := (template_and_hole_read n).1 hb
  have hstep : k.Reads [backquote] k.bump := reads_bump hk
  have hparts : parts.reverse = TemplateItem.parts items := by simpa using hp
  rw [hstep.position_eq] at hf
  rw [hparts]
  exact ⟨_, hstep.trans hr, Spelling.template hf⟩

theorem isNamePart_of_isNameStart {c : Char} (h : isNameStart c = true) : isNamePart c = true := by
  simp only [isNameStart, isNamePart, Bool.or_eq_true] at h ⊢
  rcases h with (h | h) | h
  · exact .inl (.inl (isLetterOrDigit_of_isLetter h))
  · exact .inl (.inr h)
  · exact .inr h

theorem lexeme_reads {n : Nat} {c : Char} {rest : List Char} {l : Lexeme} (hk : k.rest = c :: rest)
    (h : k.lexeme n c = .ok (l, k')) : ∃ text, k.Reads text k' ∧ Spelling k.position l text := by
  have number (h : k.number = .ok (l, k')) : ∃ text, k.Reads text k' ∧ Spelling k.position l text := by
    obtain ⟨x, text, rfl, hr, hs⟩ := number_reads h
    exact ⟨text, hr, Spelling.number hs⟩
  simp only [lexeme] at h
  split at h
  · exact number h
  · split at h
    · exact number h
    · split at h
      · next hquote =>
        obtain ⟨⟨s, k1⟩, hs, h⟩ := ok_of_bind h
        cases h
        obtain ⟨body, text, rfl, hr, hq⟩ := string_reads hk hs
        exact ⟨_, hr, Spelling.string hquote hq⟩
      · split at h
        · next hback =>
          subst hback
          exact template_reads hk h
        · split at h
          · next hstart =>
            cases h
            have hr := reads_skipWhile isNamePart k
            have hpart : isNamePart c = true := isNamePart_of_isNameStart hstart
            have htext : k.rest.takeWhile isNamePart = c :: rest.takeWhile isNamePart := by simp [hk, hpart]
            rw [htext] at hr
            rw [hr.textTo_eq]
            exact ⟨_, hr, Spelling.name hstart fun d hd => List.all_eq_true.mp List.all_takeWhile d hd⟩
          · obtain ⟨m, rfl, hr⟩ := mark_reads h
            exact ⟨_, hr, Spelling.mark m⟩

end Cursor

end Apiary
