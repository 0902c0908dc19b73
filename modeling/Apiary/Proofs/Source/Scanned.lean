import Apiary.Proofs.Source.Numeral
import Apiary.Proofs.Source.Scan

/-!
The other direction: what is spelled is scanned. A text is scanned to tokens whatever was read before it; what
comes after it matters only for words and numbers, which end before a mark.
-/

namespace Apiary

namespace Cursor

theorem Reads.rest_of {k k' : Cursor} {text rest : List Char} (h : k.Reads text k') (hk : k.rest = text ++ rest) :
    k'.rest = rest := by
  have := h.rest_eq
  rw [hk] at this
  exact (List.append_cancel_left this).symm

theorem hexDigits_scans {digits : List Char} {n code v : Nat} {k : Cursor} {rest : List Char}
    (hlen : digits.length = n)
    (hv : digits.foldlM (fun n c => (digitOf? 16 c).map (n * 16 + ·)) code = some v)
    (hk : k.rest = digits ++ rest) : ∃ k', k.Reads digits k' ∧ hexDigits n code k = .ok (v, k') := by
  induction digits generalizing n code k with
  | nil =>
    subst hlen
    cases hv
    exact ⟨k, Reads.refl k, rfl⟩
  | cons c digits ih =>
    subst hlen
    simp only [List.foldlM_cons] at hv
    cases hd : digitOf? 16 c with
    | none => simp [hd] at hv
    | some d =>
      have hbump : k.Reads [c] k.bump := reads_bump hk
      have hrest : k.bump.rest = digits ++ rest := hbump.rest_of hk
      obtain ⟨k', hr, hh⟩ := ih rfl (by simpa [hd] using hv) hrest
      refine ⟨k', hbump.trans hr, ?_⟩
      simp only [List.length_cons, hexDigits, hk, List.cons_append, hd]
      exact hh

theorem escape_scans {c : Char} {e rest : List Char} {k : Cursor} (h : Escape c e) (hk : k.rest = e ++ rest) :
    ∃ k', k.Reads e k' ∧ k.escape = .ok (c, k') := by
  cases h with
  | simple hu =>
    refine ⟨k.bump, reads_bump hk, ?_⟩
    unfold escape
    split
    · next h => simp [hk] at h
    · next h => simp [hk, hu] at h
    · next d r _ h =>
      rw [hk] at h
      cases h
      rfl
  | @code digits n hlen hv =>
    have hbump : k.Reads ['u'] k.bump := reads_bump hk
    have hrest : k.bump.rest = digits ++ rest := hbump.rest_of hk
    have hfold : digits.foldlM (fun n c => (digitOf? 16 c).map (n * 16 + ·)) 0 = some n := by
      cases digits with
      | nil => simp at hlen
      | cons d digits => exact hv
    obtain ⟨k', hr, hh⟩ := hexDigits_scans hlen hfold hrest
    refine ⟨k', hbump.trans hr, ?_⟩
    simp only [escape, hk, List.cons_append, hh]
    rfl

theorem stringBody_scans {quote : Char} {s text : List Char} (h : Quoted quote s text) (hquote : quote ≠ '\\')
    (n : Nat) (done : List Char) {rest : List Char} {k : Cursor} (hk : k.rest = text ++ quote :: rest)
    (hn : text.length < n) :
    ∃ k', k.Reads (text ++ [quote]) k' ∧
      stringBody quote n done k = .ok (String.ofList (done.reverse ++ s), k') := by
  induction h generalizing n done k with
  | nil =>
    obtain ⟨n, rfl⟩ : ∃ m, n = m + 1 := ⟨n - 1, by omega⟩
    refine ⟨k.bump, reads_bump hk, ?_⟩
    simp [stringBody, hk]
  | @plain c s text hc hslash hline _ ih =>
    simp only [List.length_cons] at hn
    obtain ⟨n, rfl⟩ : ∃ m, n = m + 1 := ⟨n - 1, by omega⟩
    have hbump : k.Reads [c] k.bump := reads_bump hk
    obtain ⟨k', hr, hs⟩ := ih n (c :: done) (hbump.rest_of hk) (by omega)
    refine ⟨k', hbump.trans hr, ?_⟩
    simp [stringBody, hk, hc, hslash, hline, hs]
  | @escape c e s text he _ ih =>
    simp only [List.length_cons, List.length_append, List.cons_append] at hn hk
    obtain ⟨n, rfl⟩ : ∃ m, n = m + 1 := ⟨n - 1, by omega⟩
    have hbump : k.Reads ['\\'] k.bump := reads_bump hk
    have hrest : k.bump.rest = e ++ (text ++ quote :: rest) := by simp [hbump.rest_of hk]
    obtain ⟨k1, hr1, hs1⟩ := escape_scans he hrest
    obtain ⟨k', hr, hs⟩ := ih n (c :: done) (hr1.rest_of hrest) (by omega)
    refine ⟨k', by simpa using (hbump.trans hr1).trans hr, ?_⟩
    simp [stringBody, hk, hquote.symm, hs1, hs, bind, Except.bind]

theorem skipWhile_scans {p : Char → Bool} {text rest : List Char} {k : Cursor} (hk : k.rest = text ++ rest)
    (hin : ∀ c ∈ text, p c = true) (hout : ∀ c ∈ rest.head?, p c = false) : k.Reads text (k.skipWhile p) := by
  have h := reads_skipWhile p k
  have htake : k.rest.takeWhile p = text := by
    rw [hk, List.takeWhile_append_of_pos hin]
    cases rest with
    | nil => simp
    | cons c rest => simp [hout c rfl]
  rwa [htake] at h

theorem head_after_digits {p : Char → Bool} {text rest : List Char} (h : Exponent text) (hend : EndsNumber rest)
    (hp : ['e', 'E', ',', ']', '\x7d', ')'].all (!p ·) = true) :
    ∀ c ∈ (text ++ rest).head?, p c = false := by
  simp only [List.all_cons, Bool.and_eq_true, Bool.not_eq_true'] at hp
  cases h with
  | none => exact hend.head (by simpa using hp.2.2)
  | some hmark _ _ _ =>
    intro c hc
    cases hc
    rcases hmark with rfl | rfl
    · exact hp.1
    · exact hp.2.1

theorem Digits.separated {text : List Char} (h : Digits text) : ∀ c ∈ text, isDigitOrSeparator c = true :=
  fun c hc => by simp [isDigitOrSeparator, h c hc]

theorem exponent_scans_marked {mark : Char} {sign digits rest : List Char} {k : Cursor}
    (hmark : mark = 'e' ∨ mark = 'E') (hsign : sign = [] ∨ sign = ['+'] ∨ sign = ['-']) (hne : digits ≠ [])
    (hdigits : Digits digits) (hend : ∀ c ∈ rest.head?, c.isDigit = false)
    (hk : k.rest = mark :: sign ++ digits ++ rest) : k.Reads (mark :: sign ++ digits) k.exponent := by
  rw [List.append_assoc] at hk
  have hbump : k.Reads [mark] k.bump := reads_bump hk
  obtain ⟨d, ds, rfl⟩ := List.exists_cons_of_ne_nil hne
  have hd : d.isDigit = true := hdigits d List.mem_cons_self
  have hrun {k2 : Cursor} (hk2 : k2.rest = d :: ds ++ rest) : k2.Reads (d :: ds) (k2.skipWhile Char.isDigit) :=
    skipWhile_scans hk2 hdigits hend
  have hnext : k.bump.rest = sign ++ (d :: ds ++ rest) := by simp [hbump.rest_of hk]
  have hsigns : d ≠ '+' ∧ d ≠ '-' := by
    constructor
    all_goals
      rintro rfl
      revert hd
      decide
  rcases hsign with rfl | rfl | rfl
  · have hafter : k.exponent = k.bump.skipWhile Char.isDigit := by
      simp [exponent, hk, hmark, hnext, hd, hsigns]
    rw [hafter]
    exact hbump.trans (hrun hnext)
  all_goals
    have hsecond : k.bump.Reads [_] k.bump.bump := reads_bump hnext
    have hlast : k.bump.bump.rest = d :: ds ++ rest := hsecond.rest_of hnext
    have hafter : k.exponent = k.bump.bump.skipWhile Char.isDigit := by
      simp [exponent, hk, hmark, hnext, hlast, hd]
    rw [hafter]
    exact (hbump.trans hsecond).trans (hrun hlast)

theorem exponent_scans {text rest : List Char} {k : Cursor} (h : Exponent text) (hend : EndsNumber rest)
    (hk : k.rest = text ++ rest) : k.Reads text k.exponent := by
  cases h with
  | none =>
    have hsame : k.exponent = k := by
      simp only [exponent]
      split
      · next c r hc =>
        have hmem : c ∈ [',', ']', '\x7d', ')'] := hend c (by rw [← List.nil_append rest, ← hk, hc]; rfl)
        have hmark : ¬ (c = 'e' ∨ c = 'E') := by
          simp only [List.mem_cons, List.not_mem_nil, or_false] at hmem
          rcases hmem with rfl | rfl | rfl | rfl <;> decide
        rw [if_neg hmark]
      · rfl
    rw [hsame]
    exact Reads.refl k
  | some hmark hsign hne hdigits => exact exponent_scans_marked hmark hsign hne hdigits (hend.head (by decide)) hk

theorem decimalEnd_scans {u rest : List Char} {k : Cursor} (h : Numeral u) (hend : EndsNumber rest)
    (hk : k.rest = u ++ rest) : k.Reads u k.decimalEnd := by
  cases h with
  | @whole whole exponent _ hdigits he =>
    rw [List.append_assoc] at hk
    have hwhole := skipWhile_scans hk (Digits.separated hdigits) (head_after_digits he hend (by decide))
    have hrest := hwhole.rest_of hk
    have hsame : (k.skipWhile isDigitOrSeparator).Reads []
        ((k.skipWhile isDigitOrSeparator).skipWhile isDigitOrSeparator) :=
      skipWhile_scans hrest (by simp) (head_after_digits he hend (by decide))
    have hpoint : k.decimalEnd = ((k.skipWhile isDigitOrSeparator).skipWhile isDigitOrSeparator).exponent := by
      unfold decimalEnd
      dsimp only
      split
      · next r hr =>
        have hdot := head_after_digits (p := (· == '.')) he hend (by decide) '.' (by rw [← hrest, hr]; rfl)
        simp at hdot
      · rfl
    rw [hpoint]
    exact hwhole.trans (hsame.trans (exponent_scans he hend (hsame.rest_of hrest)))
  | @point whole fraction exponent hdigits hfraction _ he =>
    have hk' : k.rest = whole ++ ('.' :: (fraction ++ (exponent ++ rest))) := by simpa using hk
    have hwhole := skipWhile_scans hk' (Digits.separated hdigits) (by
      intro c hc
      cases hc
      decide)
    have hrest := hwhole.rest_of hk'
    have hdot := reads_bump hrest
    have hlater := hdot.rest_of hrest
    have hrun := skipWhile_scans hlater (Digits.separated hfraction) (head_after_digits he hend (by decide))
    have hpoint : k.decimalEnd = ((k.skipWhile isDigitOrSeparator).bump.skipWhile isDigitOrSeparator).exponent := by
      simp [decimalEnd, hrest]
    rw [hpoint]
    have := (hwhole.trans hdot).trans (hrun.trans (exponent_scans he hend (hrun.rest_of hlater)))
    simpa using this

theorem number_scans {u rest : List Char} {x : Double} {k : Cursor} (h : Numeral u)
    (hx : readDecimal? u = some x) (hend : EndsNumber rest) (hk : k.rest = u ++ rest) :
    ∃ k', k.Reads u k' ∧ k.number = .ok (.number x, k') := by
  have hr := decimalEnd_scans h hend hk
  have hdecimal : k.decimalNumber = .ok (.number x, k.decimalEnd) := by
    unfold decimalNumber
    dsimp only
    rw [hr.textTo_eq, h.filter, hx]
  -- a hexadecimal literal has a letter that is in no numeral and that ends none
  have hex {c : Char} {r : List Char} (hc : k.rest = '0' :: c :: r) (hdigit : c.isDigit = false)
      (hne : c ∉ ['.', 'e', 'E', '+', '-', ',', ']', '\x7d', ')']) : False := by
    simp only [List.mem_cons, List.not_mem_nil, or_false, not_or] at hne
    have hout : c ∉ u := h.not_mem hdigit (by simp [hne])
    rw [hk] at hc
    cases u with
    | nil => cases hx
    | cons d u =>
      cases u with
      | nil =>
        have hhead : rest.head? = some c := by
          rw [List.singleton_append] at hc
          rw [(List.cons.inj hc).2]
          rfl
        have := hend c hhead
        simp [hne] at this
      | cons d' u =>
        simp only [List.cons_append, List.cons.injEq] at hc
        exact hout (by simp [hc.2.1])
  refine ⟨_, hr, ?_⟩
  unfold number
  split
  · next hc => exact (hex hc (by decide) (by decide)).elim
  · next hc => exact (hex hc (by decide) (by decide)).elim
  · exact hdecimal

end Cursor

open Cursor

/-- `text` is scanned as these lexemes, on one line, when `rest` comes after it. -/
def Scans (text : List Char) (ls : List Lexeme) (rest : List Char) : Prop :=
  ∀ (n : Nat) (done : List Token) (k : Cursor), k.rest = text ++ rest → k.rest.length < n →
    ∃ (m : Nat) (read : List Token) (k' : Cursor), k.Reads text k' ∧ k'.rest.length < m ∧
      read.map (·.lexeme) = ls ∧ (∀ t ∈ read, t.newlineBefore = false) ∧
      tokens n done k = tokens m (read.reverse ++ done) k'

namespace Scans

theorem append {s t rest : List Char} {ls ms : List Lexeme} (hs : Scans s ls (t ++ rest)) (ht : Scans t ms rest) :
    Scans (s ++ t) (ls ++ ms) rest := by
  intro n done k hk hn
  obtain ⟨m, read, k1, hr, hm, hl, hline, heq⟩ := hs n done k (by rw [hk, List.append_assoc]) hn
  obtain ⟨m', read', k2, hr', hm', hl', hline', heq'⟩ :=
    ht m (read.reverse ++ done) k1 (hr.rest_of (by rw [hk, List.append_assoc])) hm
  refine ⟨m', read ++ read', k2, hr.trans hr', hm', by simp [hl, hl'], ?_, ?_⟩
  · intro t ht
    rcases List.mem_append.mp ht with ht | ht
    · exact hline t ht
    · exact hline' t ht
  · rw [heq, heq']
    simp

theorem nil (rest : List Char) : Scans [] [] rest := by
  intro n done k _ hn
  exact ⟨n, [], k, Reads.refl k, hn, rfl, by simp, rfl⟩

/-- One token, from what its scanner does; it starts with neither white space nor a slash. -/
theorem one {c : Char} {text rest : List Char} {l : Lexeme} (hblank : isBlank c = false) (hslash : c ≠ '/')
    (h : ∀ {n : Nat} {k : Cursor}, k.rest = c :: text ++ rest → k.rest.length ≤ n →
      ∃ k', k.Reads (c :: text) k' ∧ k.lexeme n c = .ok (l, k')) :
    Scans (c :: text) [l] rest := by
  intro n done k hk hn
  obtain ⟨n, rfl⟩ : ∃ m, n = m + 1 := ⟨n - 1, by omega⟩
  obtain ⟨k', hr, hl⟩ := h hk (Nat.le_of_lt hn)
  have htrivia : trivia (n + 1) false k = .ok (false, k) := by
    unfold trivia
    split
    · next h =>
      rw [hk] at h
      exact absurd (List.cons.inj h).1 hslash
    · next h =>
      rw [hk] at h
      exact absurd (List.cons.inj h).1 hslash
    · next d r _ _ h =>
      rw [hk] at h
      cases h
      simp [hblank]
    · rfl
  have hlength : k'.rest.length < n := by
    rw [hk, List.length_append, List.length_cons] at hn
    rw [hr.rest_of hk]
    omega
  refine ⟨n, [⟨l, k.position, false⟩], k', hr, hlength, rfl, by simp, ?_⟩
  simp only [tokens, htrivia, bind, Except.bind, hk, List.cons_append, hl]
  rfl

theorem string {quote : Char} {s text rest : List Char} (hquote : quote = '"' ∨ quote = '\'')
    (h : Quoted quote s text) : Scans (quote :: text ++ [quote]) [.string (String.ofList s)] rest := by
  refine one (by rcases hquote with rfl | rfl <;> decide) (by rcases hquote with rfl | rfl <;> decide) ?_
  intro n k hk hn
  have hne : quote ≠ '\\' := by rcases hquote with rfl | rfl <;> decide
  have hopen : k.Reads [quote] k.bump := reads_bump hk
  have hbody : k.bump.rest = text ++ quote :: rest := by simp [hopen.rest_of hk]
  obtain ⟨k', hr, hs⟩ := stringBody_scans h hne n [] hbody (by
    rw [hk] at hn
    simp at hn
    omega)
  refine ⟨k', by simpa using hopen.trans hr, ?_⟩
  have hdigit : quote.isDigit = false := by rcases hquote with rfl | rfl <;> decide
  have hdot : quote ≠ '.' := by rcases hquote with rfl | rfl <;> decide
  simp [lexeme, hdigit, hdot, hquote, Cursor.string, hs, bind, Except.bind, pure, Except.pure]

theorem word {c : Char} {text rest : List Char} (hstart : isNameStart c = true)
    (hdigit : c.isDigit = false) (hblank : isBlank c = false) (hpart : text.all isNamePart = true)
    (hend : ∀ d ∈ rest.head?, isNamePart d = false) :
    Scans (c :: text) [.name (String.ofList (c :: text))] rest := by
  have hslash : c ≠ '/' := by
    rintro rfl
    revert hstart
    decide
  refine one hblank hslash ?_
  intro n k hk hn
  have hin : ∀ d ∈ c :: text, isNamePart d = true := by
    simpa [isNamePart_of_isNameStart hstart, List.all_eq_true] using hpart
  have hr := skipWhile_scans hk hin hend
  have hne : c ≠ '.' ∧ c ≠ '"' ∧ c ≠ '\'' ∧ c ≠ backquote := by
    refine ⟨?_, ?_, ?_, ?_⟩
    all_goals
      rintro rfl
      revert hstart
      decide
  refine ⟨_, hr, ?_⟩
  simp [lexeme, hdigit, hne, hstart, hr.textTo_eq]

/-- Marks of one character that no longer mark starts with. -/
theorem mark {c : Char} {m : Mark} (hm : (c, m) ∈ [('(', Mark.parenOpen), (')', .parenClose), ('[', .bracketOpen),
    (']', .bracketClose), ('\x7b', .braceOpen), ('\x7d', .braceClose), (',', .comma), (':', .colon)])
    (rest : List Char) : Scans [c] [.mark m] rest := by
  simp only [List.mem_cons, Prod.mk.injEq, List.not_mem_nil, or_false] at hm
  rcases hm with ⟨rfl, rfl⟩ | ⟨rfl, rfl⟩ | ⟨rfl, rfl⟩ | ⟨rfl, rfl⟩ | ⟨rfl, rfl⟩ | ⟨rfl, rfl⟩ | ⟨rfl, rfl⟩ | ⟨rfl, rfl⟩
  all_goals
    refine one (by decide) (by decide) ?_
    intro n k hk hn
    refine ⟨k.drop 1, reads_drop [_] hk, ?_⟩
    simp [lexeme, Cursor.mark, hk, startsWith, Mark.all, Mark.text, List.find?, backquote, isNameStart]
    rfl

theorem number {u rest : List Char} {x : Double} (h : Numeral u) (hx : readDecimal? u = some x)
    (hend : EndsNumber rest) : Scans u [.number x] rest := by
  obtain ⟨c, tail, rfl, hc⟩ := h.head
  have hchar : isBlank c = false ∧ c ≠ '/' := by
    rcases hc with hc | ⟨rfl, -⟩
    · exact ⟨isBlank_of_isDigit hc, by rintro rfl; revert hc; decide⟩
    · decide
  refine one hchar.1 hchar.2 ?_
  intro n k hk hn
  obtain ⟨k', hr, hnumber⟩ := number_scans h hx hend hk
  refine ⟨k', hr, ?_⟩
  rcases hc with hc | ⟨rfl, d, hd, hdigit⟩
  · simp [lexeme, hc, hnumber]
  · obtain ⟨tail, rfl⟩ := List.head?_eq_some_iff.mp hd
    simp [lexeme, hk, hdigit, hnumber]

theorem sign {c : Char} {m : Mark} (hm : (c, m) ∈ [('-', Mark.minus), ('+', .plus)]) {u : List Char} (h : Numeral u)
    (rest : List Char) : Scans [c] [.mark m] (u ++ rest) := by
  obtain ⟨d, tail, rfl, hd⟩ := h.head
  have hne : ('-' == d) = false ∧ ('+' == d) = false ∧ ('=' == d) = false := by
    simp only [beq_eq_false_iff_ne]
    refine ⟨?_, ?_, ?_⟩
    all_goals
      rintro rfl
      simp at hd
  simp only [List.mem_cons, Prod.mk.injEq, List.not_mem_nil, or_false] at hm
  rcases hm with ⟨rfl, rfl⟩ | ⟨rfl, rfl⟩
  all_goals
    refine one (by decide) (by decide) ?_
    intro n k hk hn
    refine ⟨k.drop 1, reads_drop [_] hk, ?_⟩
    simp [lexeme, Cursor.mark, hk, startsWith, Mark.all, Mark.text, List.find?, List.isPrefixOf_cons_cons, backquote,
      isNameStart, hne]
    rfl

end Scans

end Apiary
