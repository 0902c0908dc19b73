import Apiary.Proofs.Number.Digits
import Apiary.Proofs.Source.Scanned
import Apiary.Proofs.Source.Tiling

/-!
Where the hole of a template ends. The scanner of a hole knows strings, templates and braces but no comments: a hole
runs to the brace that closes it exactly when its code is enclosed, and code whose braces match is enclosed unless a
comment in it holds a character that the scanner of the hole takes for its own.
-/

namespace Apiary

namespace Cursor

/-- What is filled in before the closing quote is scanned as a template's body, wherever it stands. -/
def BodyScans (n : Nat) : Prop :=
  ∀ {p : Position} {items : List TemplateItem} {text rest : List Char} (parts : List TemplatePart) (done : List Char)
    {k : Cursor}, Filling p items text → k.rest = text ++ backquote :: rest → text.length < n →
    ∃ parts' k', k.Reads (text ++ [backquote]) k' ∧ templateBody n parts done k = .ok (parts', k') ∧
      parts'.reverse.map TemplatePart.unplaced =
        (parts.reverse ++ TemplateItem.parts (done.reverse.map .char ++ items)).map TemplatePart.unplaced

def HoleScans (n : Nat) : Prop :=
  ∀ {depth : Nat} {code rest : List Char} {k : Cursor}, Enclosed depth code → k.rest = code ++ '\x7d' :: rest →
    code.length < n → ∃ k', k.Reads code k' ∧ holeEnd n depth k = .ok k'

theorem templateBody_char {n : Nat} {parts : List TemplatePart} {done rest : List Char} {c : Char} {k : Cursor}
    (hk : k.rest = c :: rest) (hopen : ¬ (c = '$' ∧ rest.head? = some '\x7b')) :
    templateBody (n + 1) parts done k =
      if c = backquote then .ok (addText done parts, k.bump)
      else if c = '\\' then k.bump.escape >>= fun (e, k) => templateBody n parts (e :: done) k
      else templateBody n parts (c :: done) k.bump := by
  rw [templateBody]
  split
  · next hnone => simp [hk] at hnone
  · next hhole =>
    rw [hk] at hhole
    obtain ⟨rfl, hnext⟩ := List.cons.inj hhole
    exact absurd ⟨rfl, by rw [hnext]; rfl⟩ hopen
  · next hsome =>
    rw [hk] at hsome
    cases hsome
    rfl

theorem templateBody_hole {n : Nat} (parts : List TemplatePart) (done : List Char) {code rest : List Char}
    {k stop : Cursor} (hk : k.rest = '$' :: '\x7b' :: code ++ '\x7d' :: rest) (hr : (k.drop 2).Reads code stop)
    (hs : holeEnd n 0 (k.drop 2) = .ok stop) :
    k.Reads ('$' :: '\x7b' :: code ++ ['\x7d']) stop.bump ∧ templateBody (n + 1) parts done k =
      templateBody n (.hole (String.ofList code) (k.position.after ['$', '\x7b']) :: addText done parts) []
        stop.bump := by
  have hopen : k.Reads ['$', '\x7b'] (k.drop 2) := reads_drop ['$', '\x7b'] hk
  have hstop : stop.rest = '\x7d' :: rest := hr.rest_of (hopen.rest_of hk)
  refine ⟨by simpa using (hopen.trans hr).trans (reads_bump hstop), ?_⟩
  rw [← hopen.position_eq, ← hr.textTo_eq]
  simp [templateBody, hk, hs, bind, Except.bind]

theorem templateBody_scans {n : Nat} (body : BodyScans n) (hole : HoleScans n) : BodyScans (n + 1) := by
  intro p items text rest parts done k h hk hn
  have hquote : backquote ≠ '$' ∧ backquote ≠ '\x7b' ∧ backquote ≠ '\\' := by decide
  cases h with
  | nil =>
    refine ⟨_, k.bump, reads_bump hk, by rw [templateBody_char hk (by simp [hquote]), if_pos rfl], ?_⟩
    rw [TemplateItem.parts_addText, List.append_nil]
  | @plain _ c items text hback hslash hopen hf =>
    have hbump : k.Reads [c] k.bump := reads_bump hk
    obtain ⟨parts', k', hr, hb, hp⟩ := body parts (c :: done) hf (hbump.rest_of hk) (by simpa using hn)
    refine ⟨parts', k', hbump.trans hr, ?_, by simpa using hp⟩
    have hopen' : ¬ (c = '$' ∧ (text ++ backquote :: rest).head? = some '\x7b') := by
      cases text with
      | nil => simp [hquote]
      | cons d text => exact hopen
    rw [templateBody_char hk hopen', if_neg hback, if_neg hslash, hb]
  | @escape _ c e items text he hf =>
    simp only [List.length_cons, List.length_append, List.cons_append, List.append_assoc] at hn hk
    have hbump : k.Reads ['\\'] k.bump := reads_bump hk
    obtain ⟨k1, hr1, hs1⟩ := escape_scans he (hbump.rest_of hk)
    obtain ⟨parts', k', hr, hb, hp⟩ := body parts (c :: done) hf (hr1.rest_of (hbump.rest_of hk)) (by omega)
    refine ⟨parts', k', by simpa using (hbump.trans hr1).trans hr, ?_, by simpa using hp⟩
    rw [templateBody_char hk (by simp), if_neg (Ne.symm hquote.2.2), if_pos rfl, hs1]
    exact hb
  | @hole _ code items text henc hf =>
    simp only [List.length_cons, List.length_append, List.cons_append, List.append_assoc] at hn hk
    have hopen : k.Reads ['$', '\x7b'] (k.drop 2) := reads_drop ['$', '\x7b'] hk
    obtain ⟨stop, hr1, hs⟩ := hole henc (hopen.rest_of hk) (by omega)
    obtain ⟨hr2, hstep⟩ := templateBody_hole parts done hk hr1 hs
    obtain ⟨parts', k', hr, hb, hp⟩ := body _ [] hf (hr2.rest_of (by simpa using hk)) (by omega)
    refine ⟨parts', k', by simpa using hr2.trans hr, hstep.trans hb, ?_⟩
    rw [hp, TemplateItem.parts_hole]
    simp [TemplateItem.parts_addText, TemplatePart.unplaced]

theorem holeEnd_scans {n : Nat} (body : BodyScans n) (hole : HoleScans n) : HoleScans (n + 1) := by
  intro depth code rest k h hk hn
  cases h with
  | nil => exact ⟨k, Reads.refl k, by simp [holeEnd, hk]⟩
  | @«open» _ code henc =>
    have hbump : k.Reads ['\x7b'] k.bump := reads_bump hk
    obtain ⟨k', hr, hs⟩ := hole henc (hbump.rest_of hk) (by simpa using hn)
    exact ⟨k', hbump.trans hr, by simp [holeEnd, hk, hs]⟩
  | @close depth code henc =>
    have hbump : k.Reads ['\x7d'] k.bump := reads_bump hk
    obtain ⟨k', hr, hs⟩ := hole henc (hbump.rest_of hk) (by simpa using hn)
    exact ⟨k', hbump.trans hr, by simp [holeEnd, hk, hs]⟩
  | @string _ quote s text code hquote hq henc =>
    simp only [List.length_cons, List.length_append, List.cons_append, List.append_assoc] at hn hk
    have hbump : k.Reads [quote] k.bump := reads_bump hk
    have hnot : quote ≠ '\\' ∧ quote ≠ '\x7d' ∧ quote ≠ '\x7b' := by rcases hquote with rfl | rfl <;> decide
    obtain ⟨k1, hr1, hs1⟩ := stringBody_scans hq hnot.1 n [] (hbump.rest_of hk) (by omega)
    have hrest : k.bump.rest = text ++ [quote] ++ (code ++ '\x7d' :: rest) := by simp [hbump.rest_of hk]
    obtain ⟨k', hr, hs⟩ := hole henc (hr1.rest_of hrest) (by omega)
    refine ⟨k', by simpa using (hbump.trans hr1).trans hr, ?_⟩
    simp [holeEnd, hk, hnot, hquote, Cursor.string, hs1, hs, bind, Except.bind]
  | @template _ p items text code hf henc =>
    simp only [List.length_cons, List.length_append, List.cons_append, List.append_assoc] at hn hk
    have hbump : k.Reads [backquote] k.bump := reads_bump hk
    obtain ⟨parts, k1, hr1, hs1, -⟩ := body [] [] hf (hbump.rest_of hk) (by omega)
    have hrest : k.bump.rest = text ++ [backquote] ++ (code ++ '\x7d' :: rest) := by simp [hbump.rest_of hk]
    obtain ⟨k', hr, hs⟩ := hole henc (hr1.rest_of hrest) (by omega)
    refine ⟨k', by simpa using (hbump.trans hr1).trans hr, ?_⟩
    have hnot : backquote ≠ '\x7d' ∧ backquote ≠ '\x7b' ∧ backquote ≠ '"' ∧ backquote ≠ '\'' := by decide
    simp [holeEnd, hk, hnot, hs1, hs, bind, Except.bind]
  | @other _ c code hopen hclose hdouble hsingle hback henc =>
    have hbump : k.Reads [c] k.bump := reads_bump hk
    obtain ⟨k', hr, hs⟩ := hole henc (hbump.rest_of hk) (by simpa using hn)
    exact ⟨k', hbump.trans hr, by simp [holeEnd, hk, hopen, hclose, hdouble, hsingle, hback, hs]⟩

theorem template_and_hole_scan : ∀ n, BodyScans n ∧ HoleScans n
  | 0 => ⟨fun _ _ _ _ _ hn => absurd hn (Nat.not_lt_zero _), fun _ _ hn => absurd hn (Nat.not_lt_zero _)⟩
  | n + 1 =>
    have ⟨body, hole⟩ := template_and_hole_scan n
    ⟨templateBody_scans body hole, holeEnd_scans body hole⟩

theorem tokens_template {n : Nat} {rest : List Char} {parts : List TemplatePart} {k k' : Cursor}
    (hk : k.rest = backquote :: rest) (hlast : k'.rest = [])
    (hb : templateBody (n + 2) [] [] k.bump = .ok (parts, k')) :
    tokens (n + 2) [] k = .ok ⟨[⟨.template parts.reverse, k.position, false⟩], k'.position, false⟩ := by
  have hblank : isBlank backquote = false := by decide
  have htrivia : trivia (n + 2) false k = .ok (false, k) := by
    rw [trivia]
    split
    · next h => exact absurd (List.cons.inj (hk.symm.trans h)).1 (by decide)
    · next h => exact absurd (List.cons.inj (hk.symm.trans h)).1 (by decide)
    · next h =>
      rw [← (List.cons.inj (hk.symm.trans h)).1, hblank]
      rfl
    · rfl
  have hend : trivia (n + 1) false k' = .ok (false, k') := by simp [trivia, hlast]
  have hlexeme : k.lexeme (n + 2) backquote = .ok (.template parts.reverse, k') := by
    have hdigit : backquote.isDigit = false := by decide
    have hnot : backquote ≠ '.' ∧ backquote ≠ '"' ∧ backquote ≠ '\'' := by decide
    simp [lexeme, hdigit, hnot, Cursor.template, hb, bind, Except.bind, pure, Except.pure]
  simp [tokens, htrivia, hk, hlexeme, hend, hlast, bind, Except.bind, pure, Except.pure]

end Cursor

open Cursor

def holeSource (e : String) : String := "\x60$\x7b" ++ e ++ "\x7d\x60"

/-- The hole of the template holds all of `e`. -/
def ReadsAsHole (e : String) : Prop :=
  ∃ ts, tokenize (holeSource e) = .ok ts ∧ ts.ahead = [⟨.template [.hole e ⟨1, 4⟩], .start, false⟩]

theorem holeSource_toList (e : String) :
    (holeSource e).toList = backquote :: '$' :: '\x7b' :: e.toList ++ ['\x7d', backquote] := by
  rw [holeSource, String.toList_append, String.toList_append]
  rfl

theorem readsAsHole_of_enclosed {e : String} (h : Enclosed 0 e.toList) : ReadsAsHole e := by
  let k := Cursor.ofChars (holeSource e).toList .start
  have hk : k.rest = backquote :: ('$' :: '\x7b' :: e.toList ++ ['\x7d', backquote]) := holeSource_toList e
  have hquote : k.Reads [backquote] k.bump := reads_bump hk
  have hbody : k.bump.rest = '$' :: '\x7b' :: e.toList ++ '\x7d' :: [backquote] := hquote.rest_of hk
  have hopen : k.bump.Reads ['$', '\x7b'] (k.bump.drop 2) := reads_drop ['$', '\x7b'] hbody
  obtain ⟨stop, hr, hs⟩ := (template_and_hole_scan (e.length + 5)).2 h (hopen.rest_of hbody)
    (by simp [String.length_toList])
  obtain ⟨hclosed, hstep⟩ := templateBody_hole [] [] hbody hr hs
  have hlast : stop.bump.rest = [backquote] := hclosed.rest_of (by simpa using hbody)
  have hend : stop.bump.Reads [backquote] stop.bump.bump := reads_bump hlast
  rw [templateBody_char hlast (by decide), if_pos rfl, String.ofList_toList, hquote.position_eq] at hstep
  have htokens := tokens_template hk (hend.rest_of hlast) hstep
  have hlength : (holeSource e).length = e.length + 5 := by
    rw [← String.length_toList, holeSource_toList]
    simp [String.length_toList]
  rw [ReadsAsHole, tokenize, tokenizeAt, hlength]
  exact ⟨_, htokens, rfl⟩

theorem TemplateItem.of_parts_hole {items : List TemplateItem} {source : String} {start : Position}
    (h : parts items = [.hole source start]) : items = [.hole source start] := by
  cases items with
  | nil => cases h
  | cons item items =>
    cases item with
    | char c =>
      rw [parts] at h
      split at h <;> cases h
    | hole source' start' =>
      rw [parts] at h
      obtain ⟨heq, hnone⟩ := List.cons.inj h
      cases heq
      cases items with
      | nil => rfl
      | cons item items =>
        cases item with
        | char c =>
          rw [parts] at hnone
          split at hnone <;> cases hnone
        | hole => cases hnone

theorem enclosed_of_readsAsHole {e : String} (h : ReadsAsHole e) : Enclosed 0 e.toList := by
  obtain ⟨ts, hts, hahead⟩ := h
  have htile := (tokens_tile_source hts).1
  rw [hahead] at htile
  generalize (holeSource e).toList = source at htile
  cases htile with
  | token _ _ hs =>
    dsimp only at hs
    generalize hparts : [TemplatePart.hole e ⟨1, 4⟩] = parts at hs
    cases hs with
    | @template items text hf =>
      have hitems := TemplateItem.of_parts_hole hparts.symm
      rw [hitems] at hf
      generalize hcode : e = e' at hf
      cases hf with
      | hole henc _ =>
        rw [String.toList_ofList]
        exact henc

/-- The characters that mean something to the scanner of a hole. -/
def holeBounds : List Char := ['\x7b', '\x7d', '"', '\'', backquote]

/-- What stands between the tokens of a text: white space and comments. -/
def Cursor.gaps : Nat → Cursor → List (List Char)
  | 0, _ => []
  | n + 1, k =>
    match trivia (n + 1) false k with
    | .error _ => []
    | .ok (_, next) =>
      k.textTo next :: match next.rest with
        | [] => []
        | c :: _ =>
          match next.lexeme (n + 1) c with
          | .error _ => []
          | .ok (_, later) => gaps n later

def CommentsClear (e : String) : Prop :=
  ∀ gap ∈ gaps (e.length + 1) (.ofChars e.toList .start), ∀ c ∈ gap, c ∉ holeBounds

def Lexeme.opening (ls : List Lexeme) : Nat := ls.countP fun
  | .mark .braceOpen => true
  | _ => false

def Lexeme.closing (ls : List Lexeme) : Nat := ls.countP fun
  | .mark .braceClose => true
  | _ => false

/-- After as many open braces as `depth`, nothing is closed that was not opened and nothing is left open. -/
def BracesMatch (depth : Nat) (ls : List Lexeme) : Prop :=
  Lexeme.closing ls = depth + Lexeme.opening ls ∧
    ∀ front, front <+: ls → Lexeme.closing front ≤ depth + Lexeme.opening front

instance (depth : Nat) (ls : List Lexeme) : Decidable (BracesMatch depth ls) :=
  decidable_of_iff (Lexeme.closing ls = depth + Lexeme.opening ls ∧
    ∀ front ∈ ls.inits, Lexeme.closing front ≤ depth + Lexeme.opening front) (by simp [BracesMatch])

instance (e : String) : Decidable (CommentsClear e) :=
  decidable_of_iff
    ((gaps (e.length + 1) (.ofChars e.toList .start)).all (·.all fun c => !holeBounds.contains c) = true)
    (by simp [CommentsClear])

theorem BracesMatch.head {depth : Nat} {l : Lexeme} {ls : List Lexeme} (h : BracesMatch depth (l :: ls)) :
    Lexeme.closing [l] ≤ depth + Lexeme.opening [l] :=
  h.2 [l] ⟨ls, rfl⟩

theorem BracesMatch.tail {depth : Nat} {l : Lexeme} {ls : List Lexeme} (h : BracesMatch depth (l :: ls)) :
    BracesMatch (depth + Lexeme.opening [l] - Lexeme.closing [l]) ls := by
  have hopening : ∀ front, Lexeme.opening (l :: front) = Lexeme.opening [l] + Lexeme.opening front :=
    fun front => (List.singleton_append ▸ List.countP_append : Lexeme.opening ([l] ++ front) = _)
  have hclosing : ∀ front, Lexeme.closing (l :: front) = Lexeme.closing [l] + Lexeme.closing front :=
    fun front => (List.singleton_append ▸ List.countP_append : Lexeme.closing ([l] ++ front) = _)
  have hhead := h.head
  constructor
  · have hall := h.1
    rw [hopening, hclosing] at hall
    omega
  · intro front hfront
    have hnext := h.2 (l :: front) (List.cons_prefix_cons.mpr ⟨rfl, hfront⟩)
    rw [hopening, hclosing] at hnext
    omega

theorem not_mem_holeBounds {p : Char → Bool} (hp : holeBounds.all (!p ·) = true) {c : Char} (hc : p c = true) :
    c ∉ holeBounds := by
  intro hmem
  have := List.all_eq_true.mp hp c hmem
  simp [hc] at this

theorem Enclosed.clear {depth : Nat} {text code : List Char} (htext : ∀ c ∈ text, c ∉ holeBounds)
    (h : Enclosed depth code) : Enclosed depth (text ++ code) := by
  induction text with
  | nil => exact h
  | cons c text ih =>
    obtain ⟨hc, htext⟩ := List.forall_mem_cons.mp htext
    simp only [holeBounds, List.mem_cons, List.not_mem_nil, or_false, not_or] at hc
    exact .other hc.1 hc.2.1 hc.2.2.1 hc.2.2.2.1 hc.2.2.2.2 (ih htext)

theorem clear_of_all {text : List Char} (h : text.all (! holeBounds.contains ·) = true) : ∀ c ∈ text, c ∉ holeBounds := by
  intro c hc hmem
  have := List.all_eq_true.mp h c hc
  simp [hmem] at this

theorem hexDigits_clear {digits : List Char} {n : Nat} (h : valueOf? 16 digits = some n) :
    ∀ c ∈ digits, c ∉ holeBounds :=
  fun c hc => not_mem_holeBounds (p := fun c => (digitOf? 16 c).isSome) (by decide) (digits_of_value h c hc)

theorem Exponent.clear {text : List Char} (h : Exponent text) : ∀ c ∈ text, c ∉ holeBounds := by
  cases h with
  | none => simp
  | @some mark sign digits hmark hsign _ hdigits =>
    intro c hc
    simp only [List.mem_append, List.mem_cons, List.cons_append] at hc
    rcases hc with rfl | hc | hc
    · rcases hmark with rfl | rfl <;> decide
    · rcases hsign with rfl | rfl | rfl
      · cases hc
      · cases List.mem_singleton.mp hc
        decide
      · cases List.mem_singleton.mp hc
        decide
    · exact not_mem_holeBounds (by decide) (hdigits c hc)

theorem NumberSpelling.clear {x : Double} {text : List Char} (h : NumberSpelling x text) :
    ∀ c ∈ text, c ∉ holeBounds := by
  cases h with
  | @hex mark digits n hmark hvalue _ =>
    refine List.forall_mem_cons.mpr ⟨by decide, List.forall_mem_cons.mpr ⟨?_, hexDigits_clear hvalue⟩⟩
    rcases hmark with rfl | rfl <;> decide
  | @decimal whole point fraction exponent _ hwhole hpoint hfraction hexponent _ =>
    intro c hc
    simp only [List.mem_append] at hc
    rcases hc with ((hc | hc) | hc) | hc
    · exact not_mem_holeBounds (by decide) (hwhole c hc)
    · rcases hpoint with rfl | rfl
      · cases hc
      · cases List.mem_singleton.mp hc
        decide
    · exact not_mem_holeBounds (by decide) (hfraction c hc)
    · exact hexponent.clear c hc

theorem Spelling.enclosed {p : Position} {l : Lexeme} {text code : List Char} {depth : Nat} (h : Spelling p l text)
    (hdepth : Lexeme.closing [l] ≤ depth + Lexeme.opening [l])
    (hcode : Enclosed (depth + Lexeme.opening [l] - Lexeme.closing [l]) code) : Enclosed depth (text ++ code) := by
  cases h with
  | number h => exact hcode.clear h.clear
  | string hquote hq =>
    have h : Enclosed depth _ := Enclosed.string hquote hq hcode
    simpa using h
  | template hf =>
    have h : Enclosed depth _ := Enclosed.template hf hcode
    simpa using h
  | name hstart hpart =>
    refine Enclosed.clear (List.forall_mem_cons.mpr ⟨?_, fun c hc => ?_⟩) hcode
    · exact not_mem_holeBounds (p := isNamePart) (by decide) (isNamePart_of_isNameStart hstart)
    · exact not_mem_holeBounds (by decide) (hpart c hc)
  | mark m =>
    cases m
    case braceOpen => exact .open hcode
    case braceClose =>
      cases depth with
      | zero => exact absurd hdepth (by decide)
      | succ depth => exact .close hcode
    all_goals exact Enclosed.clear (clear_of_all (by decide)) hcode

theorem Cursor.enclosed_of_tokens {n : Nat} {done : List Token} {k : Cursor} {ts : Tokens}
    (h : tokens n done k = .ok ts) (hclear : ∀ gap ∈ gaps n k, ∀ c ∈ gap, c ∉ holeBounds) :
    ∃ ks, ts.ahead = done.reverse ++ ks ∧
      ∀ {depth : Nat}, BracesMatch depth (ks.map (·.lexeme)) → Enclosed depth k.rest := by
  induction n generalizing done k with
  | zero => cases h
  | succ n ih =>
    obtain ⟨⟨newline, k1⟩, ht, h⟩ := ok_of_bind h
    obtain ⟨gap, hr, -, -⟩ := trivia_reads ht
    simp only [gaps, ht] at hclear
    obtain ⟨hgap, hclear⟩ := List.forall_mem_cons.mp hclear
    rw [hr.textTo_eq] at hgap
    dsimp only at h
    split at h
    · next hend =>
      cases h
      refine ⟨[], by simp, fun {depth} hmatch => ?_⟩
      rw [hr.rest_eq, hend]
      refine Enclosed.clear hgap ?_
      have : depth = 0 := by simpa [BracesMatch, Lexeme.closing, Lexeme.opening] using hmatch.1.symm
      rw [this]
      exact .nil
    · next c rest hc =>
      obtain ⟨⟨l, next⟩, hl, h⟩ := ok_of_bind h
      obtain ⟨text, hread, hs⟩ := lexeme_reads hc hl
      simp only [hc, hl] at hclear
      obtain ⟨ks, hks, hrest⟩ := ih h hclear
      refine ⟨_, by simpa using hks, fun hmatch => ?_⟩
      rw [hr.rest_eq, hread.rest_eq]
      exact Enclosed.clear hgap (hs.enclosed hmatch.head (hrest hmatch.tail))

/-- The hole of a template holds all of a text exactly when the text is enclosed. It is when its braces match and no
comment gets in the way. -/
theorem hole_ends_at_own_brace {e : String} {ts : Tokens} (h : tokenize e = .ok ts)
    (hmatch : BracesMatch 0 (ts.ahead.map (·.lexeme))) :
    (ReadsAsHole e ↔ Enclosed 0 e.toList) ∧ (CommentsClear e → ReadsAsHole e) := by
  refine ⟨⟨enclosed_of_readsAsHole, readsAsHole_of_enclosed⟩, fun hclear => ?_⟩
  obtain ⟨ks, hks, henclosed⟩ := Cursor.enclosed_of_tokens h hclear
  rw [hks] at hmatch
  exact readsAsHole_of_enclosed (henclosed hmatch)

def nestedCode : String := "f(\x7ba: \x60b$\x7b'\x7d'\x7d\x60\x7d) /* c */"

theorem tokenize_of_check {e : String} {p : List Lexeme → Bool}
    (h : ((tokenize e).toOption.any fun ts => p (ts.ahead.map (·.lexeme))) = true) :
    ∃ ts, tokenize e = .ok ts ∧ p (ts.ahead.map (·.lexeme)) = true := by
  cases hts : tokenize e with
  | error fault => simp [hts, Except.toOption] at h
  | ok ts => exact ⟨ts, rfl, by simpa [hts, Except.toOption] using h⟩

theorem nestedCode_hole : ∃ ts, tokenize nestedCode = .ok ts ∧ BracesMatch 0 (ts.ahead.map (·.lexeme)) ∧
    CommentsClear nestedCode ∧ ReadsAsHole nestedCode := by
  obtain ⟨ts, hts, hmatch⟩ := tokenize_of_check (e := nestedCode) (p := fun ls => decide (BracesMatch 0 ls))
    (by decide +kernel)
  have hmatch := of_decide_eq_true hmatch
  have hclear : CommentsClear nestedCode := by decide +kernel
  exact ⟨ts, hts, hmatch, hclear, (hole_ends_at_own_brace hts hmatch).2 hclear⟩

theorem commentedBrace_cut : ∃ ts, tokenize "1/*\x7d*/" = .ok ts ∧ BracesMatch 0 (ts.ahead.map (·.lexeme)) ∧
    ¬ ReadsAsHole "1/*\x7d*/" := by
  obtain ⟨ts, hts, hmatch⟩ := tokenize_of_check (e := "1/*\x7d*/") (p := fun ls => decide (BracesMatch 0 ls))
    (by decide +kernel)
  refine ⟨ts, hts, of_decide_eq_true hmatch, ?_⟩
  rintro ⟨us, hus, hahead⟩
  have hcut : (tokenize (holeSource "1/*\x7d*/")).toOption.map Tokens.holes = some [("1/*", ⟨1, 4⟩)] := by
    decide +kernel
  rw [hus] at hcut
  simp [Except.toOption, Tokens.holes, hahead, Lexeme.holes] at hcut

end Apiary
