import Apiary.Proofs.Source.Tiling
import Mathlib.Algebra.GroupWithZero.Nat

/-!
The bounds of the scanners are never reached: each round of a scanner takes a character, so that a bound above the
number of characters ahead leaves it alone. The tokens of a source weigh no more than the source is long, where a
template weighs as much as the code in its holes.
-/

namespace Apiary

/-- Is not cut short by a bound. -/
def Settled {α : Type} (r : Except SourceError α) : Prop := ∀ p, r ≠ .error ⟨.tooLong, p⟩

section Settled

variable {α β : Type} {r : Except SourceError α} {f : α → Except SourceError β}

theorem settled_ok (a : α) : Settled (.ok a : Except SourceError α) := nofun

theorem Settled.bind (hr : Settled r) (hf : ∀ a, r = .ok a → Settled (f a)) : Settled (r >>= f) := by
  cases r with
  | ok a => exact hf a rfl
  | error e =>
    intro p h
    cases h
    exact hr p rfl

end Settled

namespace Cursor

variable {α : Type} {k k' : Cursor} {n : Nat}

theorem settled_fail {fault : SourceFault} (h : fault ≠ .tooLong) : Settled (k.fail fault : Except SourceError α) := by
  intro p hp
  cases hp
  exact h rfl

theorem Reads.length {text : List Char} (h : k.Reads text k') : k.rest.length = text.length + k'.rest.length := by
  rw [h.rest_eq, List.length_append]

theorem length_bump {c : Char} {rest : List Char} (hk : k.rest = c :: rest) :
    k.rest.length = k.bump.rest.length + 1 := by
  simp [bump, hk]

theorem length_drop_two {c d : Char} {rest : List Char} (hk : k.rest = c :: d :: rest) :
    k.rest.length = (k.drop 2).rest.length + 2 := by
  simp [drop, bump, hk]

theorem blockComment_settled {newline : Bool} (h : k.rest.length < n) : Settled (blockComment n newline k) := by
  induction n generalizing newline k with
  | zero => exact absurd h (Nat.not_lt_zero _)
  | succ n ih =>
    unfold blockComment
    split
    · exact settled_fail nofun
    · exact settled_ok _
    · next hk =>
      have := length_bump hk
      exact ih (by omega)

theorem trivia_settled {newline : Bool} (h : k.rest.length < n) : Settled (trivia n newline k) := by
  induction n generalizing newline k with
  | zero => exact absurd h (Nat.not_lt_zero _)
  | succ n ih =>
    unfold trivia
    split
    · next rest hk =>
      have hline := (reads_skipWhile (· ≠ '\n') k).length
      have htaken : (k.rest.takeWhile (· ≠ '\n')).length ≠ 0 := by simp [hk]
      exact ih (by omega)
    · next rest hk =>
      have hopen := length_drop_two hk
      refine (blockComment_settled (by omega)).bind fun ⟨mid, k1⟩ hb => ?_
      obtain ⟨text, hr, -⟩ := blockComment_reads hb
      have hclosed := hr.length
      exact ih (by omega)
    · next hk =>
      have := length_bump hk
      split
      · exact ih (by omega)
      · exact settled_ok _
    · exact settled_ok _

theorem hexDigits_settled (n code : Nat) : Settled (hexDigits n code k) := by
  induction n generalizing code k with
  | zero => exact settled_ok _
  | succ n ih =>
    unfold hexDigits
    split
    · exact settled_fail nofun
    · split
      · exact settled_fail nofun
      · exact ih _

theorem escape_settled : Settled k.escape := by
  unfold escape
  split
  · exact settled_fail nofun
  · exact (hexDigits_settled 4 0).bind fun _ _ => settled_ok _
  · exact settled_ok _

theorem stringBody_settled {quote : Char} {done : List Char} (h : k.rest.length < n) :
    Settled (stringBody quote n done k) := by
  induction n generalizing done k with
  | zero => exact absurd h (Nat.not_lt_zero _)
  | succ n ih =>
    unfold stringBody
    split
    · exact settled_fail nofun
    · next c rest hk =>
      have hstep := length_bump hk
      split
      · exact settled_ok _
      split
      · refine escape_settled.bind fun ⟨e, k1⟩ he => ?_
        obtain ⟨spelled, hr, -⟩ := escape_reads he
        have := hr.length
        exact ih (by omega)
      split
      · exact settled_fail nofun
      · exact ih (by omega)

theorem string_settled {quote : Char} (h : k.bump.rest.length < n) : Settled (k.string n quote) := stringBody_settled h

theorem template_and_hole_settled (n : Nat) :
    (∀ parts done (k : Cursor), k.rest.length < n → Settled (templateBody n parts done k)) ∧
    ∀ depth (k : Cursor), k.rest.length < n → Settled (holeEnd n depth k) := by
  induction n with
  | zero => exact ⟨fun _ _ _ h => absurd h (Nat.not_lt_zero _), fun _ _ h => absurd h (Nat.not_lt_zero _)⟩
  | succ n ih =>
    obtain ⟨body, hole⟩ := ih
    constructor
    · intro parts done k h
      unfold templateBody
      split
      · exact settled_fail (by decide)
      · next rest hk =>
        have hopen := length_drop_two hk
        refine (hole 0 (k.drop 2) (by omega)).bind fun stop hstop => ?_
        obtain ⟨code, after, hr, hclose, -⟩ := (template_and_hole_read n).2 hstop
        have hcode := hr.length
        have hstep := length_bump hclose
        exact body _ _ _ (by omega)
      · next c rest _ hk =>
        have hstep := length_bump hk
        split
        · exact settled_ok _
        split
        · refine escape_settled.bind fun r he => ?_
          obtain ⟨e, k1⟩ := r
          obtain ⟨spelled, hr, -⟩ := escape_reads he
          have := hr.length
          exact body _ _ _ (by omega)
        · exact body _ _ _ (by omega)
    · intro depth k h
      unfold holeEnd
      split
      · exact settled_fail (by decide)
      · next c rest hk =>
        have hstep := length_bump hk
        split
        · split
          · exact settled_ok _
          · exact hole _ _ (by omega)
        split
        · exact hole _ _ (by omega)
        split
        · refine (string_settled (by omega)).bind fun r hs => ?_
          obtain ⟨s, k1⟩ := r
          obtain ⟨body, text, -, hr, -⟩ := string_reads hk hs
          have hlength := hr.length
          simp only [List.length_append, List.length_cons] at hlength
          exact hole _ _ (by omega)
        split
        · refine (body _ _ _ (by omega)).bind fun r ht => ?_
          obtain ⟨parts, k1⟩ := r
          obtain ⟨items, text, hr, -⟩ := (template_and_hole_read n).1 ht
          have := hr.length
          exact hole _ _ (by omega)
        · exact hole _ _ (by omega)

theorem number_settled : Settled k.number := by
  have hex : Settled k.hexNumber := by
    unfold hexNumber
    dsimp only
    split
    · exact settled_ok _
    · exact settled_fail nofun
  unfold number
  split
  · exact hex
  · exact hex
  · unfold decimalNumber
    dsimp only
    split
    · exact settled_ok _
    · exact settled_fail nofun

theorem lexeme_settled {c : Char} {rest : List Char} (hk : k.rest = c :: rest) (h : k.rest.length < n) :
    Settled (k.lexeme n c) := by
  have hstep := length_bump hk
  unfold lexeme
  split
  · exact number_settled
  split
  · exact number_settled
  split
  · exact (string_settled (by omega)).bind fun _ _ => settled_ok _
  split
  · exact ((template_and_hole_settled n).1 [] [] k.bump (by omega)).bind fun _ _ => settled_ok _
  split
  · exact settled_ok _
  · unfold mark
    split
    · exact settled_ok _
    · exact settled_fail nofun

theorem tokens_settled {done : List Token} (h : k.rest.length < n) : Settled (tokens n done k) := by
  induction n generalizing done k with
  | zero => exact absurd h (Nat.not_lt_zero _)
  | succ n ih =>
    unfold tokens
    refine (trivia_settled h).bind fun ⟨newline, k1⟩ ht => ?_
    obtain ⟨gap, hr, -⟩ := trivia_reads ht
    have hgap := hr.length
    dsimp only
    split
    · exact settled_ok _
    · next c rest hk =>
      refine (lexeme_settled hk (by omega)).bind fun ⟨l, next⟩ hl => ?_
      obtain ⟨text, hread, hs⟩ := lexeme_reads hk hl
      have htext := hread.length
      have := List.length_pos_of_ne_nil hs.ne_nil
      exact ih (k := next) (by omega)

end Cursor

theorem tokenizeAt_settled (source : String) (start : Position) : Settled (tokenizeAt source start) := by
  refine Cursor.tokens_settled ?_
  change source.toList.length < source.length + 1
  rw [String.length_toList]
  exact Nat.lt_succ_self _

/-- The length of the code in a hole. -/
def TemplatePart.code : TemplatePart → Nat
  | .text _ => 0
  | .hole source _ => source.length

def Lexeme.weight : Lexeme → Nat
  | .template parts => 1 + (parts.map TemplatePart.code).sum
  | _ => 1

def Tokens.weight (ts : Tokens) : Nat := (ts.ahead.map (·.lexeme.weight)).sum

def TemplateItem.code : TemplateItem → Nat
  | .char _ => 0
  | .hole source _ => source.length

theorem TemplateItem.code_parts (items : List TemplateItem) :
    ((parts items).map TemplatePart.code).sum = (items.map code).sum := by
  induction items with
  | nil => rfl
  | cons item items ih =>
    cases item with
    | hole source start => simp [parts, TemplatePart.code, code, ih]
    | char c =>
      rw [parts]
      split
      · next s others hparts => simpa [hparts, TemplatePart.code, code] using ih
      · simpa [TemplatePart.code, code] using ih

theorem Filling.code_le {p : Position} {items : List TemplateItem} {text : List Char} (h : Filling p items text) :
    (items.map TemplateItem.code).sum ≤ text.length := by
  induction items generalizing p text with
  | nil => exact Nat.zero_le _
  | cons item items ih =>
    cases h with
    | plain _ _ _ hf =>
      have := ih hf
      simp only [List.map_cons, List.sum_cons, TemplateItem.code, List.length_cons]
      omega
    | escape _ hf =>
      have := ih hf
      simp only [List.map_cons, List.sum_cons, TemplateItem.code, List.length_cons, List.length_append]
      omega
    | hole _ hf =>
      have := ih hf
      simp only [List.map_cons, List.sum_cons, TemplateItem.code, List.length_cons, List.length_append,
        String.length_ofList]
      omega

theorem Spelling.weight_le {p : Position} {l : Lexeme} {text : List Char} (h : Spelling p l text) :
    l.weight ≤ text.length := by
  have hpos := List.length_pos_of_ne_nil h.ne_nil
  cases h with
  | template hf =>
    have := hf.code_le
    simp only [Lexeme.weight, TemplateItem.code_parts, List.length_append, List.length_cons]
    omega
  | _ => exact hpos

theorem Tiling.weight_le {start last : Position} {newline : Bool} {before text : List Char} {ks : List Token}
    (h : Tiling start last newline before text ks) : (ks.map (·.lexeme.weight)).sum ≤ text.length := by
  induction h with
  | last => exact Nat.zero_le _
  | token _ _ hs _ _ _ ih =>
    have := hs.weight_le
    simp only [List.map_cons, List.sum_cons, List.length_append]
    omega

theorem tokenizeAt_weight {source : String} {p : Position} {ts : Tokens} (h : tokenizeAt source p = .ok ts) :
    ts.weight ≤ source.length := by
  have htiles : Tiling p ts.endPosition ts.newlineAtEnd [] source.toList ts.ahead := tokenizeAt_tiles rfl h
  rw [← String.length_toList]
  exact htiles.weight_le

end Apiary
