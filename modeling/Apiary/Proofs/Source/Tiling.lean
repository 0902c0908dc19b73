import Apiary.Proofs.Source.Scan

/-!
Tokens and the gaps between them make up the text, and the place of a token is where it stands in the outermost
source, also when it is read from a hole of a template.
-/

namespace Apiary

/-- `text` stands after `before` in a source that starts at `start`: gaps and spellings by turns, the last gap up
to the end. -/
inductive Tiling (start last : Position) (newlineAtEnd : Bool) : List Char → List Char → List Token → Prop
  | last {before gap : List Char} : Gap gap [] → last = start.after (before ++ gap) →
    (newlineAtEnd = true ↔ '\n' ∈ gap) → Tiling start last newlineAtEnd before gap []
  | token {before gap text rest : List Char} {k : Token} {ks : List Token} :
    Gap gap (text ++ rest) → text ≠ [] →
    Spelling k.position k.lexeme text → k.position = start.after (before ++ gap) →
    (k.newlineBefore = true ↔ '\n' ∈ gap) → Tiling start last newlineAtEnd (before ++ gap ++ text) rest ks →
    Tiling start last newlineAtEnd before (gap ++ text ++ rest) (k :: ks)

def Lexeme.holes : Lexeme → List (String × Position)
  | .template parts => parts.filterMap fun
    | .hole source start => some (source, start)
    | .text _ => none
  | _ => []

def Tokens.holes (ts : Tokens) : List (String × Position) := ts.ahead.flatMap (·.lexeme.holes)

/-- A source, and what stands in the holes of its templates, each at the place that its template tells. -/
inductive Within (source : String) (start : Position) : String → Position → Prop
  | whole : Within source start source start
  | hole {text inner : String} {p q : Position} {ts : Tokens} : Within source start text p →
    tokenizeAt text p = .ok ts → (inner, q) ∈ ts.holes → Within source start inner q

theorem NumberSpelling.ne_nil {x : Double} {text : List Char} (h : NumberSpelling x text) : text ≠ [] := by
  cases h with
  | hex => simp
  | decimal _ _ _ _ hx =>
    intro hnil
    rw [hnil] at hx
    cases hx

theorem Spelling.ne_nil {p : Position} {l : Lexeme} {text : List Char} (h : Spelling p l text) : text ≠ [] := by
  cases h with
  | number h => exact h.ne_nil
  | mark m => cases m <;> decide
  | _ => simp

theorem Cursor.tokens_tile {start : Position} {n : Nat} {done : List Token} {k : Cursor} {before : List Char}
    {ts : Tokens} (h : tokens n done k = .ok ts) (hk : k.position = start.after before) :
    ∃ ks, ts.ahead = done.reverse ++ ks ∧ Tiling start ts.endPosition ts.newlineAtEnd before k.rest ks := by
  induction n generalizing done k before with
  | zero => cases h
  | succ n ih =>
    obtain ⟨⟨newline, k1⟩, ht, h⟩ := ok_of_bind h
    obtain ⟨gap, hr, hg, hn⟩ := trivia_reads ht
    have hplace : k1.position = start.after (before ++ gap) := by
      rw [hr.position_eq, hk, Position.after_append]
    have hnewline : newline = true ↔ '\n' ∈ gap := by simpa using hn
    dsimp only at h
    split at h
    · next hend =>
      cases h
      refine ⟨[], by simp, ?_⟩
      rw [hr.rest_eq, hend, List.append_nil]
      exact Tiling.last (hend ▸ hg) hplace hnewline
    · next c rest hc =>
      obtain ⟨⟨l, next⟩, hl, h⟩ := ok_of_bind h
      obtain ⟨text, hread, hs⟩ := lexeme_reads hc hl
      have hnext : next.position = start.after (before ++ gap ++ text) := by
        rw [hread.position_eq, hplace, ← Position.after_append]
      obtain ⟨ks, hks, htile⟩ := ih h hnext
      refine ⟨_, by simpa using hks, ?_⟩
      rw [hr.rest_eq, hread.rest_eq, ← List.append_assoc]
      exact Tiling.token (hread.rest_eq ▸ hg) hs.ne_nil hs hplace hnewline htile

theorem tokenizeAt_tiles {source : String} {start p : Position} {before : List Char} {ts : Tokens}
    (hp : p = start.after before) (h : tokenizeAt source p = .ok ts) :
    Tiling start ts.endPosition ts.newlineAtEnd before source.toList ts.ahead := by
  obtain ⟨ks, hks, htile⟩ := Cursor.tokens_tile h hp
  rw [hks]
  exact htile

theorem Tiling.length_le {start last : Position} {newline : Bool} {before text : List Char} {ks : List Token}
    (h : Tiling start last newline before text ks) : ks.length ≤ text.length := by
  induction h with
  | last => simp
  | token _ hne _ _ _ _ ih =>
    have := List.length_pos_of_ne_nil hne
    simp only [List.length_cons, List.length_append]
    omega

theorem tokenizeAt_length {source : String} {p : Position} {ts : Tokens} (h : tokenizeAt source p = .ok ts) :
    ts.ahead.length ≤ source.length := by
  have htiles : Tiling p ts.endPosition ts.newlineAtEnd [] source.toList ts.ahead := tokenizeAt_tiles rfl h
  have := htiles.length_le
  rwa [String.length_toList] at this

theorem TemplateItem.mem_of_mem_parts {source : String} {q : Position} {items : List TemplateItem}
    (h : .hole source q ∈ parts items) : .hole source q ∈ items := by
  induction items with
  | nil => cases h
  | cons item items ih =>
    cases item with
    | hole source' q' =>
      rcases List.mem_cons.mp h with heq | h
      · cases heq
        exact List.mem_cons_self
      · exact List.mem_cons_of_mem _ (ih h)
    | char c =>
      refine List.mem_cons_of_mem _ (ih ?_)
      simp only [parts] at h
      split at h
      · next s others hparts =>
        rw [hparts]
        simpa using h
      · simpa using h

theorem Filling.hole_placed {p q : Position} {items : List TemplateItem} {text : List Char} {inner : String}
    (h : Filling p items text) (hole : .hole inner q ∈ items) :
    ∃ pre post, text = pre ++ inner.toList ++ post ∧ q = p.after pre := by
  induction items generalizing p text with
  | nil => cases hole
  | cons item items ih =>
    have later (pre : List Char) {rest : List Char} (hf : Filling (p.after pre) items rest)
        (hole : .hole inner q ∈ items) : ∃ pre' post, pre ++ rest = pre' ++ inner.toList ++ post ∧ q = p.after pre' := by
      obtain ⟨pre', post, rfl, rfl⟩ := ih hf hole
      exact ⟨pre ++ pre', post, by simp, by rw [Position.after_append]⟩
    cases h with
    | plain _ _ _ hf => exact later [_] hf (by simpa using hole)
    | escape _ hf => exact later _ hf (by simpa using hole)
    | @hole _ code _ rest henc hf =>
      rcases List.mem_cons.mp hole with heq | hole
      · cases heq
        exact ⟨['$', '\x7b'], '\x7d' :: rest, by simp, rfl⟩
      · simpa using later _ hf hole

theorem mem_holes {parts : List TemplatePart} {source : String} {q : Position} :
    (source, q) ∈ (Lexeme.template parts).holes ↔ .hole source q ∈ parts := by
  simp only [Lexeme.holes, List.mem_filterMap]
  constructor
  · rintro ⟨part, hpart, heq⟩
    cases part with
    | text s => cases heq
    | hole source' q' =>
      cases heq
      exact hpart
  · exact fun h => ⟨_, h, rfl⟩

theorem Tiling.hole_placed {start last : Position} {newline : Bool} {before text : List Char} {ks : List Token}
    {k : Token} {inner : String} {q : Position} (h : Tiling start last newline before text ks) (hk : k ∈ ks)
    (hole : (inner, q) ∈ k.lexeme.holes) :
    ∃ pre post, text = pre ++ inner.toList ++ post ∧ q = start.after (before ++ pre) := by
  induction h with
  | last => cases hk
  | @token before gap spelled rest k' ks hg hne hs hplace hn htile ih =>
    rcases List.mem_cons.mp hk with rfl | hk
    · rw [hplace] at hs
      cases hl : k.lexeme with
      | template parts =>
        rw [hl] at hs hole
        cases hs with
        | @template items filled hf =>
          obtain ⟨pre, post, rfl, rfl⟩ := hf.hole_placed (TemplateItem.mem_of_mem_parts (mem_holes.mp hole))
          refine ⟨gap ++ Cursor.backquote :: pre, post ++ Cursor.backquote :: rest, by simp, ?_⟩
          rw [← List.append_assoc, Position.after_append _ (before ++ gap), Position.after_cons]
      | _ =>
        rw [hl] at hole
        cases hole
    · obtain ⟨pre, post, rfl, rfl⟩ := ih hk
      exact ⟨gap ++ spelled ++ pre, post, by simp, by simp⟩

theorem Within.placed {source text : String} {start p : Position} (h : Within source start text p) :
    ∃ before after, source.toList = before ++ text.toList ++ after ∧ p = start.after before := by
  induction h with
  | whole => exact ⟨[], [], by simp, rfl⟩
  | hole _ ht hole ih =>
    obtain ⟨before, after, hsource, hp⟩ := ih
    obtain ⟨k, hk, hole⟩ := List.mem_flatMap.mp hole
    obtain ⟨pre, post, htext, hq⟩ := (tokenizeAt_tiles hp ht).hole_placed hk hole
    exact ⟨before ++ pre, post ++ after, by simp [hsource, htext], hq⟩

theorem tokens_tile_source {source : String} {start : Position} {ts : Tokens}
    (h : tokenizeAt source start = .ok ts) :
    Tiling start ts.endPosition ts.newlineAtEnd [] source.toList ts.ahead ∧
      ∀ {inner : String} {p : Position}, Within source start inner p →
        ∃ before after, source.toList = before ++ inner.toList ++ after ∧ p = start.after before ∧
          ∀ us, tokenizeAt inner p = .ok us →
            Tiling start us.endPosition us.newlineAtEnd before inner.toList us.ahead := by
  refine ⟨tokenizeAt_tiles rfl h, ?_⟩
  intro inner p hin
  obtain ⟨before, after, hsource, hp⟩ := hin.placed
  exact ⟨before, after, hsource, hp, fun us hus => tokenizeAt_tiles hp hus⟩

def nestedTemplates : String := "/* up\n */ f(\x60a$\x7bb + \x60c\n$\x7bd // e\n \x7d\x60 \x7d\x60)"

theorem nested_templates_tile : ∃ ts, tokenizeAt nestedTemplates .start = .ok ts ∧
    Tiling .start ts.endPosition ts.newlineAtEnd [] nestedTemplates.toList ts.ahead ∧
    ∃ before after, nestedTemplates.toList = before ++ "d // e\n ".toList ++ after ∧
      Position.start.after before = ⟨3, 3⟩ := by
  have within (holes : List (String × Position)) {text inner : String} {p q : Position}
      (h : Within nestedTemplates .start text p)
      (ht : (tokenizeAt text p).toOption.map Tokens.holes = some holes) (hin : (inner, q) ∈ holes) :
      Within nestedTemplates .start inner q := by
    cases htext : tokenizeAt text p with
    | error e => simp [htext, Except.toOption] at ht
    | ok ts =>
      rw [htext] at ht
      cases ht
      exact Within.hole h htext hin
  have outer : Within nestedTemplates .start "b + \x60c\n$\x7bd // e\n \x7d\x60 " ⟨2, 11⟩ :=
    within [("b + \x60c\n$\x7bd // e\n \x7d\x60 ", ⟨2, 11⟩)] .whole (by decide +kernel) (by simp)
  have inner : Within nestedTemplates .start "d // e\n " ⟨3, 3⟩ :=
    within [("d // e\n ", ⟨3, 3⟩)] outer (by decide +kernel) (by simp)
  have hok : (tokenizeAt nestedTemplates .start).isOk = true := by decide +kernel
  cases h : tokenizeAt nestedTemplates .start with
  | error e => simp [h, Except.isOk, Except.toBool] at hok
  | ok ts =>
    obtain ⟨before, after, hsource, hp, -⟩ := (tokens_tile_source h).2 inner
    exact ⟨ts, rfl, (tokens_tile_source h).1, before, after, hsource, hp.symm⟩

end Apiary
