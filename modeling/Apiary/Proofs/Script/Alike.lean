import Apiary.Proofs.Source.Layout
import Apiary.Script.Grammar

/-!
Tokens that differ only in the places where they stand, and what can be told of them without their places.
-/

namespace Apiary

def TemplatePart.textFirst : List TemplatePart → Bool
  | .text _ :: _ => true
  | _ => false

/-- No text is empty, and no two texts stand side by side. -/
def TemplatePart.Tidy : List TemplatePart → Prop
  | [] => True
  | .text s :: rest => s ≠ "" ∧ textFirst rest = false ∧ Tidy rest
  | .hole _ _ :: rest => Tidy rest

theorem TemplateItem.parts_tidy (items : List TemplateItem) : TemplatePart.Tidy (parts items) := by
  have ofList_ne (c : Char) (cs : List Char) : String.ofList (c :: cs) ≠ "" := by
    intro h
    simpa using congrArg String.toList h
  induction items with
  | nil => trivial
  | cons item items ih =>
    cases item with
    | hole source start => exact ih
    | char c =>
      rw [parts]
      split
      next s others hparts =>
        rw [hparts] at ih
        exact ⟨ofList_ne c _, ih.2⟩
      next others hparts =>
        refine ⟨ofList_ne c _, ?_, ih⟩
        unfold TemplatePart.textFirst
        split
        next s rest heq => exact absurd heq (hparts s rest)
        next => rfl

def Lexeme.Tidy : Lexeme → Prop
  | .template parts => TemplatePart.Tidy parts
  | _ => True

theorem Spelling.tidy {p : Position} {l : Lexeme} {text : List Char} (h : Spelling p l text) : l.Tidy := by
  cases h with
  | template => exact TemplateItem.parts_tidy _
  | _ => trivial

theorem Tiling.tidy {start last : Position} {newline : Bool} {before text : List Char} {ks : List Token}
    (h : Tiling start last newline before text ks) : ∀ t ∈ ks, t.lexeme.Tidy := by
  induction h with
  | last => simp
  | token _ _ hs _ _ _ ih => exact List.forall_mem_cons.mpr ⟨hs.tidy, ih⟩

/-- The same lexeme, apart from where the holes of a template stand. -/
inductive Lexeme.Alike : Lexeme → Lexeme → Prop
  | number (x : Double) : Alike (.number x) (.number x)
  | string (s : String) : Alike (.string s) (.string s)
  | name (n : String) : Alike (.name n) (.name n)
  | mark (m : Mark) : Alike (.mark m) (.mark m)
  | template {parts parts' : List TemplatePart} : TemplatePart.Tidy parts →
    parts'.map TemplatePart.unplaced = parts.map TemplatePart.unplaced → Alike (.template parts) (.template parts')

theorem Lexeme.Alike.of_unplaced {l l' : Lexeme} (ht : l.Tidy) (h : l'.unplaced = l.unplaced) : l.Alike l' := by
  cases l with
  | template parts =>
    cases l' with
    | template parts' => exact .template ht (Lexeme.template.inj h)
    | _ => cases h
  | _ =>
    cases l' with
    | template => cases h
    | _ => cases h <;> constructor

namespace Tokens

/-- The same tokens, apart from where they stand. -/
structure Alike (ts us : Tokens) : Prop where
  tidy : ∀ t ∈ ts.ahead, t.lexeme.Tidy
  unplaced : us.unplaced = ts.unplaced

@[simp] theorem head?_unplaced (ts : Tokens) : ts.unplaced.head? = ts.head?.map Lexeme.unplaced := by
  cases h : ts.ahead <;> simp [head?, Tokens.unplaced, Token.unplaced, h]

@[simp] theorem advance_unplaced (ts : Tokens) : ts.unplaced.advance = ts.advance.unplaced := by
  simp [advance, Tokens.unplaced]

@[simp] theorem atEnd_unplaced (ts : Tokens) : ts.unplaced.atEnd = ts.atEnd := by
  simp [atEnd, Tokens.unplaced]

@[simp] theorem newline_unplaced (ts : Tokens) : ts.unplaced.newline = ts.newline := by
  cases h : ts.ahead <;> simp [newline, Tokens.unplaced, Token.unplaced, h]

section Head

variable (ts : Tokens)

@[simp] theorem isMark_unplaced (m : Mark) : ts.unplaced.isMark m = ts.isMark m := by
  rw [isMark, isMark, head?_unplaced]
  rcases ts.head? with _ | ⟨_ | _ | _ | _ | _⟩ <;> rfl

@[simp] theorem isWord_unplaced (w : String) : ts.unplaced.isWord w = ts.isWord w := by
  rw [isWord, isWord, head?_unplaced]
  rcases ts.head? with _ | ⟨_ | _ | _ | _ | _⟩ <;> rfl

@[simp] theorem isName_unplaced : ts.unplaced.isName = ts.isName := by
  rw [isName, isName, head?_unplaced]
  rcases ts.head? with _ | ⟨_ | _ | _ | _ | _⟩ <;> rfl

@[simp] theorem operator?_unplaced : ts.unplaced.operator? = ts.operator? := by
  rw [operator?, operator?, head?_unplaced]
  rcases ts.head? with _ | ⟨_ | _ | _ | _ | _⟩ <;> rfl

@[simp] theorem assignment?_unplaced : ts.unplaced.assignment? = ts.assignment? := by
  rw [assignment?, assignment?, head?_unplaced]
  rcases ts.head? with _ | ⟨_ | _ | _ | _ | _⟩ <;> rfl

@[simp] theorem unaryOp?_unplaced : ts.unplaced.unaryOp? = ts.unaryOp? := by
  rw [unaryOp?, unaryOp?, head?_unplaced]
  rcases ts.head? with _ | ⟨_ | _ | _ | _ | _⟩ <;> rfl

@[simp] theorem update?_unplaced : ts.unplaced.update? = ts.update? := by
  rw [update?, update?, head?_unplaced]
  rcases ts.head? with _ | ⟨_ | _ | _ | _ | _⟩ <;> rfl

@[simp] theorem declKind?_unplaced : ts.unplaced.declKind? = ts.declKind? := by
  rw [declKind?, declKind?, head?_unplaced]
  rcases ts.head? with _ | ⟨_ | _ | _ | _ | _⟩ <;> rfl

end Head

theorem arrowAfterGroup_unplaced (depth : Nat) (ks : List Token) :
    arrowAfterGroup depth (ks.map Token.unplaced) = arrowAfterGroup depth ks := by
  have hhead : ∀ ks : List Token, ((ks.map Token.unplaced).head?.map Token.lexeme) =
      (ks.head?.map Token.lexeme).map Lexeme.unplaced := by
    intro ks
    cases ks <;> rfl
  induction ks generalizing depth with
  | nil => rfl
  | cons k ks ih =>
    obtain ⟨l, p, newline⟩ := k
    rw [List.map_cons, arrowAfterGroup, arrowAfterGroup]
    cases l with
    | mark m =>
      simp only [Token.unplaced, Lexeme.unplaced, ih, hhead]
      cases m with
      | parenClose =>
        dsimp only
        split
        · rcases ks.head?.map Token.lexeme with _ | ⟨_ | _ | _ | _ | _⟩ <;> rfl
        · rfl
      | _ => rfl
    | _ => exact ih depth

@[simp] theorem arrowAhead_unplaced (ts : Tokens) : ts.unplaced.arrowAhead = ts.arrowAhead := by
  rw [arrowAhead, arrowAhead, head?_unplaced, advance_unplaced]
  rcases ts.head? with _ | ⟨_ | _ | _ | _ | m⟩
  case some.mark => cases m <;> first | exact arrowAfterGroup_unplaced 0 ts.ahead | rfl
  all_goals simp [Lexeme.unplaced]

@[simp] theorem asyncArrowAhead_unplaced (ts : Tokens) : ts.unplaced.asyncArrowAhead = ts.asyncArrowAhead := by
  simp [asyncArrowAhead]

@[simp] theorem asyncFunctionAhead_unplaced (ts : Tokens) :
    ts.unplaced.asyncFunctionAhead = ts.asyncFunctionAhead := by
  simp [asyncFunctionAhead]

@[simp] theorem endsStatement_unplaced (ts : Tokens) :
    Parse.endsStatement ts.unplaced = Parse.endsStatement ts := by
  simp [Parse.endsStatement]

@[simp] theorem startsCase_unplaced (ts : Tokens) : Rules.startsCase ts.unplaced = Rules.startsCase ts := by
  simp [Rules.startsCase]

@[simp] theorem eachKeys?_unplaced (ts : Tokens) : Rules.eachKeys? ts.unplaced = Rules.eachKeys? ts := by
  simp only [Rules.eachKeys?, declKind?_unplaced]
  split <;> simp

namespace Alike

variable {ts us : Tokens}

theorem same {α : Type} {f : Tokens → α} (h : ts.Alike us) (hf : ∀ ts : Tokens, f ts.unplaced = f ts) :
    f us = f ts := by
  rw [← hf us, h.unplaced, hf]

theorem advance (h : ts.Alike us) : ts.advance.Alike us.advance where
  tidy t ht := h.tidy t (List.mem_of_mem_tail ht)
  unplaced := by rw [← advance_unplaced, h.unplaced, advance_unplaced]

theorem head? (h : ts.Alike us) : Option.Rel Lexeme.Alike ts.head? us.head? := by
  have hsame : us.head?.map Lexeme.unplaced = ts.head?.map Lexeme.unplaced := by
    rw [← head?_unplaced, ← head?_unplaced, h.unplaced]
  cases hts : ts.head? with
  | none =>
    cases hus : us.head? with
    | none => exact .none
    | some l' => simp [hts, hus] at hsame
  | some l =>
    have htidy : l.Tidy := by
      obtain ⟨t, ht, rfl⟩ := Option.map_eq_some_iff.mp hts
      exact h.tidy t (List.mem_of_mem_head? ht)
    cases hus : us.head? with
    | none => simp [hts, hus] at hsame
    | some l' =>
      rw [hts, hus] at hsame
      exact .some (.of_unplaced htidy (Option.some.inj hsame))

theorem name (h : ts.Alike us) {n : String} (hts : ts.head? = some (.name n)) : us.head? = some (.name n) := by
  have hhead := h.head?
  rw [hts] at hhead
  generalize us.head? = l at hhead
  cases hhead with
  | some hl =>
    cases hl
    rfl

end Alike

end Tokens

theorem tokenizeAt_alike {source : String} {start : Position} {ts : Tokens} (h : tokenizeAt source start = .ok ts)
    (start' : Position) : ∃ us, tokenizeAt source start' = .ok us ∧ ts.Alike us := by
  obtain ⟨us, hus, hsame⟩ := tokenizeAt_anywhere h start'
  have htile : Tiling start ts.endPosition ts.newlineAtEnd [] source.toList ts.ahead := tokenizeAt_tiles rfl h
  exact ⟨us, hus, htile.tidy, hsame⟩

theorem tokenize_alike {before gap after : String} {ts : Tokens} (h : tokenize (before ++ after) = .ok ts)
    (hplace : Position.start.after before.toList ∈ ts.places) (hgap : Layout gap.toList) :
    ∃ us, tokenize (before ++ gap ++ after) = .ok us ∧ ts.Alike us := by
  obtain ⟨us, hus, hsame⟩ := tokenize_relaid h hplace hgap
  exact ⟨us, hus, (tokens_tile_source h).1.tidy, hsame⟩

end Apiary
