import Apiary.Proofs.Script.Alike
import Apiary.Proofs.Script.WellFormed

/-!
Parsing rules that agree: where one gives an answer, the other gives the same from tokens that are alike. A rule also
agrees with itself given more fuel, and what it gives is well formed.
-/

namespace Apiary

namespace Parse

/-- Where `p` gives an answer, it has the property and `q` gives it too, from tokens that are alike. -/
structure Agree {α : Type} (Q : α → Prop) (p q : Parse α) : Prop where
  answer {ts us : Tokens} : ts.Alike us → ∀ {a : α} {ts' : Tokens}, p ts = .ok (a, ts') →
    Q a ∧ ∃ us', q us = .ok (a, us') ∧ ts'.Alike us'

namespace Agree

variable {α β : Type} {Q : α → Prop} {S : β → Prop} {p p' q q' : Parse α} {f g : α → Parse β}

theorem pure {a : α} (ha : Q a) : Agree Q (Pure.pure a) (Pure.pure a) where
  answer h _ _ hp := by
    cases hp
    exact ⟨ha, _, rfl, h⟩

theorem bind (hp : Agree Q p q) (hf : ∀ a, Q a → Agree S (f a) (g a)) : Agree S (p >>= f) (q >>= g) where
  answer h b ts' hb := by
    obtain ⟨a, vs, ha, hb⟩ := bind_eq_ok.mp hb
    obtain ⟨hQ, ws, hq, hvs⟩ := hp.answer h ha
    obtain ⟨hS, us', hg, hus'⟩ := (hf a hQ).answer hvs hb
    exact ⟨hS, us', bind_eq_ok.mpr ⟨a, ws, hq, hg⟩, hus'⟩

theorem map {f : α → β} (hp : Agree Q p q) (hf : ∀ a, Q a → S (f a)) : Agree S (f <$> p) (f <$> q) :=
  hp.bind fun a ha => pure (hf a ha)

theorem ite {c : Prop} [Decidable c] (hp : c → Agree Q p q) (hn : ¬ c → Agree Q p' q') :
    Agree Q (if c then p else p') (if c then q else q') := by
  split
  next h => exact hp h
  next h => exact hn h

theorem fail (fault : SourceFault) : Agree Q (Parse.fail fault) q where
  answer _ _ _ h := by cases h

theorem unexpected : Agree Q Parse.unexpected q where
  answer _ _ _ h := by cases h

theorem lift {r r' : Except SourceError α} (hr : ∀ a, r = .ok a → Q a ∧ r' = .ok a) :
    Agree Q (Rules.lift r) (Rules.lift r') where
  answer {_ us} h a ts' hp := by
    cases r with
    | error => cases hp
    | ok b =>
      cases hp
      obtain ⟨hQ, rfl⟩ := hr a rfl
      exact ⟨hQ, us, rfl, h⟩

theorem look {f : Tokens → α} (hf : ∀ ts : Tokens, f ts.unplaced = f ts) :
    Agree (fun _ => True) (Parse.look f) (Parse.look f) where
  answer {_ us} h a ts' hp := by
    cases hp
    exact ⟨trivial, us, by rw [Parse.look, h.same hf], h⟩

theorem head {f g : Option Lexeme → Parse β} (hf : ∀ l l', Option.Rel Lexeme.Alike l l' → Agree S (f l) (g l')) :
    Agree S (Parse.look Tokens.head? >>= f) (Parse.look Tokens.head? >>= g) where
  answer h := (hf _ _ h.head?).answer h

theorem advance : Agree (fun _ => True) Parse.advance Parse.advance where
  answer h a ts' hp := by
    cases hp
    exact ⟨trivial, _, rfl, h.advance⟩

/-- Answers at once when a test is passed, and does something else otherwise. -/
theorem take (test : Tokens → Bool) (next : Tokens → Tokens) {a : α}
    (htest : ∀ ts : Tokens, test ts.unplaced = test ts)
    (hnext : ∀ {ts us : Tokens}, ts.Alike us → (next ts).Alike (next us)) (hp : Agree Q p q) (ha : Q a) :
    Agree Q (fun ts => if test ts then .ok (a, next ts) else p ts)
      (fun ts => if test ts then .ok (a, next ts) else q ts) where
  answer {ts us} h b ts' hb := by
    have hsame := h.same htest
    change (if test ts then .ok (a, next ts) else p ts) = .ok (b, ts') at hb
    change Q b ∧ ∃ us', (if test us then .ok (a, next us) else q us) = .ok (b, us') ∧ ts'.Alike us'
    rw [hsame]
    split at hb
    next htrue =>
      cases hb
      exact ⟨ha, _, if_pos htrue, hnext h⟩
    next hfalse =>
      rw [if_neg hfalse]
      exact hp.answer h hb

theorem eat (m : Mark) : Agree (fun _ => True) (Parse.eat m) (Parse.eat m) :=
  take (·.isMark m) Tokens.advance (by simp) .advance (p := Pure.pure false) (pure trivial) trivial

theorem eatWord (w : String) : Agree (fun _ => True) (Parse.eatWord w) (Parse.eatWord w) :=
  take (·.isWord w) Tokens.advance (by simp) .advance (p := Pure.pure false) (pure trivial) trivial

theorem expect (m : Mark) : Agree (fun _ => True) (Parse.expect m) (Parse.expect m) :=
  take (·.isMark m) Tokens.advance (by simp) .advance unexpected trivial

theorem expectWord (w : String) : Agree (fun _ => True) (Parse.expectWord w) (Parse.expectWord w) :=
  take (·.isWord w) Tokens.advance (by simp) .advance unexpected trivial

theorem semicolon : Agree (fun _ => True) Parse.semicolon Parse.semicolon :=
  take (·.isMark .semicolon) Tokens.advance (by simp) .advance (take endsStatement id (by simp) id unexpected trivial) trivial

theorem propertyName : Agree (fun _ => True) Parse.propertyName Parse.propertyName where
  answer {ts us} h a ts' hp := by
    unfold Parse.propertyName at hp ⊢
    split at hp
    next n hn =>
      cases hp
      exact ⟨trivial, _, by rw [h.name hn], h.advance⟩
    next => cases hp

theorem identifier : Agree (fun _ => True) Parse.identifier Parse.identifier where
  answer {ts us} h a ts' hp := by
    unfold Parse.identifier at hp ⊢
    split at hp
    next n hn =>
      split at hp
      next => cases hp
      next hfree =>
        cases hp
        exact ⟨trivial, _, by simp only [h.name hn, if_neg hfree], h.advance⟩
    next => cases hp

section Lists

variable (All : List α → Prop)

theorem commaList (stop : Mark) (hitem : Agree Q p q) (hnil : All []) (hcons : ∀ a l, Q a → All l → All (a :: l))
    {n m : Nat} (hn : n ≤ m) : Agree All (Parse.commaList stop p n) (Parse.commaList stop q m) := by
  induction n generalizing m with
  | zero => exact fail _
  | succ n ih =>
    obtain ⟨m, rfl⟩ : ∃ j, m = j + 1 := ⟨m - 1, by omega⟩
    refine bind (look (by simp)) fun b _ => ite (fun _ => pure hnil) fun _ => hitem.bind fun a ha => ?_
    refine (eat .comma).bind fun b _ => ite (fun _ => ?_) fun _ => pure (hcons a [] ha hnil)
    exact (ih (by omega)).bind fun l hl => pure (hcons a l ha hl)

theorem listUntil {stop : Tokens → Bool} (hstop : ∀ ts : Tokens, stop ts.unplaced = stop ts) (hitem : Agree Q p q)
    (hnil : All []) (hcons : ∀ a l, Q a → All l → All (a :: l)) {n m : Nat} (hn : n ≤ m) :
    Agree All (Parse.listUntil stop p n) (Parse.listUntil stop q m) := by
  induction n generalizing m with
  | zero => exact fail _
  | succ n ih =>
    obtain ⟨m, rfl⟩ : ∃ j, m = j + 1 := ⟨m - 1, by omega⟩
    refine bind (look hstop) fun b _ => ite (fun _ => pure hnil) fun _ => bind (look (by simp)) fun b _ => ?_
    refine ite (fun _ => unexpected) fun _ => hitem.bind fun a ha => ?_
    exact (ih (by omega)).bind fun l hl => pure (hcons a l ha hl)

end Lists

end Agree

end Parse

end Apiary

/-!
The rules for expressions agree when the rules they refer back to agree, and give well-formed expressions.
-/

namespace Apiary

namespace Rules

open Parse hiding Agree

/-- The rules that others refer back to agree, the second with fuel for as many tokens at least. -/
structure Agree (r r' : Rules) : Prop where
  fuel : r.fuel ≤ r'.fuel
  expression : Parse.Agree Expr.WellFormed r.expression r'.expression
  assignment : Parse.Agree Expr.WellFormed r.assignment r'.assignment
  binary (least : Nat) : Parse.Agree Expr.WellFormed (r.binary least) (r'.binary least)
  unary : Parse.Agree Expr.WellFormed r.unary r'.unary
  statement : Parse.Agree Stmt.WellFormed r.statement r'.statement

namespace Agree

variable {r r' : Rules} (h : r.Agree r')

include h

theorem block : Parse.Agree Stmt.AllWellFormed r.block r'.block :=
  .bind (.expect _) fun _ _ =>
    .bind (.listUntil Stmt.AllWellFormed (by simp) h.statement trivial (fun _ _ => .intro) h.fuel) fun _ hbody =>
      .bind .advance fun _ _ => .pure hbody

theorem param : Parse.Agree (fun _ => True) r.param r'.param :=
  .bind .identifier fun _ _ => .bind (.eat _) fun _ _ =>
    .ite (fun _ => .bind h.assignment fun _ _ => .pure trivial) fun _ => .pure trivial

theorem params : Parse.Agree (fun _ => True) r.params r'.params :=
  .bind (.expect _) fun _ _ =>
    .bind (.commaList (fun _ => True) _ h.param trivial (fun _ _ _ _ => trivial) h.fuel) fun _ _ =>
      .bind (.expect _) fun _ _ => .pure trivial

theorem functionRest (named : Bool) :
    Parse.Agree (fun f => f.WellFormed ∧ (named = true → f.name.isSome = true)) (r.functionRest named)
      (r'.functionRest named) := by
  refine .bind (.eat _) fun _ _ => .bind (.look (by simp)) fun isName _ => ?_
  extract_lets rest rest'
  have hrest (name : Option String) (hname : named = true → name.isSome = true) :
      Parse.Agree (fun f => f.WellFormed ∧ (named = true → f.name.isSome = true)) (rest name) (rest' name) :=
    .bind h.params fun _ _ => .bind h.block fun _ hbody => .pure ⟨⟨nofun, hbody⟩, hname⟩
  exact .ite (fun _ => .bind (.map .identifier fun _ _ _ => rfl) hrest) fun _ =>
    .ite (fun _ => .bind .unexpected hrest) fun hnamed => .bind (.pure fun h => absurd h hnamed) hrest

theorem arrowFunction : Parse.Agree Expr.WellFormed r.arrowFunction r'.arrowFunction := by
  refine .bind (.look (by simp)) fun group _ => ?_
  extract_lets rest rest'
  have hrest (params : List String) (_ : True) : Parse.Agree Expr.WellFormed (rest params) (rest' params) := by
    refine .bind (.expect _) fun _ _ => .bind (.look (by simp)) fun block _ => ?_
    extract_lets made
    have hmade (body : FunctionBody) (hbody : body.WellFormed) : Parse.Agree Expr.WellFormed (made body) (made body) :=
      .pure ⟨fun _ => rfl, hbody⟩
    exact .ite (fun _ => .bind (.map h.block fun _ hbody => hbody) hmade) fun _ =>
      .bind (.map h.assignment fun _ hvalue => hvalue) hmade
  exact .ite (fun _ => .bind h.params hrest) fun _ => .bind (.bind .identifier fun _ _ => .pure trivial) hrest

theorem arguments : Parse.Agree Expr.AllWellFormed r.arguments r'.arguments :=
  .bind (.expect _) fun _ _ =>
    .bind (.commaList Expr.AllWellFormed _ h.assignment trivial (fun _ _ => .intro) h.fuel) fun _ hargs =>
      .bind (.expect _) fun _ _ => .pure hargs

theorem hole {source : String} {start : Position} {e : Expr} (he : r.hole source start = .ok e) (start' : Position) :
    e.WellFormed ∧ r'.hole source start' = .ok e := by
  obtain ⟨ts, hts, he⟩ := ok_of_bind he
  obtain ⟨⟨e', rest⟩, hr, he⟩ := ok_of_bind he
  obtain ⟨us, hus, halike⟩ := tokenizeAt_alike hts start'
  obtain ⟨hwell, rest', hr', hrest⟩ := h.expression.answer halike hr
  dsimp only at he
  split at he
  next hend =>
    cases he
    refine ⟨hwell, ?_⟩
    simp [Rules.hole, hus, hr', hrest.same (f := Tokens.atEnd) (by simp), hend, bind, Except.bind, pure, Except.pure]
  next => cases he

theorem pieces {parts parts' : List TemplatePart} {ps : List Piece} (htidy : TemplatePart.Tidy parts)
    (hsame : parts'.map TemplatePart.unplaced = parts.map TemplatePart.unplaced) (hps : r.pieces parts = .ok ps) :
    (Piece.Tidy ps ∧ Piece.AllWellFormed ps ∧ Piece.textFirst ps = TemplatePart.textFirst parts) ∧
      r'.pieces parts' = .ok ps := by
  induction parts generalizing parts' ps with
  | nil =>
    obtain rfl : parts' = [] := by simpa using hsame
    cases hps
    exact ⟨⟨trivial, trivial, rfl⟩, rfl⟩
  | cons part parts ih =>
    cases parts' with
    | nil => simp at hsame
    | cons part' parts' =>
      obtain ⟨hpart, hparts⟩ := List.cons.inj hsame
      cases part with
      | text s =>
        obtain ⟨ps, hrest, hps⟩ := ok_of_bind hps
        cases hps
        obtain ⟨⟨hps, hwell, hfirst⟩, hrest'⟩ := ih htidy.2.2 hparts hrest
        cases part' with
        | hole => cases hpart
        | text s' =>
          cases hpart
          refine ⟨⟨⟨htidy.1, hfirst.trans htidy.2.1, hps⟩, hwell, rfl⟩, ?_⟩
          simp [Rules.pieces, hrest', bind, Except.bind, pure, Except.pure]
      | hole source start =>
        obtain ⟨e, he, hps⟩ := ok_of_bind hps
        obtain ⟨ps, hrest, hps⟩ := ok_of_bind hps
        cases hps
        obtain ⟨⟨hps, hwell, -⟩, hrest'⟩ := ih htidy hparts hrest
        cases part' with
        | text => cases hpart
        | hole source' start' =>
          cases hpart
          obtain ⟨hfilled, he'⟩ := h.hole he start'
          refine ⟨⟨hps, ⟨hfilled, hwell⟩, rfl⟩, ?_⟩
          simp [Rules.pieces, he', hrest', bind, Except.bind, pure, Except.pure]

omit h in
theorem makeField_wellFormed {key : String ⊕ Expr} {value : Expr} (hkey : ∀ e, key = .inr e → e.WellFormed)
    (hvalue : value.WellFormed) : Field.AllWellFormed [makeField key value] := by
  cases key with
  | inl name => exact ⟨hvalue, trivial⟩
  | inr e => exact ⟨hkey e rfl, hvalue, trivial⟩

theorem fieldKey : Parse.Agree (fun key => ∀ e, key = .inr e → e.WellFormed) r.fieldKey r'.fieldKey := by
  refine .head fun l l' hl => ?_
  cases hl with
  | none => exact .unexpected
  | some hl =>
    cases hl with
    | number x => exact .bind .advance fun _ _ => .pure nofun
    | string s => exact .bind .advance fun _ _ => .pure nofun
    | name n => exact .bind .advance fun _ _ => .pure nofun
    | template => exact .unexpected
    | mark m =>
      cases m with
      | bracketOpen =>
        exact .bind .advance fun _ _ => .bind h.assignment fun e he => .bind (.expect _) fun _ _ =>
          .pure fun _ heq => Sum.inr.inj heq ▸ he
      | _ => exact .unexpected

theorem field : Parse.Agree (fun f => Field.AllWellFormed [f]) r.field r'.field := by
  refine .bind h.fieldKey fun key hkey => .bind (.eat _) fun colon _ => .ite (fun _ => ?_) fun _ => ?_
  · exact .bind h.assignment fun value hvalue => .pure (makeField_wellFormed hkey hvalue)
  refine .bind (.look (by simp)) fun group _ => .ite (fun _ => ?_) fun _ => ?_
  · exact .bind h.params fun _ _ => .bind h.block fun body hbody =>
      .pure (makeField_wellFormed hkey ⟨nofun, hbody⟩)
  · cases key with
    | inl name => exact .pure ⟨trivial, trivial⟩
    | inr => exact .unexpected

theorem function (named : Bool) :
    Parse.Agree Expr.WellFormed (Expr.function <$> r.functionRest named) (Expr.function <$> r'.functionRest named) :=
  .map (h.functionRest named) fun _ hf => hf.1

theorem primaryName (n : String) : Parse.Agree Expr.WellFormed (r.primaryName n) (r'.primaryName n) := by
  refine .ite (fun _ => .bind .advance fun _ _ => .pure trivial) fun _ => ?_
  refine .ite (fun _ => .bind .advance fun _ _ => .pure trivial) fun _ => ?_
  refine .ite (fun _ => .bind .advance fun _ _ => .pure trivial) fun _ => ?_
  refine .ite (fun _ => .bind .advance fun _ _ => .pure trivial) fun _ => ?_
  refine .ite (fun _ => .bind .advance fun _ _ => h.function false) fun _ => ?_
  refine .bind (.look (by simp)) fun _ _ => .ite (fun _ => ?_) fun _ => .map .identifier fun _ _ => trivial
  exact .bind .advance fun _ _ => .bind .advance fun _ _ => h.function false

theorem primary : Parse.Agree Expr.WellFormed r.primary r'.primary := by
  refine .head fun l l' hl => ?_
  cases hl with
  | none => exact .unexpected
  | some hl =>
    cases hl with
    | number x => exact .bind .advance fun _ _ => .pure trivial
    | string s => exact .bind .advance fun _ _ => .pure trivial
    | name n => exact h.primaryName n
    | template htidy hsame =>
      refine .bind .advance fun _ _ => .bind (.lift fun ps hps => ?_) fun ps hps => .pure hps
      obtain ⟨⟨hps, hwell, -⟩, hps'⟩ := h.pieces htidy hsame hps
      exact ⟨⟨hps, hwell⟩, hps'⟩
    | mark m =>
      cases m with
      | parenOpen =>
        exact .bind .advance fun _ _ => .bind h.expression fun _ he => .bind (.expect _) fun _ _ => .pure he
      | bracketOpen =>
        exact .bind .advance fun _ _ =>
          .bind (.commaList Expr.AllWellFormed _ h.assignment trivial (fun _ _ => .intro) h.fuel) fun _ hitems =>
            .bind (.expect _) fun _ _ => .pure hitems
      | braceOpen =>
        refine .bind .advance fun _ _ =>
          .bind (.commaList Field.AllWellFormed _ h.field trivial (fun f fs hf hfs => ?_) h.fuel)
            fun _ hfields => .bind (.expect _) fun _ _ => .pure hfields
        cases f with
        | named => exact ⟨hf.1, hfs⟩
        | computed => exact ⟨hf.1, hf.2.1, hfs⟩
      | _ => exact .unexpected

omit h in
theorem memberOnly {n m : Nat} (hn : n ≤ m) {e : Expr} (he : e.WellFormed) :
    Parse.Agree Expr.WellFormed (Rules.memberOnly n e) (Rules.memberOnly m e) := by
  induction n generalizing m e with
  | zero => exact .fail _
  | succ n ih =>
    obtain ⟨m, rfl⟩ : ∃ j, m = j + 1 := ⟨m - 1, by omega⟩
    refine .bind (.eat _) fun _ _ => .ite (fun _ => ?_) fun _ => .pure he
    exact .bind .propertyName fun _ _ => ih (by omega) he

theorem newOrPrimary : Parse.Agree Expr.WellFormed r.newOrPrimary r'.newOrPrimary := by
  refine .bind (.eatWord _) fun _ _ => .ite (fun _ => ?_) fun _ => h.primary
  refine .bind h.primary fun callee hcallee => .bind (memberOnly h.fuel hcallee) fun callee hcallee => ?_
  refine .bind (.look (by simp)) fun _ _ => .ite (fun _ => ?_) fun _ => .pure ⟨hcallee, trivial⟩
  exact .bind h.arguments fun _ hargs => .pure ⟨hcallee, hargs⟩

theorem accesses {n m : Nat} (hn : n ≤ m) {e : Expr} (he : e.WellFormed) :
    Parse.Agree Expr.WellFormed (r.accesses n e) (r'.accesses m e) := by
  induction n generalizing m e with
  | zero => exact .fail _
  | succ n ih =>
    obtain ⟨m, rfl⟩ : ∃ j, m = j + 1 := ⟨m - 1, by omega⟩
    have hle : n ≤ m := by omega
    refine .bind (.eat _) fun _ _ => .ite (fun _ => .bind .propertyName fun _ _ => ih hle he) fun _ => ?_
    refine .bind (.eat _) fun _ _ => .ite (fun _ => .bind .propertyName fun _ _ => ih hle he) fun _ => ?_
    refine .bind (.eat _) fun _ _ => .ite (fun _ => ?_) fun _ => ?_
    · exact .bind h.expression fun _ hindex => .bind (.expect _) fun _ _ => ih hle ⟨he, hindex⟩
    · refine .bind (.look (by simp)) fun _ _ => .ite (fun _ => ?_) fun _ => .pure he
      exact .bind h.arguments fun _ hargs => ih hle ⟨he, hargs⟩

theorem postfixed : Parse.Agree Expr.WellFormed r.postfixed r'.postfixed := by
  refine .bind h.newOrPrimary fun e he => .bind (h.accesses h.fuel he) fun e he => .bind (.look (by simp)) fun op _ => ?_
  cases op with
  | none => exact .pure he
  | some increment => exact .ite (fun hplace => .bind .advance fun _ _ => .pure ⟨hplace, he⟩) fun _ => .fail _

theorem unaryRule : Parse.Agree Expr.WellFormed r.unaryRule r'.unaryRule := by
  refine .bind (.look (by simp)) fun op _ => ?_
  cases op with
  | some op => exact .bind .advance fun _ _ => .bind h.unary fun _ he => .pure he
  | none =>
    refine .bind (.eatWord _) fun _ _ => .ite (fun _ => .bind h.unary fun _ he => .pure he) fun _ => ?_
    refine .bind (.look (by simp)) fun op _ => ?_
    cases op with
    | none => exact h.postfixed
    | some increment =>
      exact .bind .advance fun _ _ => .bind h.unary fun _ he =>
        .ite (fun hplace => .pure ⟨hplace, he⟩) fun _ => .fail _

omit h in
theorem apply_wellFormed {op : Operator} {left right : Expr} (hleft : left.WellFormed) (hright : right.WellFormed) :
    (op.apply left right).WellFormed := by
  cases op <;> exact ⟨hleft, hright⟩

theorem operators (least : Nat) {n m : Nat} (hn : n ≤ m) {left : Expr} (hleft : left.WellFormed) :
    Parse.Agree Expr.WellFormed (r.operators least n left) (r'.operators least m left) := by
  induction n generalizing m left with
  | zero => exact .fail _
  | succ n ih =>
    obtain ⟨m, rfl⟩ : ∃ j, m = j + 1 := ⟨m - 1, by omega⟩
    refine .bind (.look (by simp)) fun op _ => ?_
    cases op with
    | none => exact .pure hleft
    | some op =>
      refine .ite (fun _ => .pure hleft) fun _ => .bind .advance fun _ _ => .bind (h.binary _) fun right hright => ?_
      exact ih (by omega) (apply_wellFormed hleft hright)

theorem binaryRule (least : Nat) : Parse.Agree Expr.WellFormed (r.binaryRule least) (r'.binaryRule least) :=
  .bind h.unaryRule fun _ hleft => h.operators least h.fuel hleft

theorem conditional : Parse.Agree Expr.WellFormed r.conditional r'.conditional := by
  refine .bind (h.binaryRule 1) fun test htest => .bind (.eat _) fun _ _ => .ite (fun _ => ?_) fun _ => .pure htest
  exact .bind h.assignment fun _ hyes => .bind (.expect _) fun _ _ => .bind h.assignment fun _ hno =>
    .pure ⟨htest, hyes, hno⟩

theorem plainAssignment : Parse.Agree Expr.WellFormed r.plainAssignment r'.plainAssignment := by
  refine .bind h.conditional fun target htarget => .bind (.look (by simp)) fun op _ => ?_
  cases op with
  | none => exact .pure htarget
  | some op =>
    refine .ite (fun hplace => ?_) fun _ => .fail _
    exact .bind .advance fun _ _ => .bind h.assignment fun _ hvalue => .pure ⟨hplace, htarget, hvalue⟩

theorem assignmentRule : Parse.Agree Expr.WellFormed r.assignmentRule r'.assignmentRule := by
  refine .bind (.look (by simp)) fun _ _ => .ite (fun _ => .bind .advance fun _ _ => h.arrowFunction) fun _ => ?_
  exact .bind (.look (by simp)) fun _ _ => .ite (fun _ => h.arrowFunction) fun _ => h.plainAssignment

theorem sequenceRest {n m : Nat} (hn : n ≤ m) :
    Parse.Agree Expr.AllWellFormed (r.sequenceRest n) (r'.sequenceRest m) := by
  induction n generalizing m with
  | zero => exact .fail _
  | succ n ih =>
    obtain ⟨m, rfl⟩ : ∃ j, m = j + 1 := ⟨m - 1, by omega⟩
    refine .bind (.eat _) fun _ _ => .ite (fun _ => ?_) fun _ => .pure trivial
    exact .bind h.assignmentRule fun _ he => .bind (ih (by omega)) fun _ hrest => .pure ⟨he, hrest⟩

theorem expressionRule : Parse.Agree Expr.WellFormed r.expressionRule r'.expressionRule := by
  refine .bind h.assignmentRule fun first hfirst => .bind (h.sequenceRest h.fuel) fun rest hrest => ?_
  cases rest with
  | nil => exact .pure hfirst
  | cons => exact .pure ⟨by simp, hfirst, hrest⟩

end Agree

end Rules

end Apiary
