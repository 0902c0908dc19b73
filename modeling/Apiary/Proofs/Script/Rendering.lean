import Apiary.Proofs.Script.Phrase.Form
import Apiary.Proofs.Source.Tiling

/-!
Expressions written with every compound part in parentheses. The parser reads such a text back as the tree it was
written from.
-/

namespace Apiary

def BinaryOp.mark : BinaryOp → Mark
  | .add => .plus
  | .sub => .minus
  | .mul => .star
  | .div => .slash
  | .rem => .percent
  | .pow => .power
  | .lt => .less
  | .le => .lessEq
  | .gt => .greater
  | .ge => .greaterEq
  | .looseEq => .looseEq
  | .looseNe => .looseNe
  | .strictEq => .strictEq
  | .strictNe => .strictNe
  | .bitAnd => .ampersand
  | .bitOr => .bar
  | .bitXor => .caret
  | .shl => .shl
  | .shr => .shr
  | .ushr => .ushr

def LogicalOp.mark : LogicalOp → Mark
  | .and => .andAnd
  | .or => .orOr
  | .nullish => .nullish

/-- Not every operation has an assignment of its own. -/
def assignmentMark? : Option BinaryOp → Option Mark
  | none => some .assign
  | some .add => some .addAssign
  | some .sub => some .subAssign
  | some .mul => some .mulAssign
  | some .div => some .divAssign
  | some .rem => some .remAssign
  | some .pow => some .powAssign
  | some .shl => some .shlAssign
  | some .shr => some .shrAssign
  | some .ushr => some .ushrAssign
  | some _ => none

def Expr.isAtom : Expr → Bool
  | .number _ | .string _ | .bool _ | .null | .undefined | .name _ => true
  | _ => false

def wrapped (e : Expr) (ls : List Lexeme) : List Lexeme := if e.isAtom then ls else parenthesised ls

mutual

/-- The tokens of an expression, without parentheses of its own. -/
def Expr.lexemes : Expr → List Lexeme
  | .number x => [.number x]
  | .string s => [.string s]
  | .bool b => [.name (if b then "true" else "false")]
  | .null => [.name "null"]
  | .undefined => [.name "undefined"]
  | .name n => [.name n]
  | .array items => .mark .bracketOpen :: commaJoined (wrappedAll items) ++ [.mark .bracketClose]
  | .object fields => .mark .braceOpen :: commaJoined (fieldLexemes fields) ++ [.mark .braceClose]
  | .member object property optional =>
    wrapped object object.lexemes ++ [.mark (if optional then .optionalDot else .dot), .name property]
  | .index object index =>
    wrapped object object.lexemes ++
      (.mark .bracketOpen :: wrapped index index.lexemes ++ [.mark .bracketClose])
  | .call callee args => wrapped callee callee.lexemes ++ parenthesised (commaJoined (wrappedAll args))
  | .new callee args =>
    .name "new" :: wrapped callee callee.lexemes ++ parenthesised (commaJoined (wrappedAll args))
  | .unary op operand => op.lexeme :: wrapped operand operand.lexemes
  | .update increment true target =>
    .mark (if increment then .increment else .decrement) :: wrapped target target.lexemes
  | .update increment false target =>
    wrapped target target.lexemes ++ [.mark (if increment then .increment else .decrement)]
  | .binary op left right =>
    wrapped left left.lexemes ++ .mark op.mark :: wrapped right right.lexemes
  | .logical op left right =>
    wrapped left left.lexemes ++ .mark op.mark :: wrapped right right.lexemes
  | .conditional test yes no =>
    wrapped test test.lexemes ++
      .mark .question :: (wrapped yes yes.lexemes ++ .mark .colon :: wrapped no no.lexemes)
  | .assign op target value =>
    wrapped target target.lexemes ++ (assignmentMark? op).toList.map .mark ++ wrapped value value.lexemes
  | .sequence items => commaJoined (wrappedAll items)
  | .await operand => .name "await" :: wrapped operand operand.lexemes
  | .template _ | .function _ => []

def wrappedAll : List Expr → List (List Lexeme)
  | [] => []
  | e :: es => wrapped e e.lexemes :: wrappedAll es

def fieldLexemes : List Field → List (List Lexeme)
  | [] => []
  | .named key value :: fs => (.string key :: .mark .colon :: wrapped value value.lexemes) :: fieldLexemes fs
  | .computed _ _ :: fs => fieldLexemes fs

end

mutual

/-- Built from atoms and operations alone: no template, no function, no computed key. -/
def Expr.Plain : Expr → Prop
  | .number _ | .string _ | .bool _ | .null | .undefined => True
  | .name n => isReserved n = false ∧ n ∉ ["async", "await", "undefined"]
  | .array items => PlainAll items
  | .object fields => PlainFields fields
  | .member object _ _ => object.Plain
  | .index object index => object.Plain ∧ index.Plain
  | .call callee args | .new callee args => callee.Plain ∧ PlainAll args
  | .unary _ operand | .await operand => operand.Plain
  | .update _ _ target => target.isPlace = true ∧ target.Plain
  | .binary _ left right | .logical _ left right => left.Plain ∧ right.Plain
  | .conditional test yes no => test.Plain ∧ yes.Plain ∧ no.Plain
  | .assign op target value =>
    (assignmentMark? op).isSome = true ∧ target.isPlace = true ∧ target.Plain ∧ value.Plain
  | .sequence items => 2 ≤ items.length ∧ PlainAll items
  | .template _ | .function _ => False

def PlainAll : List Expr → Prop
  | [] => True
  | e :: es => e.Plain ∧ PlainAll es

def PlainFields : List Field → Prop
  | [] => True
  | .named _ value :: fs => value.Plain ∧ PlainFields fs
  | .computed _ _ :: _ => False

end

theorem BinaryOp.operator?_mark (op : BinaryOp) : ∃ p, op.mark.operator? = some (p, .binary op) := by
  cases op <;> exact ⟨_, rfl⟩

theorem LogicalOp.operator?_mark (op : LogicalOp) : ∃ p, op.mark.operator? = some (p, .logical op) := by
  cases op <;> exact ⟨_, rfl⟩

theorem assignment?_of_mark {op : Option BinaryOp} {m : Mark} (h : assignmentMark? op = some m) :
    m.assignment? = some op := by
  cases op with
  | none =>
    cases h
    rfl
  | some op => cases op <;> cases h <;> rfl

theorem wrapped_operand {e : Expr} (hp : e.Plain) (h : Phrase Rules.expressionRule 6 e e.lexemes) :
    Operand e (wrapped e e.lexemes) := by
  cases e with
  | number x => exact .number x
  | string s => exact .string s
  | bool b => exact .bool b
  | null => exact .null
  | undefined => exact .undefined
  | name n => exact .name hp.1 hp.2
  | _ => exact .paren h

theorem wrapped_phrase {e : Expr} (hp : e.Plain) (h : Phrase Rules.expressionRule 6 e e.lexemes) :
    Phrase Rules.unaryRule 2 e (wrapped e e.lexemes) := .of_operand (wrapped_operand hp h)

namespace Phrase

variable {e : Expr} {ls : List Lexeme}

theorem expression_of_unary (h : Phrase Rules.unaryRule 2 e ls) : Phrase Rules.expressionRule 6 e ls :=
  h.assignment_of_unary.expression_of_assignment

theorem expression_of_conditional (h : Phrase Rules.conditional 5 e ls) : Phrase Rules.expressionRule 6 e ls :=
  h.plain_of_conditional.assignment_of_plain.expression_of_assignment

end Phrase

theorem Operand.expression {e : Expr} {ls : List Lexeme} (h : Operand e ls) :
    Phrase Rules.expressionRule 6 e ls := (Phrase.of_operand h).expression_of_unary

theorem operation_read {m : Mark} {precedence : Nat} {op : Operator} {left right : Expr}
    (hm : m.operator? = some (precedence, op)) (hl : left.Plain) (hr : right.Plain)
    (hleft : Phrase Rules.expressionRule 6 left left.lexemes)
    (hright : Phrase Rules.expressionRule 6 right right.lexemes) :
    Phrase Rules.expressionRule 6 (op.apply left right)
      (wrapped left left.lexemes ++ .mark m :: wrapped right right.lexemes) := by
  have h := Phrase.operation hm (wrapped_phrase hl hleft) (wrapped_phrase hr hright)
  exact (h.conditional_of_binary.mono (by decide)).expression_of_conditional

mutual

theorem Expr.lexemes_read : ∀ e : Expr, e.Plain → Phrase Rules.expressionRule 6 e e.lexemes
  | .number x, _ => (Operand.number x).expression
  | .string s, _ => (Operand.string s).expression
  | .bool b, _ => (Operand.bool b).expression
  | .null, _ => Operand.null.expression
  | .undefined, _ => Operand.undefined.expression
  | .name n, h => (Operand.name h.1 h.2).expression
  | .array items, h => (Operand.array (wrappedAll_read items h)).expression
  | .object fields, h => (Operand.object (fieldLexemes_read fields h)).expression
  | .member object property optional, h => by
    have hobject := wrapped_operand (e := object) h (Expr.lexemes_read object h)
    exact (Phrase.member hobject property optional).expression_of_unary
  | .index object index, ⟨ho, hi⟩ => by
    have hobject := wrapped_operand ho (Expr.lexemes_read object ho)
    have hindex := wrapped_operand hi (Expr.lexemes_read index hi)
    exact (Phrase.index hobject hindex.expression).expression_of_unary
  | .call callee args, ⟨hc, ha⟩ => by
    have hcallee := wrapped_operand hc (Expr.lexemes_read callee hc)
    exact (Phrase.call hcallee (wrappedAll_read args ha)).expression_of_unary
  | .new callee args, ⟨hc, ha⟩ => by
    have hcallee := wrapped_operand hc (Expr.lexemes_read callee hc)
    exact (Phrase.new hcallee (wrappedAll_read args ha)).expression_of_unary
  | .unary op operand, h =>
    ((wrapped_phrase (e := operand) h (Expr.lexemes_read operand h)).unary op).expression_of_unary
  | .await operand, h => (wrapped_phrase (e := operand) h (Expr.lexemes_read operand h)).await.expression_of_unary
  | .update increment true target, ⟨hplace, h⟩ =>
    ((wrapped_phrase h (Expr.lexemes_read target h)).update_before increment hplace).expression_of_unary
  | .update increment false target, ⟨hplace, h⟩ => by
    have htarget := wrapped_operand h (Expr.lexemes_read target h)
    exact (Phrase.update_after increment htarget hplace).expression_of_unary
  | .binary op left right, ⟨hl, hr⟩ => by
    obtain ⟨p, hp⟩ := op.operator?_mark
    exact operation_read hp hl hr (Expr.lexemes_read left hl) (Expr.lexemes_read right hr)
  | .logical op left right, ⟨hl, hr⟩ => by
    obtain ⟨p, hp⟩ := op.operator?_mark
    exact operation_read hp hl hr (Expr.lexemes_read left hl) (Expr.lexemes_read right hr)
  | .conditional test yes no, ⟨ht, hy, hn⟩ => by
    have htest := wrapped_phrase ht (Expr.lexemes_read test ht)
    have hyes := wrapped_phrase hy (Expr.lexemes_read yes hy)
    have hno := wrapped_phrase hn (Expr.lexemes_read no hn)
    have h := Phrase.conditional (htest.binary_of_unary 1) hyes.assignment_of_unary hno.assignment_of_unary
    exact h.expression_of_conditional
  | .assign op target value, ⟨hop, hplace, ht, hv⟩ => by
    obtain ⟨m, hm⟩ := Option.isSome_iff_exists.mp hop
    have htarget := wrapped_phrase ht (Expr.lexemes_read target ht)
    have hvalue := wrapped_phrase hv (Expr.lexemes_read value hv)
    have h := Phrase.assignment (assignment?_of_mark hm) (htarget.binary_of_unary 1).conditional_of_binary hplace
      hvalue.assignment_of_unary
    simpa [Expr.lexemes, hm] using h.assignment_of_plain.expression_of_assignment
  | .sequence items, ⟨hmany, h⟩ => .sequence hmany (wrappedAll_read items h)

theorem wrappedAll_read : ∀ es : List Expr, PlainAll es →
    List.Forall₂ (Phrase Rules.assignmentRule 5) es (wrappedAll es)
  | [], _ => .nil
  | e :: es, ⟨he, hes⟩ => by
    have hfirst := wrapped_phrase he (Expr.lexemes_read e he)
    exact .cons hfirst.assignment_of_unary (wrappedAll_read es hes)

theorem fieldLexemes_read : ∀ fs : List Field, PlainFields fs → List.Forall₂ FieldPhrase fs (fieldLexemes fs)
  | [], _ => .nil
  | .named key value :: fs, ⟨hv, hfs⟩ => by
    have hvalue := wrapped_phrase hv (Expr.lexemes_read value hv)
    exact .cons (.named key hvalue.assignment_of_unary) (fieldLexemes_read fs hfs)

end

def ArrowFree (ls : List Lexeme) : Prop := .mark .arrow ∉ ls

theorem ArrowFree.cons {l : Lexeme} {ls : List Lexeme} (hl : l ≠ .mark .arrow) (h : ArrowFree ls) :
    ArrowFree (l :: ls) := by
  intro hmem
  rcases List.mem_cons.mp hmem with heq | hmem
  · exact hl heq.symm
  · exact h hmem

theorem ArrowFree.append {ls ms : List Lexeme} (hl : ArrowFree ls) (hm : ArrowFree ms) : ArrowFree (ls ++ ms) := by
  intro hmem
  rcases List.mem_append.mp hmem with h | h
  · exact hl h
  · exact hm h

theorem ArrowFree.nil : ArrowFree [] := by simp [ArrowFree]

theorem ArrowFree.one {l : Lexeme} (hl : l ≠ .mark .arrow) : ArrowFree [l] := ArrowFree.nil.cons hl

theorem ArrowFree.parenthesised {ls : List Lexeme} (h : ArrowFree ls) : ArrowFree (parenthesised ls) :=
  (h.cons (by simp)).append (.one (by simp))

theorem ArrowFree.wrapped {ls : List Lexeme} (h : ArrowFree ls) (e : Expr) : ArrowFree (wrapped e ls) := by
  unfold Apiary.wrapped
  split
  · exact h
  · exact h.parenthesised

theorem ArrowFree.commaJoined {lss : List (List Lexeme)} (h : ∀ ls ∈ lss, ArrowFree ls) :
    ArrowFree (commaJoined lss) := by
  cases lss with
  | nil => exact .nil
  | cons ls lss =>
    refine ArrowFree.append (h ls List.mem_cons_self) ?_
    intro hmem
    obtain ⟨ms, hms, hmem⟩ := List.mem_flatMap.mp hmem
    exact (h ms (List.mem_cons_of_mem _ hms)).cons (by simp) hmem

theorem operator?_ne_arrow {m : Mark} {r : Nat × Operator} (h : m.operator? = some r) :
    Lexeme.mark m ≠ .mark .arrow := by
  rintro hm
  cases hm
  cases h

mutual

theorem Expr.arrowFree : ∀ e : Expr, ArrowFree e.lexemes
  | .number x => .one (by simp)
  | .string s => .one (by simp)
  | .bool b => .one (by simp)
  | .null => .one (by simp)
  | .undefined => .one (by simp)
  | .name n => .one (by simp)
  | .array items => ((ArrowFree.commaJoined (wrappedAll_arrowFree items)).cons (by simp)).append (.one (by simp))
  | .object fields =>
    ((ArrowFree.commaJoined (fieldLexemes_arrowFree fields)).cons (by simp)).append (.one (by simp))
  | .member object property optional =>
    ((Expr.arrowFree object).wrapped object).append
      (ArrowFree.cons (by cases optional <;> simp) (.one (by simp)))
  | .index object index =>
    ((Expr.arrowFree object).wrapped object).append
      ((((Expr.arrowFree index).wrapped index).cons (by simp)).append (.one (by simp)))
  | .call callee args =>
    ((Expr.arrowFree callee).wrapped callee).append
      (ArrowFree.commaJoined (wrappedAll_arrowFree args)).parenthesised
  | .new callee args =>
    (((Expr.arrowFree callee).wrapped callee).cons (by simp)).append
      (ArrowFree.commaJoined (wrappedAll_arrowFree args)).parenthesised
  | .unary op operand => ((Expr.arrowFree operand).wrapped operand).cons (by cases op <;> simp [UnaryOp.lexeme])
  | .await operand => ((Expr.arrowFree operand).wrapped operand).cons (by simp)
  | .update increment true target =>
    ((Expr.arrowFree target).wrapped target).cons (by cases increment <;> simp)
  | .update increment false target =>
    ((Expr.arrowFree target).wrapped target).append (.one (by cases increment <;> simp))
  | .binary op left right => by
    obtain ⟨p, hp⟩ := op.operator?_mark
    exact ((Expr.arrowFree left).wrapped left).append
      (((Expr.arrowFree right).wrapped right).cons (operator?_ne_arrow hp))
  | .logical op left right => by
    obtain ⟨p, hp⟩ := op.operator?_mark
    exact ((Expr.arrowFree left).wrapped left).append
      (((Expr.arrowFree right).wrapped right).cons (operator?_ne_arrow hp))
  | .conditional test yes no =>
    ((Expr.arrowFree test).wrapped test).append
      ((((Expr.arrowFree yes).wrapped yes).append
        (((Expr.arrowFree no).wrapped no).cons (by simp))).cons (by simp))
  | .assign op target value => by
    have hmark : ArrowFree ((assignmentMark? op).toList.map .mark) := by
      cases op with
      | none => exact .one (by simp)
      | some op => cases op <;> simp [assignmentMark?, ArrowFree]
    exact (((Expr.arrowFree target).wrapped target).append hmark).append ((Expr.arrowFree value).wrapped value)
  | .sequence items => ArrowFree.commaJoined (wrappedAll_arrowFree items)
  | .template _ => .nil
  | .function _ => .nil

theorem wrappedAll_arrowFree : ∀ es : List Expr, ∀ ls ∈ wrappedAll es, ArrowFree ls
  | [] => by simp [wrappedAll]
  | e :: es => by
    have he := (Expr.arrowFree e).wrapped e
    have hes := wrappedAll_arrowFree es
    simpa [wrappedAll, he] using hes

theorem fieldLexemes_arrowFree : ∀ fs : List Field, ∀ ls ∈ fieldLexemes fs, ArrowFree ls
  | [] => by simp [fieldLexemes]
  | .named key value :: fs => by
    have hvalue : ArrowFree (.string key :: .mark .colon :: wrapped value value.lexemes) :=
      (((Expr.arrowFree value).wrapped value).cons (by simp)).cons (by simp)
    have hfs := fieldLexemes_arrowFree fs
    simpa [fieldLexemes, hvalue] using hfs
  | .computed _ _ :: fs => fieldLexemes_arrowFree fs

end

theorem calm_of_arrowFree {ts : Tokens} (h : ArrowFree (ts.ahead.map (·.lexeme)))
    (hline : ∀ k ∈ ts.ahead, k.newlineBefore = false) : ts.Calm :=
  fun k hk => ⟨fun harrow => h (harrow ▸ List.mem_map_of_mem hk), hline k hk⟩

/-- A statement that is a phrase in parentheses is the whole of a program. -/
theorem program_reads {e : Expr} {ls : List Lexeme} (h : Phrase Rules.expressionRule 6 e ls) {ts : Tokens}
    (hcalm : ts.Calm) (hts : ts.ahead.map (·.lexeme) = parenthesised ls) {n : Nat} (hn : ts.ahead.length + 2 ≤ n) :
    (Rules.level n).program n ts = .ok ([.expr e], { ts with ahead := [] }) := by
  let us : Tokens := { ts with ahead := [] }
  have hr : ts.Reads (parenthesised ls) us := hts ▸ Tokens.Reads.whole hcalm
  have hlength : ts.ahead.length = (parenthesised ls).length := by rw [← hts, List.length_map]
  obtain ⟨n, rfl⟩ : ∃ m, n = m + 2 := ⟨n - 2, by omega⟩
  have hphrase := (Operand.paren h).expression.reads (n := n + 1) hr (by omega) (.of_end rfl)
  have hhead : ts.head? = some (.mark .parenOpen) := hr.head?
  have hmore : ts.atEnd = false := by
    cases hahead : ts.ahead with
    | nil => simp [Tokens.head?, hahead] at hhead
    | cons k rest => simp [Tokens.atEnd, hahead]
  have hsemicolon : Parse.semicolon us = .ok ((), us) := by
    simp [Parse.semicolon, Tokens.isMark, Tokens.head?, us, Parse.endsStatement, Tokens.atEnd]
  have hstatement : (Rules.level (n + 2)).statement ts = .ok (.expr e, us) := by
    rw [level_statement, Rules.statementRule, Parse.look_bind, hhead]
    dsimp only
    rw [Rules.expressionStatement, Parse.bind_of_ok hphrase, Parse.bind_of_ok hsemicolon]
    rfl
  have hrest : (Rules.level (n + 2)).program (n + 1) us = .ok ([], us) := by
    rw [Rules.program, Parse.if_look_pos rfl]
    rfl
  rw [Rules.program, Parse.if_look_neg hmore, Parse.bind_of_ok hstatement, Parse.bind_of_ok hrest]
  rfl

theorem parse_of_program {source : String} {ts us : Tokens} {body : Program} (ht : tokenize source = .ok ts)
    (h : ∀ n, ts.ahead.length + 2 ≤ n → (Rules.level n).program n ts = .ok (body, us)) :
    parse source = .ok body := by
  have hlength : ts.ahead.length ≤ source.length := tokenizeAt_length ht
  have hprogram := h (source.length + 2) (by omega)
  simp only [parse, ht, bind, Except.bind, hprogram, pure, Except.pure]

theorem rendering_parses {e : Expr} (h : e.Plain) {ts : Tokens}
    (hts : ts.ahead.map (·.lexeme) = parenthesised e.lexemes) (hline : ∀ k ∈ ts.ahead, k.newlineBefore = false) :
    (∀ n, ts.ahead.length + 2 ≤ n →
      (Rules.level n).program n ts = .ok ([.expr e], { ts with ahead := [] })) ∧
      ∀ source, tokenize source = .ok ts → parse source = .ok [.expr e] := by
  have hcalm : ts.Calm := calm_of_arrowFree (hts ▸ e.arrowFree.parenthesised) hline
  have hread {n : Nat} (hn : ts.ahead.length + 2 ≤ n) := program_reads (e.lexemes_read h) hcalm hts hn
  exact ⟨fun n hn => hread hn, fun source hs => parse_of_program hs fun n hn => hread hn⟩

def Tokens.ofLexemes (ls : List Lexeme) : Tokens := ⟨ls.map (⟨·, .start, false⟩), .start, false⟩

/-- Stands for `(a.b) += ((c < d) ? f("x") : (++e, null))`. -/
def sampleExpr : Expr :=
  .assign (some .add) (.member (.name "a") "b" false)
    (.conditional (.binary .lt (.name "c") (.name "d")) (.call (.name "f") [.string "x"])
      (.sequence [.update true true (.name "e"), .null]))

theorem sample_parses : sampleExpr.Plain ∧
    (Rules.level 40).program 40 (.ofLexemes (parenthesised sampleExpr.lexemes)) =
      .ok ([.expr sampleExpr], .ofLexemes []) := by
  have plain : sampleExpr.Plain := by
    simp [sampleExpr, Expr.Plain, PlainAll, Expr.isPlace, isReserved, reservedWords, assignmentMark?]
  have lexemes : ∀ ls, (Tokens.ofLexemes ls).ahead.map (·.lexeme) = ls := by
    simp [Tokens.ofLexemes, Function.comp_def]
  have line : ∀ ls, ∀ k ∈ (Tokens.ofLexemes ls).ahead, k.newlineBefore = false := by simp [Tokens.ofLexemes]
  exact ⟨plain, (rendering_parses plain (lexemes _) (line _)).1 40 (by decide)⟩

end Apiary
