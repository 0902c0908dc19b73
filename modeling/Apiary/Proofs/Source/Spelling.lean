import Apiary.Source.Lexer
import Mathlib.Data.List.Basic

/-!
How tokens are spelled, and what may stand between them. A spelling is told by rules of its own, without a
cursor; a template is spelled at a place, because its holes record where they start.
-/

namespace Apiary

/-- White space and complete comments, before a given rest of the text. A line comment runs to the end of its
line or of the text. -/
inductive Gap : List Char → List Char → Prop
  | nil {rest : List Char} : Gap [] rest
  | blank {c : Char} {gap rest : List Char} : isBlank c = true → Gap gap rest → Gap (c :: gap) rest
  | line {text gap rest : List Char} : '\n' ∉ text → (∀ c ∈ (gap ++ rest).head?, c = '\n') → Gap gap rest →
    Gap ('/' :: '/' :: text ++ gap) rest
  | block {text gap rest : List Char} : ¬ ['*', '/'] <:+: text → Gap gap rest →
    Gap ('/' :: '*' :: text ++ '*' :: '/' :: gap) rest

/-- What stands after a backslash, for one character. -/
inductive Escape : Char → List Char → Prop
  | simple {c : Char} : c ≠ 'u' → Escape (Cursor.simpleEscape c) [c]
  | code {digits : List Char} {n : Nat} : digits.length = 4 → valueOf? 16 digits = some n →
    Escape (Cursor.charOfCode n) ('u' :: digits)

inductive Quoted (quote : Char) : List Char → List Char → Prop
  | nil : Quoted quote [] []
  | plain {c : Char} {s text : List Char} : c ≠ quote → c ≠ '\\' → c ≠ '\n' → Quoted quote s text →
    Quoted quote (c :: s) (c :: text)
  | escape {c : Char} {e s text : List Char} : Escape c e → Quoted quote s text →
    Quoted quote (c :: s) ('\\' :: e ++ text)

inductive TemplateItem
  | char (c : Char)
  | hole (source : String) (start : Position)

/-- Parts of a template: each longest run of characters is one text. -/
def TemplateItem.parts : List TemplateItem → List TemplatePart
  | [] => []
  | .char c :: rest =>
    match parts rest with
    | .text s :: others => .text (String.ofList (c :: s.toList)) :: others
    | others => .text (String.ofList [c]) :: others
  | .hole source start :: rest => .hole source start :: parts rest

/-- The part without its place. -/
def TemplatePart.unplaced : TemplatePart → TemplatePart
  | .text s => .text s
  | .hole source _ => .hole source .start

mutual

inductive Filling : Position → List TemplateItem → List Char → Prop
  | nil {p : Position} : Filling p [] []
  | plain {p : Position} {c : Char} {items : List TemplateItem} {text : List Char} :
    c ≠ Cursor.backquote → c ≠ '\\' → ¬ (c = '$' ∧ text.head? = some '\x7b') →
    Filling (p.next c) items text → Filling p (.char c :: items) (c :: text)
  | escape {p : Position} {c : Char} {e : List Char} {items : List TemplateItem} {text : List Char} :
    Escape c e → Filling (p.after ('\\' :: e)) items text → Filling p (.char c :: items) ('\\' :: e ++ text)
  | hole {p : Position} {code : List Char} {items : List TemplateItem} {text : List Char} :
    Enclosed 0 code → Filling (p.after ('$' :: '\x7b' :: code ++ ['\x7d'])) items text →
    Filling p (.hole (String.ofList code) (p.after ['$', '\x7b']) :: items)
      ('$' :: '\x7b' :: code ++ '\x7d' :: text)

/-- Code that closes a number of braces and leaves none open; strings and templates in it are whole. -/
inductive Enclosed : Nat → List Char → Prop
  | nil : Enclosed 0 []
  | «open» {depth : Nat} {code : List Char} : Enclosed (depth + 1) code → Enclosed depth ('\x7b' :: code)
  | close {depth : Nat} {code : List Char} : Enclosed depth code → Enclosed (depth + 1) ('\x7d' :: code)
  | string {depth : Nat} {quote : Char} {s text code : List Char} : quote = '"' ∨ quote = '\'' →
    Quoted quote s text → Enclosed depth code → Enclosed depth (quote :: text ++ quote :: code)
  | template {depth : Nat} {p : Position} {items : List TemplateItem} {text code : List Char} :
    Filling p items text → Enclosed depth code →
    Enclosed depth (Cursor.backquote :: text ++ Cursor.backquote :: code)
  | other {depth : Nat} {c : Char} {code : List Char} : c ≠ '\x7b' → c ≠ '\x7d' → c ≠ '"' → c ≠ '\'' →
    c ≠ Cursor.backquote → Enclosed depth code → Enclosed depth (c :: code)

end

def Digits (text : List Char) : Prop := ∀ c ∈ text, c.isDigit = true

def Separated (text : List Char) : Prop := ∀ c ∈ text, Cursor.isDigitOrSeparator c = true

inductive Exponent : List Char → Prop
  | none : Exponent []
  | some {mark : Char} {sign digits : List Char} : mark = 'e' ∨ mark = 'E' →
    sign = [] ∨ sign = ['+'] ∨ sign = ['-'] → digits ≠ [] → Digits digits → Exponent (mark :: sign ++ digits)

/-- Separators between the digits of a decimal literal do not count. -/
inductive NumberSpelling : Double → List Char → Prop
  | hex {mark : Char} {digits : List Char} {n : Nat} : mark = 'x' ∨ mark = 'X' →
    valueOf? 16 digits = some n → n < twoTo 64 → NumberSpelling (Double.ofNat n) ('0' :: mark :: digits)
  | decimal {whole point fraction exponent : List Char} {x : Double} : Separated whole →
    point = [] ∨ point = ['.'] → Separated fraction → Exponent exponent →
    readDecimal? ((whole ++ point ++ fraction ++ exponent).filter (· ≠ '_')) = some x →
    NumberSpelling x (whole ++ point ++ fraction ++ exponent)

inductive Spelling (p : Position) : Lexeme → List Char → Prop
  | number {x : Double} {text : List Char} : NumberSpelling x text → Spelling p (.number x) text
  | string {quote : Char} {s text : List Char} : quote = '"' ∨ quote = '\'' → Quoted quote s text →
    Spelling p (.string (String.ofList s)) (quote :: text ++ [quote])
  | template {items : List TemplateItem} {text : List Char} : Filling (p.next Cursor.backquote) items text →
    Spelling p (.template (TemplateItem.parts items)) (Cursor.backquote :: text ++ [Cursor.backquote])
  | name {c : Char} {text : List Char} :
    Cursor.isNameStart c = true → (∀ d ∈ text, Cursor.isNamePart d = true) →
    Spelling p (.name (String.ofList (c :: text))) (c :: text)
  | mark (m : Mark) : Spelling p (.mark m) m.text.toList

end Apiary
