import Apiary.Number.Numeral
import Apiary.Number.Reading
import Apiary.Source.Token
import Apiary.Text.Letter
import Apiary.Text.Pieces

/-!
Tokens from text. Every scanner takes a cursor and gives the cursor after what it read, so that places
follow from the text itself. A hole of a template runs to the brace that closes it; strings and
templates inside it are passed over whole. A number beside a cursor bounds the characters ahead.
-/

namespace Apiary

namespace Cursor

def fail {α : Type} (k : Cursor) (fault : SourceFault) : Except SourceError α :=
  .error ⟨fault, k.position⟩

def blockComment : Nat → Bool → Cursor → Except SourceError (Bool × Cursor)
  | 0, _, k => k.fail .tooLong
  | n + 1, newline, k =>
    match k.rest with
    | [] => k.fail .unterminatedComment
    | '*' :: '/' :: _ => .ok (newline, k.drop 2)
    | c :: _ => blockComment n (newline || c == '\n') k.bump

/-- Passes over white space and comments; tells whether a line ended. -/
def trivia : Nat → Bool → Cursor → Except SourceError (Bool × Cursor)
  | 0, _, k => k.fail .tooLong
  | n + 1, newline, k =>
    match k.rest with
    | '/' :: '/' :: _ => trivia n newline (k.skipWhile (· ≠ '\n'))
    | '/' :: '*' :: _ => do
      let (newline, k) ← blockComment n newline (k.drop 2)
      trivia n newline k
    | c :: _ =>
      if isBlank c then trivia n (newline || c == '\n') k.bump else .ok (newline, k)
    | [] => .ok (newline, k)

def isHexDigit (c : Char) : Bool := (digitOf? 16 c).isSome

def isDigitOrSeparator (c : Char) : Bool := c.isDigit || c == '_'

def exponent (k : Cursor) : Cursor :=
  match k.rest with
  | c :: _ =>
    if c = 'e' ∨ c = 'E' then
      let k1 := k.bump
      let k2 := match k1.rest with
        | '+' :: _ => k1.bump
        | '-' :: _ => k1.bump
        | _ => k1
      match k2.rest with
      | d :: _ => if d.isDigit then k2.skipWhile Char.isDigit else k
      | [] => k
    else k
  | [] => k

def decimalEnd (k : Cursor) : Cursor :=
  let whole := k.skipWhile isDigitOrSeparator
  let point := match whole.rest with
    | '.' :: _ => whole.bump
    | _ => whole
  (point.skipWhile isDigitOrSeparator).exponent

def hexNumber (k : Cursor) : Except SourceError (Lexeme × Cursor) :=
  let digits := k.drop 2
  let last := digits.skipWhile isHexDigit
  match (valueOf? 16 (digits.textTo last)).filter (· < twoTo 64) with
  | some n => .ok (.number (Double.ofNat n), last)
  | none => last.fail .invalidHexLiteral

def decimalNumber (k : Cursor) : Except SourceError (Lexeme × Cursor) :=
  let last := k.decimalEnd
  let literal := (k.textTo last).filter (· ≠ '_')
  match readDecimal? literal with
  | some x => .ok (.number x, last)
  | none => last.fail (.invalidNumber (String.ofList literal))

def number (k : Cursor) : Except SourceError (Lexeme × Cursor) :=
  match k.rest with
  | '0' :: 'x' :: _ => k.hexNumber
  | '0' :: 'X' :: _ => k.hexNumber
  | _ => k.decimalNumber

/-- The character with this code; a surrogate code gives the replacement character. -/
def charOfCode (n : Nat) : Char := if n.isValidChar then Char.ofNat n else Char.ofNat 0xfffd

def hexDigits : Nat → Nat → Cursor → Except SourceError (Nat × Cursor)
  | 0, code, k => .ok (code, k)
  | n + 1, code, k =>
    match k.rest with
    | [] => k.fail .invalidEscape
    | c :: _ =>
      match digitOf? 16 c with
      | none => k.bump.fail .invalidEscape
      | some d => hexDigits n (code * 16 + d) k.bump

def simpleEscape (c : Char) : Char :=
  if c = 'n' then '\n'
  else if c = 't' then '\t'
  else if c = 'r' then '\r'
  else if c = '0' then Char.ofNat 0
  else if c = 'b' then Char.ofNat 8
  else if c = 'f' then Char.ofNat 12
  else if c = 'v' then Char.ofNat 11
  else c

def escape (k : Cursor) : Except SourceError (Char × Cursor) :=
  match k.rest with
  | [] => k.fail .unterminatedString
  | 'u' :: _ => do
    let (code, k) ← hexDigits 4 0 k.bump
    pure (charOfCode code, k)
  | c :: _ => .ok (simpleEscape c, k.bump)

def stringBody (quote : Char) : Nat → List Char → Cursor → Except SourceError (String × Cursor)
  | 0, _, k => k.fail .tooLong
  | n + 1, done, k =>
    match k.rest with
    | [] => k.fail .unterminatedString
    | c :: _ =>
      if c = quote then .ok (String.ofList done.reverse, k.bump)
      else if c = '\\' then do
        let (e, k) ← k.bump.escape
        stringBody quote n (e :: done) k
      else if c = '\n' then k.bump.fail .unterminatedString
      else stringBody quote n (c :: done) k.bump

def string (n : Nat) (quote : Char) (k : Cursor) : Except SourceError (String × Cursor) :=
  stringBody quote n [] k.bump

def backquote : Char := Char.ofNat 96

/-- Adds a text piece unless it is empty; `done` holds characters in reverse. -/
def addText (done : List Char) (parts : List TemplatePart) : List TemplatePart :=
  if done.isEmpty then parts else .text (String.ofList done.reverse) :: parts

mutual

def templateBody : Nat → List TemplatePart → List Char → Cursor →
    Except SourceError (List TemplatePart × Cursor)
  | 0, _, _, k => k.fail .tooLong
  | n + 1, parts, done, k =>
    match k.rest with
    | [] => k.fail .unterminatedTemplate
    | '$' :: '\x7b' :: _ => do
      let start := k.drop 2
      let stop ← holeEnd n 0 start
      let hole := .hole (String.ofList (start.textTo stop)) start.position
      templateBody n (hole :: addText done parts) [] stop.bump
    | c :: _ =>
      if c = backquote then .ok (addText done parts, k.bump)
      else if c = '\\' then do
        let (e, k) ← k.bump.escape
        templateBody n parts (e :: done) k
      else templateBody n parts (c :: done) k.bump

def holeEnd : Nat → Nat → Cursor → Except SourceError Cursor
  | 0, _, k => k.fail .tooLong
  | n + 1, depth, k =>
    match k.rest with
    | [] => k.fail .unterminatedTemplate
    | c :: _ =>
      if c = '\x7d' then
        match depth with
        | 0 => .ok k
        | depth + 1 => holeEnd n depth k.bump
      else if c = '\x7b' then holeEnd n (depth + 1) k.bump
      else if c = '"' ∨ c = '\'' then do
        let (_, k) ← k.string n c
        holeEnd n depth k
      else if c = backquote then do
        let (_, k) ← templateBody n [] [] k.bump
        holeEnd n depth k
      else holeEnd n depth k.bump

end

def template (n : Nat) (k : Cursor) : Except SourceError (Lexeme × Cursor) := do
  let (parts, k') ← templateBody n [] [] k.bump
  pure (.template parts.reverse, k')

def isNameStart (c : Char) : Bool := isLetter c || c == '_' || c == '$'

def isNamePart (c : Char) : Bool := isLetterOrDigit c || c == '_' || c == '$'

def startsWith (text s : List Char) : Bool := text.isPrefixOf s

def mark (c : Char) (k : Cursor) : Except SourceError (Lexeme × Cursor) :=
  match Mark.all.find? fun m => startsWith m.text.toList k.rest with
  | some m => .ok (.mark m, k.drop m.text.length)
  | none => k.fail (.unexpectedCharacter c)

def lexeme (n : Nat) (c : Char) (k : Cursor) : Except SourceError (Lexeme × Cursor) :=
  if c.isDigit then k.number
  else if c = '.' ∧ (k.rest.tail.head?.any Char.isDigit) then k.number
  else if c = '"' ∨ c = '\'' then do
    let (s, k) ← k.string n c
    pure (.string s, k)
  else if c = backquote then k.template n
  else if isNameStart c then
    let last := k.skipWhile isNamePart
    .ok (.name (String.ofList (k.textTo last)), last)
  else k.mark c

def tokens : Nat → List Token → Cursor → Except SourceError Tokens
  | 0, _, k => k.fail .tooLong
  | n + 1, done, k => do
    let (newline, k) ← trivia (n + 1) false k
    match k.rest with
    | [] => pure ⟨done.reverse, k.position, newline⟩
    | c :: _ =>
      let (lexeme, next) ← k.lexeme (n + 1) c
      tokens n (⟨lexeme, k.position, newline⟩ :: done) next

end Cursor

def tokenizeAt (source : String) (start : Position) : Except SourceError Tokens :=
  Cursor.tokens (source.length + 1) [] (.ofChars source.toList start)

def tokenize (source : String) : Except SourceError Tokens := tokenizeAt source .start

end Apiary
