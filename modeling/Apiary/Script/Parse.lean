import Apiary.Source.Lexer
import Apiary.Script.Tree
import Apiary.Number.Text

/-!
What a parsing rule is, and the rules for single tokens and for lists of items.
-/

namespace Apiary

namespace Tokens

def head? (ts : Tokens) : Option Lexeme := ts.ahead.head?.map (·.lexeme)

def atEnd (ts : Tokens) : Bool := ts.ahead.isEmpty

def position (ts : Tokens) : Position :=
  match ts.ahead with
  | [] => ts.endPosition
  | t :: _ => t.position

def newline (ts : Tokens) : Bool :=
  match ts.ahead with
  | [] => ts.newlineAtEnd
  | t :: _ => t.newlineBefore

def advance (ts : Tokens) : Tokens := { ts with ahead := ts.ahead.tail }

def isMark (m : Mark) (ts : Tokens) : Bool :=
  match ts.head? with
  | some (.mark m') => m' = m
  | _ => false

def isWord (w : String) (ts : Tokens) : Bool :=
  match ts.head? with
  | some (.name n) => n = w
  | _ => false

def isName (ts : Tokens) : Bool :=
  match ts.head? with
  | some (.name _) => true
  | _ => false

def surprise (ts : Tokens) : SourceFault :=
  match ts.head? with
  | none => .unexpectedEnd
  | some (.number x) => .unexpectedNumber (positionalText x)
  | some (.string _) => .unexpectedString
  | some (.template _) => .unexpectedString
  | some (.name n) => .unexpectedToken n
  | some (.mark m) => .unexpectedToken m.text

end Tokens

def reservedWords : List String :=
  ["var", "let", "const", "if", "else", "while", "do", "for", "break", "continue", "function",
   "return", "throw", "try", "catch", "finally", "new", "typeof", "void", "true", "false",
   "null", "in", "of", "switch", "case", "default"]

def isReserved (name : String) : Bool := reservedWords.contains name

def Parse (α : Type) := Tokens → Except SourceError (α × Tokens)

namespace Parse

instance : Monad Parse where
  pure a := fun ts => .ok (a, ts)
  bind p f := fun ts =>
    match p ts with
    | .error e => .error e
    | .ok (a, ts) => f a ts

theorem pure_apply {α : Type} (a : α) (ts : Tokens) : (pure a : Parse α) ts = .ok (a, ts) := rfl

theorem bind_eq_ok {α β : Type} {p : Parse α} {f : α → Parse β} {ts us : Tokens} {b : β} :
    (p >>= f) ts = .ok (b, us) ↔ ∃ a vs, p ts = .ok (a, vs) ∧ f a vs = .ok (b, us) := by
  simp only [bind]
  cases p ts with
  | error e => simp
  | ok r =>
    obtain ⟨a, vs⟩ := r
    exact ⟨fun h => ⟨a, vs, rfl, h⟩, fun ⟨_, _, h, h'⟩ => by cases h; exact h'⟩

def fail {α : Type} (fault : SourceFault) : Parse α :=
  fun ts => .error ⟨fault, ts.position⟩

def unexpected {α : Type} : Parse α := fun ts => .error ⟨ts.surprise, ts.position⟩

def look {α : Type} (f : Tokens → α) : Parse α := fun ts => .ok (f ts, ts)

def advance : Parse Unit := fun ts => .ok ((), ts.advance)

def eat (m : Mark) : Parse Bool :=
  fun ts => if ts.isMark m then .ok (true, ts.advance) else .ok (false, ts)

def eatWord (w : String) : Parse Bool :=
  fun ts => if ts.isWord w then .ok (true, ts.advance) else .ok (false, ts)

def expect (m : Mark) : Parse Unit :=
  fun ts => if ts.isMark m then .ok ((), ts.advance) else unexpected ts

def expectWord (w : String) : Parse Unit :=
  fun ts => if ts.isWord w then .ok ((), ts.advance) else unexpected ts

def identifier : Parse String := fun ts =>
  match ts.head? with
  | some (.name n) => if isReserved n then unexpected ts else .ok (n, ts.advance)
  | _ => unexpected ts

def propertyName : Parse String := fun ts =>
  match ts.head? with
  | some (.name n) => .ok (n, ts.advance)
  | _ => unexpected ts

def endsStatement (ts : Tokens) : Bool := ts.isMark .braceClose || ts.atEnd || ts.newline

def semicolon : Parse Unit := fun ts =>
  if ts.isMark .semicolon then .ok ((), ts.advance)
  else if endsStatement ts then .ok ((), ts)
  else unexpected ts

/-- Items with commas between them, up to the mark `stop`; a comma may follow the last one. -/
def commaList {α : Type} (stop : Mark) (item : Parse α) : Nat → Parse (List α)
  | 0 => fail .tooLong
  | n + 1 => do
    if ← look (·.isMark stop) then pure []
    else
      let a ← item
      if ← eat .comma then
        let rest ← commaList stop item n
        pure (a :: rest)
      else pure [a]

def listUntil {α : Type} (stop : Tokens → Bool) (item : Parse α) : Nat → Parse (List α)
  | 0 => fail .tooLong
  | n + 1 => do
    if ← look stop then pure []
    else if ← look Tokens.atEnd then unexpected
    else
      let a ← item
      let rest ← listUntil stop item n
      pure (a :: rest)

end Parse

end Apiary
