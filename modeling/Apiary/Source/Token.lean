import Apiary.Number.Double
import Apiary.Source.Position

/-!
The tokens of a script, and what can be wrong with its text.
-/

namespace Apiary

inductive Mark
  | braceOpen | braceClose | parenOpen | parenClose | bracketOpen | bracketClose
  | semicolon | comma | colon | question | dot | optionalDot | ellipsis | arrow
  | assign | addAssign | subAssign | mulAssign | divAssign | remAssign | powAssign
  | shlAssign | shrAssign | ushrAssign
  | looseEq | looseNe | strictEq | strictNe | less | lessEq | greater | greaterEq
  | andAnd | orOr | nullish
  | increment | decrement
  | plus | minus | star | slash | percent | power
  | shl | shr | ushr | ampersand | bar | caret | bang | tilde
  deriving DecidableEq, Repr

def Mark.text : Mark → String
  | .braceOpen => "\x7b"
  | .braceClose => "\x7d"
  | .parenOpen => "("
  | .parenClose => ")"
  | .bracketOpen => "["
  | .bracketClose => "]"
  | .semicolon => ";"
  | .comma => ","
  | .colon => ":"
  | .question => "?"
  | .dot => "."
  | .optionalDot => "?."
  | .ellipsis => "..."
  | .arrow => "=>"
  | .assign => "="
  | .addAssign => "+="
  | .subAssign => "-="
  | .mulAssign => "*="
  | .divAssign => "/="
  | .remAssign => "%="
  | .powAssign => "**="
  | .shlAssign => "<<="
  | .shrAssign => ">>="
  | .ushrAssign => ">>>="
  | .looseEq => "=="
  | .looseNe => "!="
  | .strictEq => "==="
  | .strictNe => "!=="
  | .less => "<"
  | .lessEq => "<="
  | .greater => ">"
  | .greaterEq => ">="
  | .andAnd => "&&"
  | .orOr => "||"
  | .nullish => "??"
  | .increment => "++"
  | .decrement => "--"
  | .plus => "+"
  | .minus => "-"
  | .star => "*"
  | .slash => "/"
  | .percent => "%"
  | .power => "**"
  | .shl => "<<"
  | .shr => ">>"
  | .ushr => ">>>"
  | .ampersand => "&"
  | .bar => "|"
  | .caret => "^"
  | .bang => "!"
  | .tilde => "~"

def Mark.all : List Mark :=
  [.ushrAssign,
   .strictEq, .strictNe, .powAssign, .ellipsis, .shlAssign, .shrAssign, .ushr,
   .arrow, .looseEq, .looseNe, .lessEq, .greaterEq, .andAnd, .orOr, .nullish, .optionalDot,
   .increment, .decrement, .addAssign, .subAssign, .mulAssign, .divAssign, .remAssign,
   .power, .shl, .shr,
   .braceOpen, .braceClose, .parenOpen, .parenClose, .bracketOpen, .bracketClose,
   .semicolon, .comma, .less, .greater, .plus, .minus, .star, .slash, .percent, .bang, .tilde,
   .question, .colon, .assign, .dot, .ampersand, .bar, .caret]

theorem Mark.mem_all (m : Mark) : m ∈ Mark.all := by cases m <;> decide

inductive TemplatePart
  | text (s : String)
  | hole (source : String) (start : Position)
  deriving DecidableEq

inductive Lexeme
  | number (x : Double)
  | string (s : String)
  | template (parts : List TemplatePart)
  | name (s : String)
  | mark (m : Mark)

structure Token where
  lexeme : Lexeme
  position : Position
  newlineBefore : Bool

structure Tokens where
  ahead : List Token
  endPosition : Position
  newlineAtEnd : Bool

inductive SourceFault
  | unterminatedComment
  | unterminatedString
  | unterminatedTemplate
  | invalidHexLiteral
  | invalidNumber (literal : String)
  | invalidEscape
  | unexpectedCharacter (c : Char)
  | unexpectedEnd
  | unexpectedNumber (text : String)
  | unexpectedString
  | unexpectedToken (text : String)
  | invalidAssignmentTarget
  | invalidUpdateTarget
  | tooLong
  deriving DecidableEq

def SourceFault.message : SourceFault → String
  | .unterminatedComment => "Unterminated comment"
  | .unterminatedString => "Unterminated string literal"
  | .unterminatedTemplate => "Unterminated template literal"
  | .invalidHexLiteral => "Invalid hexadecimal literal"
  | .invalidNumber literal => "Invalid number literal '" ++ literal ++ "'"
  | .invalidEscape => "Invalid unicode escape"
  | .unexpectedCharacter c => "Unexpected character '" ++ c.toString ++ "'"
  | .unexpectedEnd => "Unexpected end of input"
  | .unexpectedNumber text => "Unexpected number '" ++ text ++ "'"
  | .unexpectedString => "Unexpected string"
  | .unexpectedToken text => "Unexpected token '" ++ text ++ "'"
  | .invalidAssignmentTarget => "Invalid left-hand side in assignment"
  | .invalidUpdateTarget => "Invalid left-hand side expression in update operation"
  | .tooLong => "Source too long"

structure SourceError where
  fault : SourceFault
  position : Position
  deriving DecidableEq

def SourceError.text (e : SourceError) : String :=
  e.fault.message ++ " (line " ++ toString e.position.line ++ ", column "
    ++ toString e.position.column ++ ")"

end Apiary
