import Apiary.Json.Basic
import Apiary.Number.Text
import Apiary.Source.Lexer

/-!
Tokens as data.
-/

namespace Apiary

namespace TemplatePart

def toJson : TemplatePart → Json
  | text s => .arr [.str "text", .str s]
  | hole s p => .arr [.str "expr", .str s, .ofNat p.line, .ofNat p.column]

end TemplatePart

namespace Token

def record (kind : String) (value : Json) (p : Position) (newline : Bool) : Json :=
  .arr [.str kind, value, .ofNat p.line, .ofNat p.column, .bool newline]

def toJson (t : Token) : Json :=
  match t.lexeme with
  | .number x => record "num" (.str (numberText x)) t.position t.newlineBefore
  | .string s => record "str" (.str s) t.position t.newlineBefore
  | .name n => record "id" (.str n) t.position t.newlineBefore
  | .mark m => record "p" (.str m.text) t.position t.newlineBefore
  | .template parts =>
    record "tpl" (.arr (parts.map TemplatePart.toJson)) t.position t.newlineBefore

end Token

def Tokens.toJson (ts : Tokens) : Json :=
  .arr (ts.ahead.map Token.toJson ++ [Token.record "eof" .null ts.endPosition ts.newlineAtEnd])

end Apiary
