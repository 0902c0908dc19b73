import Apiary.Json.Basic
import Apiary.Number.Text

/-!
Data as text, on one line or indented. Strings escape the quote, the backslash and the control
characters; all other characters stand for themselves.
-/

namespace Apiary.Json

def hexDigit (n : Nat) : Char :=
  if n < 10 then Char.ofNat (48 + n) else Char.ofNat (87 + n)

def escape (c : Char) : List Char :=
  if c = '"' then ['\\', '"']
  else if c = '\\' then ['\\', '\\']
  else if c = '\n' then ['\\', 'n']
  else if c = '\r' then ['\\', 'r']
  else if c = '\t' then ['\\', 't']
  else if c.toNat = 8 then ['\\', 'b']
  else if c.toNat = 12 then ['\\', 'f']
  else if c.toNat < 32 then ['\\', 'u', '0', '0', hexDigit (c.toNat / 16), hexDigit (c.toNat % 16)]
  else [c]

def quoted (s : String) : String :=
  String.ofList ('"' :: s.toList.flatMap escape ++ ['"'])

def separated (items : List String) : String := ",".intercalate items

def numeric (x : Double) : String := if x.isFinite then dataText x else "null"

mutual

def text : Json → String
  | .null => "null"
  | .bool true => "true"
  | .bool false => "false"
  | .int i => toString i
  | .float x => numeric x
  | .str s => quoted s
  | .arr items => "[" ++ separated (texts items) ++ "]"
  | .obj fields => "\x7b" ++ separated (fieldTexts fields) ++ "\x7d"

def texts : List Json → List String
  | [] => []
  | j :: rest => text j :: texts rest

def fieldTexts : List (String × Json) → List String
  | [] => []
  | (key, j) :: rest => (quoted key ++ ":" ++ text j) :: fieldTexts rest

end

def newline (indent : String) (level : Nat) : String :=
  "\n" ++ String.join (List.replicate level indent)

def bracketed (opening closing indent : String) (level : Nat) (items : List String) : String :=
  match items with
  | [] => opening ++ closing
  | items =>
    opening ++ separated (items.map (newline indent (level + 1) ++ ·)) ++ newline indent level
      ++ closing

mutual

def pretty (indent : String) (level : Nat) : Json → String
  | .arr items => bracketed "[" "]" indent level (prettyItems indent (level + 1) items)
  | .obj fields => bracketed "\x7b" "\x7d" indent level (prettyFields indent (level + 1) fields)
  | .null => "null"
  | .bool true => "true"
  | .bool false => "false"
  | .int i => toString i
  | .float x => numeric x
  | .str s => quoted s

def prettyItems (indent : String) (level : Nat) : List Json → List String
  | [] => []
  | j :: rest => pretty indent level j :: prettyItems indent level rest

def prettyFields (indent : String) (level : Nat) : List (String × Json) → List String
  | [] => []
  | (key, j) :: rest =>
    (quoted key ++ ": " ++ pretty indent level j) :: prettyFields indent level rest

end

end Apiary.Json
