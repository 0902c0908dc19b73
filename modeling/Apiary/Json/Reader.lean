import Apiary.Json.Basic
import Apiary.Number.Reading

/-!
Reading data from text. A failure is the text left unread at the point where it shows. Whole numbers of
64 bits stay exact; other numbers are built from a 64-bit significand and one power of ten, so their
last digit may be off by one. Containers nest at most 127 deep.
-/

namespace Apiary.Json

abbrev Taken (α : Type) := α × List Char

def isSpace (c : Char) : Bool := c = ' ' || c = '\n' || c = '\t' || c = '\r'

def skip (s : List Char) : List Char := s.dropWhile isSpace

def failNext {α : Type} (s : List Char) : Except (List Char) α := .error s.tail

def hexValue? (c : Char) : Option Nat :=
  let n := c.toNat
  if 48 ≤ n ∧ n ≤ 57 then some (n - 48)
  else if 97 ≤ n ∧ n ≤ 102 then some (n - 87)
  else if 65 ≤ n ∧ n ≤ 70 then some (n - 55)
  else none

def dropBytes : Nat → List Char → List Char
  | 0, s => s
  | _, [] => []
  | n + 1, c :: rest => dropBytes (n + 1 - c.utf8Size) rest
termination_by _ s => s.length

def hexUnit (s : List Char) : Except (List Char) (Taken Nat) :=
  match s with
  | a :: b :: c :: d :: rest =>
    match hexValue? a, hexValue? b, hexValue? c, hexValue? d with
    | some a, some b, some c, some d => .ok (((a * 16 + b) * 16 + c) * 16 + d, rest)
    | _, _, _, _ => .error (dropBytes 4 s)
  | s => .error (dropBytes 4 s)

def codeUnit (s : List Char) : Except (List Char) (Taken Char) := do
  let (high, rest) ← hexUnit s
  if 0xDC00 ≤ high ∧ high ≤ 0xDFFF then .error rest
  else if high < 0xD800 ∨ 0xDBFF < high then pure (Char.ofNat high, rest)
  else match rest with
    | '\\' :: 'u' :: after => do
      let (low, rest) ← hexUnit after
      if low < 0xDC00 ∨ 0xDFFF < low then .error rest
      else pure (Char.ofNat ((high - 0xD800) * 0x400 + (low - 0xDC00) + 0x10000), rest)
    | '\\' :: after => .error after.tail
    | after => .error after.tail

def escaped : List Char → Except (List Char) (Taken Char)
  | [] => .error []
  | c :: rest =>
    match c with
    | '"' => .ok ('"', rest)
    | '\\' => .ok ('\\', rest)
    | '/' => .ok ('/', rest)
    | 'b' => .ok (Char.ofNat 8, rest)
    | 'f' => .ok (Char.ofNat 12, rest)
    | 'n' => .ok ('\n', rest)
    | 'r' => .ok ('\r', rest)
    | 't' => .ok ('\t', rest)
    | 'u' => codeUnit rest
    | _ => .error rest

/-- The characters up to the closing quote; `n` bounds the number of steps. -/
def stringBody : Nat → List Char → List Char → Except (List Char) (Taken String)
  | 0, _, s => .error s
  | _ + 1, _, [] => .error []
  | n + 1, done, c :: rest =>
    if c = '"' then .ok (String.ofList done.reverse, rest)
    else if c = '\\' then do
      let (e, rest) ← escaped rest
      stringBody n (e :: done) rest
    else if c.toNat < 32 then .error rest
    else stringBody n (c :: done) rest

def readString (n : Nat) (s : List Char) : Except (List Char) (Taken String) := stringBody n [] s

/-- Takes digits while the significand stays below `2 ^ 64`; also counts them. -/
def significandDigits : Nat → Nat → List Char → Nat × Nat × List Char
  | significand, count, [] => (significand, count, [])
  | significand, count, c :: rest =>
    let next := significand * 10 + digitValue c
    if c.isDigit && next < twoTo 64 then significandDigits next (count + 1) rest
    else (significand, count, c :: rest)

def powerOfTen (n : Nat) : Double := Double.ofNat (tenTo n)

def scaleDown (x : Double) (exponent : Nat) : Double :=
  if exponent ≤ 308 then x / powerOfTen exponent
  else if exponent ≤ 616 then x / powerOfTen 308 / powerOfTen (exponent - 308)
  else 0

/-- `significand * 10 ^ exponent` with one rounding per step; none when it is too large. -/
def scaled? (significand : Nat) (exponent : Int) : Option Double :=
  let x := Double.ofNat significand
  if exponent < 0 then some (scaleDown x exponent.natAbs)
  else if exponent ≤ 308 then
    let y := x * powerOfTen exponent.toNat
    if y.isInf then none else some y
  else if significand = 0 then some x
  else none

def finishFloat (negative : Bool) (significand : Nat) (exponent : Int) (rest : List Char) :
    Except (List Char) (Taken Json) :=
  match scaled? significand exponent with
  | none => .error rest
  | some x => .ok (.float (if negative then -x else x), rest)

def exponentDigits : Nat → List Char → Nat × List Char
  | exponent, [] => (exponent, [])
  | exponent, c :: rest =>
    let next := exponent * 10 + digitValue c
    if c.isDigit && next < twoTo 31 then exponentDigits next rest else (exponent, c :: rest)

def startsWithDigit (s : List Char) : Bool :=
  match s with
  | [] => false
  | c :: _ => c.isDigit

/-- The exponent, read after its letter. One beyond all bounds gives zero, or a failure when the
number would be infinite. -/
def readExponent (negative : Bool) (significand : Nat) (start : Int) (s : List Char) :
    Except (List Char) (Taken Json) :=
  let (down, s) := match s with
    | '+' :: r => (false, r)
    | '-' :: r => (true, r)
    | s => (false, s)
  match s with
  | [] => .error []
  | c :: rest =>
    if ¬ c.isDigit then .error rest
    else
      let (exponent, rest) := exponentDigits (digitValue c) rest
      if startsWithDigit rest then
        if significand ≠ 0 ∧ ¬ down then .error rest.tail
        else .ok (.float (if negative then -0.0 else 0.0), rest.dropWhile Char.isDigit)
      else
        finishFloat negative significand (if down then start - exponent else start + exponent) rest

def readTail (negative : Bool) (significand : Nat) (exponent : Int) (s : List Char) : Except (List Char) (Taken Json) :=
  match s with
  | c :: rest =>
    if c = 'e' ∨ c = 'E' then readExponent negative significand exponent rest
    else finishFloat negative significand exponent s
  | [] => finishFloat negative significand exponent s

/-- The digits after a point. Those that the significand has no room for are passed over. -/
def readFraction (negative : Bool) (significand : Nat) (start : Int) (s : List Char) :
    Except (List Char) (Taken Json) :=
  let (significand, count, rest) := significandDigits significand 0 s
  if count = 0 ∧ ¬ startsWithDigit rest then .error rest.tail
  else readTail negative significand (start - count) (rest.dropWhile Char.isDigit)

def readNumber (negative : Bool) (s : List Char) : Except (List Char) (Taken Json) :=
  match s with
  | [] => .error []
  | '0' :: c :: rest =>
    if c.isDigit then .error rest else afterWhole 0 0 (c :: rest)
  | c :: rest =>
    if ¬ c.isDigit then .error rest
    else
      let (significand, _, rest) := significandDigits (digitValue c) 0 rest
      let (dropped, rest) := digitRun rest
      afterWhole significand dropped.length rest
where
  afterWhole (significand dropped : Nat) (s : List Char) : Except (List Char) (Taken Json) :=
    match s with
    | '.' :: rest => readFraction negative significand dropped rest
    | 'e' :: rest => readExponent negative significand dropped rest
    | 'E' :: rest => readExponent negative significand dropped rest
    | s =>
      if 0 < dropped then finishFloat negative significand dropped s
      else if ¬ negative then .ok (.int significand, s)
      else if 0 < significand ∧ significand ≤ twoTo 63 then .ok (.int (-significand), s)
      else .ok (.float (-Double.ofNat significand), s)

def readWord : List Char → List Char → Except (List Char) (List Char)
  | [], s => .ok s
  | _ :: _, [] => .error []
  | w :: word, c :: rest => if c = w then readWord word rest else .error rest

/-- The items of an array up to its bracket; `n` bounds the number of items. -/
def readItems (item : List Char → Except (List Char) (Taken Json)) : Nat → Bool → List Char → Except (List Char) (Taken (List Json))
  | 0, _, s => .error s
  | n + 1, first, s =>
    match skip s with
    | [] => .error []
    | ']' :: rest => .ok ([], rest)
    | c :: rest =>
      let start : Except (List Char) (List Char) :=
        if first then .ok (c :: rest)
        else if c = ',' then
          match skip rest with
          | ']' :: after => .error after
          | s => .ok s
        else .error rest
      do
        let (j, rest) ← item (← start)
        let (items, rest) ← readItems item n false rest
        pure (j :: items, rest)

def keyStart (first : Bool) : List Char → Except (List Char) (List Char)
  | [] => .error []
  | c :: rest =>
    if first then if c = '"' then .ok rest else .error rest
    else if c = ',' then
      match skip rest with
      | '"' :: after => .ok after
      | s => failNext s
    else .error rest

/-- The fields of an object up to its brace. A key that comes again changes its first field. -/
def readFields (item : List Char → Except (List Char) (Taken Json)) :
    Nat → Bool → List (String × Json) → List Char → Except (List Char) (Taken (List (String × Json)))
  | 0, _, _, s => .error s
  | n + 1, first, fields, s =>
    match skip s with
    | '\x7d' :: rest => .ok (fields, rest)
    | s => do
      let (key, rest) ← readString n (← keyStart first s)
      match skip rest with
      | ':' :: rest => do
        let (j, rest) ← item rest
        readFields item n false (setField key j fields) rest
      | s => failNext s

def readValue (n : Nat) : Nat → List Char → Except (List Char) (Taken Json)
  | depth, s =>
    match skip s with
    | [] => .error []
    | 'n' :: rest => do pure (.null, ← readWord "ull".toList rest)
    | 't' :: rest => do pure (.bool true, ← readWord "rue".toList rest)
    | 'f' :: rest => do pure (.bool false, ← readWord "alse".toList rest)
    | '"' :: rest => do
      let (s, rest) ← readString n rest
      pure (.str s, rest)
    | '-' :: rest => readNumber true rest
    | '[' :: rest =>
      match depth with
      | 0 => .error rest
      | depth + 1 => do
        let (items, rest) ← readItems (readValue n depth) n true rest
        pure (.arr items, rest)
    | '\x7b' :: rest =>
      match depth with
      | 0 => .error rest
      | depth + 1 => do
        let (fields, rest) ← readFields (readValue n depth) n true [] rest
        pure (.obj fields, rest)
    | c :: rest => if c.isDigit then readNumber false (c :: rest) else .error rest

def readChars (s : List Char) : Except (List Char) Json :=
  match readValue (s.length + 1) 127 s with
  | .error rest => .error rest
  | .ok (j, rest) =>
    match skip rest with
    | [] => .ok j
    | _ :: rest => .error rest

def ofText? (s : String) : Option Json := (readChars s.toList).toOption

def failureLine (s : List Char) (rest : List Char) : Nat :=
  1 + s.count '\n' - rest.count '\n'

end Apiary.Json
