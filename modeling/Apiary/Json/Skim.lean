import Apiary.Json.Reader

/-!
Passing over a value without building it. The syntax is that of the reader, but numbers may have any
size, escapes any code unit, and containers any depth.
-/

namespace Apiary.Json

def skimString : List Char → Option (List Char)
  | [] => none
  | '"' :: rest => some rest
  | '\\' :: 'u' :: a :: b :: c :: d :: rest =>
    if [a, b, c, d].all fun x => (hexValue? x).isSome then skimString rest else none
  | '\\' :: c :: rest =>
    if ['"', '\\', '/', 'b', 'f', 'n', 'r', 't'].contains c then skimString rest else none
  | c :: rest => if c.toNat < 32 then none else skimString rest

def skimDigits (s : List Char) : Option (List Char) :=
  if startsWithDigit s then some (s.dropWhile Char.isDigit) else none

def skimPower (s : List Char) : Option (List Char) :=
  match s with
  | '+' :: rest => skimDigits rest
  | '-' :: rest => skimDigits rest
  | s => skimDigits s

def skimExponent (s : List Char) : Option (List Char) :=
  match s with
  | 'e' :: rest => skimPower rest
  | 'E' :: rest => skimPower rest
  | s => some s

def skimFraction (s : List Char) : Option (List Char) :=
  match s with
  | '.' :: rest => skimDigits rest >>= skimExponent
  | s => skimExponent s

def skimNumber (s : List Char) : Option (List Char) :=
  match s with
  | '0' :: rest => if startsWithDigit rest then none else skimFraction rest
  | s => skimDigits s >>= skimFraction

mutual

/-- The rest after one value; `n` bounds the number of steps. -/
def skimValue : Nat → List Char → Option (List Char)
  | 0, _ => none
  | n + 1, s =>
    match skip s with
    | 'n' :: rest => (readWord "ull".toList rest).toOption
    | 't' :: rest => (readWord "rue".toList rest).toOption
    | 'f' :: rest => (readWord "alse".toList rest).toOption
    | '"' :: rest => skimString rest
    | '-' :: rest => skimNumber rest
    | '[' :: rest =>
      match skip rest with
      | ']' :: rest => some rest
      | rest => skimItems n rest
    | '\x7b' :: rest =>
      match skip rest with
      | '\x7d' :: rest => some rest
      | rest => skimFields n rest
    | s => skimNumber s

def skimItems : Nat → List Char → Option (List Char)
  | 0, _ => none
  | n + 1, s => do
    match skip (← skimValue n s) with
    | ',' :: rest => skimItems n rest
    | ']' :: rest => some rest
    | _ => none

def skimFields : Nat → List Char → Option (List Char)
  | 0, _ => none
  | n + 1, s =>
    match skip s with
    | '"' :: rest => do
      match skip (← skimString rest) with
      | ':' :: rest =>
        match skip (← skimValue n rest) with
        | ',' :: rest => skimFields n rest
        | '\x7d' :: rest => some rest
        | _ => none
      | _ => none
    | _ => none

end

def skim (s : List Char) : Option (List Char) := skimValue (2 * s.length + 2) s

end Apiary.Json
