import Apiary.Json.Reader
import Apiary.Script.Act
import Apiary.Script.ArrayMethod

/-!
The functions of the language itself, and the global names that a script starts with.
-/

namespace Apiary

def roundUp (x : Double) : Double :=
  let r := Double.floor (x + 0.5)
  if r == 0 && x < 0 then -0.0 else r

def signum (x : Double) : Double :=
  if x.isNaN || x == 0 then x else if x < 0 then -1 else 1

def Builtin.onNumber? : Builtin → Option (Double → Double)
  | .abs => some Double.magnitude
  | .floor => some Double.floor
  | .ceil => some Double.ceil
  | .round => some roundUp
  | .trunc => some Double.trunc
  | .sign => some signum
  | .sqrt => some Double.sqrt
  | .exp => some Double.exp
  | .log => some Double.log
  | .log10 => some Double.log10
  | .sin => some Double.sin
  | .cos => some Double.cos
  | .tan => some Double.tan
  | .tanh => some Double.tanh
  | _ => none

def Builtin.onNumbers? : Builtin → Option (Double → Double → Double)
  | .pow => some Double.pow
  | .atan2 => some Double.atan2
  | _ => none

def lesser (x y : Double) : Double := if y < x then y else x

def greater (x y : Double) : Double := if x < y then y else x

/-- The base that a text is read to, and the digits that follow. Only a base of 16, or none given, sees
the mark of hexadecimal digits; a base out of range is ten. -/
def radixOf (radix : Option Nat) (s : List Char) : Nat × List Char :=
  let hex := match s with
    | '0' :: 'x' :: digits => some digits
    | '0' :: 'X' :: digits => some digits
    | _ => none
  match radix, hex with
  | none, some digits => (16, digits)
  | some 16, some digits => (16, digits)
  | some r, _ => (if 2 ≤ r ∧ r ≤ 36 then r else 10, s)
  | none, none => (10, s)

def leadingInteger (radix : Option Nat) (s : List Char) : Double :=
  let (negative, s) := optionalSign (trimStart s)
  let (radix, s) := radixOf radix s
  let digits := (s.takeWhile fun c => (digitOf? radix c).isSome).filterMap (digitOf? radix)
  if digits.isEmpty then Double.nan
  else
    let value := digits.foldl (fun x d => x * Double.ofNat radix + Double.ofNat d) 0
    if negative then -value else value

def isExponentMark (c : Char) : Bool := c = 'e' || c = 'E'

def numericRun (point mark : Bool) (previous : Option Char) : List Char → List Char
  | [] => []
  | c :: rest =>
    if c.isDigit then c :: numericRun point mark (some c) rest
    else if c = '+' ∨ c = '-' then
      if (previous.map isExponentMark).getD true then c :: numericRun point mark (some c) rest
      else []
    else if c = '.' ∧ ¬ point ∧ ¬ mark then c :: numericRun true mark (some c) rest
    else if isExponentMark c ∧ ¬ mark ∧ previous.isSome then
      c :: numericRun point true (some c) rest
    else []

def longestLiteral? (s : List Char) : Nat → Option Double
  | 0 => none
  | n + 1 =>
    match readDecimal? (s.take (n + 1)) with
    | some x => some x
    | none => longestLiteral? s n

def leadingNumber (s : List Char) : Double :=
  let s := trimStart s
  if "Infinity".toList.isPrefixOf s || "+Infinity".toList.isPrefixOf s then Double.infinity
  else if "-Infinity".toList.isPrefixOf s then -Double.infinity
  else
    let run := numericRun false false none s
    (longestLiteral? run run.length).getD Double.nan

def indentOf : Value → String
  | .number x =>
    if 1 ≤ x then String.ofList (List.replicate (min 10 (Double.toNatCapped 64 x)) ' ') else ""
  | .string s => String.ofList (s.toList.take 10)
  | _ => ""

def jsonText (indent : String) (j : Json) : String :=
  if indent.isEmpty then j.text else j.pretty indent 0

def errorFields (message : String) : List (String × Value) :=
  [("name", .string "Error"), ("message", .string message)]

namespace Act

variable {σ : Type}

def newError (message : String) : Act σ Value := alloc (Heap.newObject (errorFields message))

/-- The extreme of numbers; the first that is not a number ends the search. -/
def extreme (pick : Double → Double → Double) (best : Double) : List Value → Act σ Double
  | [] => pure best
  | v :: rest => do
    let x ← number v
    if x.isNaN then pure Double.nan else extreme pick (pick best x) rest

def stringify (args : List Value) : Act σ Value := do
  let v := argAt args 0
  if v = .undefined || v.isCallable then pure .undefined
  else
    let j ← convert [v] (·.json? v)
    pure (.string (jsonText (indentOf (argAt args 2)) j))

def parseJson (args : List Value) : Act σ Value := do
  let s := (← displayArg args 0).toList
  match Json.readChars s with
  | .ok j => alloc (Heap.ofJson j)
  | .error rest =>
    fail ("Unexpected token in JSON at line " ++ toString (Json.failureLine s rest))

def indexTexts (n : Nat) : List Value := (List.range n).map fun i => .string (toString i)

def keysOf (v : Value) : Act σ Value :=
  alloc fun h => h.newArray <|
    match v with
    | .object cell => ((h.object cell).map fun (k, _) => Value.string k).toArray
    | .array cell => (indexTexts (h.array cell).size).toArray
    | _ => #[]

def valuesOf (v : Value) : Act σ Value :=
  alloc fun h => h.newArray <|
    match v with
    | .object cell => ((h.object cell).map Prod.snd).toArray
    | .array cell => h.array cell
    | _ => #[]

def inspectAll : List Value → Act σ (List String)
  | [] => pure []
  | v :: rest => do
    let s ← convert [v] (·.inspect? v)
    let ss ← inspectAll rest
    pure (s :: ss)

def parseIntArgs (args : List Value) : Act σ Value := do
  let radix ← match argAt args 1 with
    | .undefined => pure none
    | v => do pure (some (Double.toNatCapped 32 (← number v)))
  let s ← displayArg args 0
  pure (.number (leadingInteger radix s.toList))

def errorArgs (args : List Value) : Act σ Value := do newError (← displayArgOr "" args 0)

/-- The functions that are not on one or two numbers; `x` is the first argument as a number. -/
def otherBuiltin (host : Host σ) (b : Builtin) (x : Double) (args : List Value) : Act σ Value := do
  match b with
  | .min => .number <$> extreme lesser Double.infinity args
  | .max => .number <$> extreme greater (-Double.infinity) args
  | .random => .number <$> random host
  | .string => if args.isEmpty then pure (.string "") else .string <$> displayArg args 0
  | .number => pure (.number (if args.isEmpty then 0 else x))
  | .boolean => pure (.bool (argAt args 0).truthy)
  | .parseInt => parseIntArgs args
  | .parseFloat => do pure (.number (leadingNumber (← displayArg args 0).toList))
  | .isNaN => pure (.bool x.isNaN)
  | .isFinite => pure (.bool x.isFinite)
  | .stringify => stringify args
  | .parse => parseJson args
  | .keys => keysOf (argAt args 0)
  | .values => valuesOf (argAt args 0)
  | .isArray => pure (.bool (match argAt args 0 with | .array _ => true | _ => false))
  | .print =>
    let texts ← inspectAll args
    log host (" ".intercalate texts)
    pure .undefined
  | .error => errorArgs args
  | _ => pure .undefined

/-- Calls a function of the language. The first argument is made a number in any case. -/
def builtin (host : Host σ) (b : Builtin) (args : List Value) : Act σ Value := do
  let x ← numberArg args 0
  match b.onNumber?, b.onNumbers? with
  | some f, _ => pure (.number (f x))
  | _, some f => do pure (.number (f x (← numberArg args 1)))
  | _, _ => otherBuiltin host b x args

end Act

end Apiary
