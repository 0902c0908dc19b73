import Apiary.Script.NumberMethod
import Apiary.Text.Case
import Apiary.Text.Pieces

/-!
The methods of strings.
-/

namespace Apiary.Act

variable {σ : Type}

def newStrings (pieces : List (List Char)) : Act σ Value :=
  alloc (Heap.newArray (pieces.map fun p => Value.string (String.ofList p)).toArray)

def positionValue (i : Option Nat) : Value := (i.map Value.ofNat).getD (.number (-1))

def repeatMethod (s : String) (args : List Value) : Act σ Value := do
  let n ← numberArg args 0
  if n < 0 ∨ n == Double.infinity then fail ("Invalid count value: " ++ numberText n)
  else
    let n := Double.toNatCapped 64 n
    if s.utf8ByteSize * n ≤ maxStringLength then pure (.string (repeatText n s))
    else fail "Invalid string length"

/-- The target length of padding; what is not finite and positive asks for none. -/
def padTarget (x : Double) : Nat :=
  if x.isFinite && (0 : Double) < x then Double.toNatCapped 64 x else 0

def padMethod (atStart : Bool) (s : String) (args : List Value) : Act σ Value := do
  let target := padTarget (← numberArg args 0)
  if maxStringLength < target then fail "Invalid string length"
  else
    let fill ← displayArgOr " " args 1
    if target ≤ s.length || fill.isEmpty then pure (.string s)
    else
      let pad := cycled (target - s.length) fill
      pure (.string (if atStart then pad ++ s else s ++ pad))

def sliceMethod (s : String) (args : List Value) : Act σ Value := do
  let cs := s.toList
  let start ← positionArg (relativePosition cs.length) 0 args 0
  let stop ← positionArg (relativePosition cs.length) cs.length args 1
  pure (.string (String.ofList (sliceList start stop cs)))

def substringMethod (s : String) (args : List Value) : Act σ Value := do
  let cs := s.toList
  let a ← positionArg (clampedPosition cs.length) 0 args 0
  let b ← positionArg (clampedPosition cs.length) cs.length args 1
  pure (.string (String.ofList (sliceList (min a b) (max a b) cs)))

def charMethod (s : String) (args : List Value) (found : Char → Value) (missing : Value) :
    Act σ Value := do
  let i := Double.toNatCapped 64 (← numberArg args 0)
  pure ((s.toList[i]?.map found).getD missing)

def splitMethod (s : String) (args : List Value) : Act σ Value := do
  match argAt args 0 with
  | .undefined => newStrings [s.toList]
  | sep => newStrings (splitChars (← display sep).toList s.toList)

def displayAll : List Value → Act σ (List String)
  | [] => pure []
  | v :: rest => do
    let s ← display v
    let ss ← displayAll rest
    pure (s :: ss)

def stringMethod (s : String) (name : String) (args : List Value) : Act σ (Option Value) := do
  let cs := s.toList
  match name with
  | "toUpperCase" => pure (some (.string (String.ofList (upperCase cs))))
  | "toLowerCase" => pure (some (.string (String.ofList (lowerCase cs))))
  | "trim" => pure (some (.string (String.ofList (trim cs))))
  | "trimStart" => pure (some (.string (String.ofList (trimStart cs))))
  | "trimEnd" => pure (some (.string (String.ofList (trimEnd cs))))
  | "toString" => pure (some (.string s))
  | "valueOf" => pure (some (.string s))
  | "includes" => pure (some (.bool (occurs (← displayArg args 0).toList cs)))
  | "startsWith" => pure (some (.bool ((← displayArg args 0).toList.isPrefixOf cs)))
  | "endsWith" => pure (some (.bool ((← displayArg args 0).toList.isSuffixOf cs)))
  | "indexOf" => pure (some (positionValue (positions (← displayArg args 0).toList cs).head?))
  | "lastIndexOf" => pure (some (positionValue (positions (← displayArg args 0).toList cs).getLast?))
  | "slice" => some <$> sliceMethod s args
  | "substring" => some <$> substringMethod s args
  | "charAt" => some <$> charMethod s args Value.ofChar (.string "")
  | "charCodeAt" => some <$> charMethod s args (fun c => .ofNat c.toNat) (.number Double.nan)
  | "split" => some <$> splitMethod s args
  | "replace" =>
    let part ← displayArg args 0
    let replacement ← displayArg args 1
    pure (some (.string (String.ofList (replaceFirst part.toList replacement.toList cs))))
  | "replaceAll" =>
    let part ← displayArg args 0
    let replacement ← displayArg args 1
    pure (some (.string (replaceText part replacement s)))
  | "repeat" => some <$> repeatMethod s args
  | "padStart" => some <$> padMethod true s args
  | "padEnd" => some <$> padMethod false s args
  | "concat" =>
    let texts ← displayAll args
    pure (some (.string (s ++ String.join texts)))
  | _ => pure none

end Apiary.Act
