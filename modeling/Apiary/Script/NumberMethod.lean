import Apiary.Script.Act
import Apiary.Number.Numeral

/-!
The methods of numbers and strings. Positions in a string count its characters.
-/

namespace Apiary

def maxStringLength : Nat := twoTo 28

def placesOf (x : Double) : Nat :=
  if x.isNaN || x < 0 then 0 else if (100 : Double) < x then 100 else Double.wholeMagnitude x

def radixText (radix : Nat) (x : Double) : String :=
  let digits := numeral radix (Double.toNatCapped 64 (Double.magnitude x))
  String.ofList (if x < 0 then '-' :: digits else digits)

def toRadix (radix : Nat) (x : Double) : String :=
  if radix ≠ 10 ∧ 2 ≤ radix ∧ radix ≤ 36 ∧ Double.isWhole x then radixText radix x
  else numberText x

def relativePosition (length : Nat) (x : Double) : Nat :=
  if x.isNaN then 0
  else
    let t := Double.trunc x
    if t < 0 then
      let s := Double.ofNat length + t
      if (0 : Double) < s then Double.toNatCapped 64 s else 0
    else min (Double.toNatCapped 64 t) length

/-- A position kept within the length; negative ones are zero. -/
def clampedPosition (length : Nat) (x : Double) : Nat :=
  if x.isNaN || x < 0 then 0 else min (Double.toNatCapped 64 x) length

def sliceList {α : Type} (start stop : Nat) (xs : List α) : List α := (xs.take stop).drop start

def repeatText (n : Nat) (s : String) : String :=
  if n = 0 then ""
  else
    let half := repeatText (n / 2) s
    if n % 2 = 0 then half ++ half else half ++ half ++ s
termination_by n
decreasing_by omega

theorem utf8ByteSize_repeatText (n : Nat) (s : String) :
    (repeatText n s).utf8ByteSize = n * s.utf8ByteSize := by
  fun_induction repeatText n s with
  | case1 => simp
  | case2 n hn half hp ih =>
    have h : n = n / 2 + n / 2 := by omega
    conv => rhs; rw [h, Nat.add_mul]
    simp [half, ih]
  | case3 n hn half hp ih =>
    have h : n = n / 2 + n / 2 + 1 := by omega
    conv => rhs; rw [h, Nat.add_mul, Nat.add_mul, Nat.one_mul]
    simp [half, ih]

theorem length_repeatText (n : Nat) (s : String) : (repeatText n s).length = n * s.length := by
  fun_induction repeatText n s with
  | case1 => simp
  | case2 n hn half hp ih =>
    have h : n = n / 2 + n / 2 := by omega
    conv => rhs; rw [h, Nat.add_mul]
    simp [half, ih]
  | case3 n hn half hp ih =>
    have h : n = n / 2 + n / 2 + 1 := by omega
    conv => rhs; rw [h, Nat.add_mul, Nat.add_mul, Nat.one_mul]
    simp [half, ih]

def cycled (n : Nat) (text : String) : String :=
  repeatText (n / text.length) text ++ String.ofList (text.toList.take (n % text.length))

theorem length_cycled (n : Nat) {text : String} (h : 0 < text.length) :
    (cycled n text).length = n := by
  have hm : n % text.length < text.length := Nat.mod_lt n h
  simp only [cycled, String.length_append, length_repeatText, String.length_ofList,
    List.length_take, String.length_toList]
  rw [Nat.min_eq_left (Nat.le_of_lt hm), Nat.mul_comm]
  exact Nat.div_add_mod n text.length

namespace Act

variable {σ : Type}

def argAt (args : List Value) (i : Nat) : Value := args.getD i .undefined

def numberArg (args : List Value) (i : Nat) : Act σ Double := number (argAt args i)

def displayArg (args : List Value) (i : Nat) : Act σ String := display (argAt args i)

def displayArgOr (default : String) (args : List Value) (i : Nat) : Act σ String :=
  match argAt args i with
  | .undefined => pure default
  | v => display v

def positionArg (position : Double → Nat) (default : Nat) (args : List Value) (i : Nat) :
    Act σ Nat :=
  match argAt args i with
  | .undefined => pure default
  | v => do pure (position (← number v))

def numberMethod (x : Double) (name : String) (args : List Value) : Act σ (Option Value) := do
  match name with
  | "toFixed" =>
    let places := placesOf (← numberArg args 0)
    pure (some (.string (fixedText places x)))
  | "toString" =>
    let radix ← positionArg (Double.toNatCapped 32) 10 args 0
    pure (some (.string (toRadix radix x)))
  | "valueOf" => pure (some (.number x))
  | _ => pure none

end Act

end Apiary
