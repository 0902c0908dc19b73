import Apiary.Number.Double

/-!
Decimal literals: an optional sign, digits with at most one point and at least one digit, an optional
exponent. A literal stands for the nearest double.
-/

namespace Apiary

def digitRun (s : List Char) : List Char × List Char :=
  (s.takeWhile Char.isDigit, s.dropWhile Char.isDigit)

def digitValue (c : Char) : Nat := c.toNat - 48

def afterDigits (n : Nat) (digits : List Char) : Nat :=
  digits.foldl (fun n c => n * 10 + digitValue c) n

theorem afterDigits_eq (digits : List Char) :
    ∀ n, afterDigits n digits = n * tenTo digits.length + afterDigits 0 digits := by
  induction digits with
  | nil => intro n; simp [afterDigits]
  | cons c rest ih =>
    intro n
    have hn : afterDigits n (c :: rest) = afterDigits (n * 10 + digitValue c) rest := rfl
    have h0 : afterDigits 0 (c :: rest) = afterDigits (0 * 10 + digitValue c) rest := rfl
    have ht : tenTo (rest.length + 1) = tenTo rest.length * 10 := rfl
    rw [hn, h0, ih (n * 10 + digitValue c), ih (0 * 10 + digitValue c), List.length_cons, ht]
    simp only [Nat.add_mul, Nat.mul_assoc, Nat.mul_comm 10, Nat.zero_mul, Nat.zero_add, Nat.add_assoc]

theorem afterDigits_append (n : Nat) (s t : List Char) :
    afterDigits n (s ++ t) = afterDigits (afterDigits n s) t := by
  simp [afterDigits, List.foldl_append]

def shortRun : Nat := 32

/-- The number that digits stand for. A long run is split in the middle. -/
def natOfDigits (digits : List Char) : Nat :=
  let half := digits.length / 2
  if half < shortRun then afterDigits 0 digits
  else
    natOfDigits (digits.take half) * tenTo (digits.length - half) + natOfDigits (digits.drop half)
termination_by digits.length
decreasing_by
  · simp only [List.length_take, shortRun] at *
    omega
  · simp only [List.length_drop, shortRun] at *
    omega

theorem natOfDigits_eq (digits : List Char) : natOfDigits digits = afterDigits 0 digits := by
  fun_induction natOfDigits digits with
  | case1 => rfl
  | case2 digits half h ih₁ ih₂ =>
    rw [ih₁, ih₂, ← List.length_drop, ← afterDigits_eq, ← afterDigits_append, List.take_append_drop]

structure Literal where
  negative : Bool
  digits : Nat
  exponent : Int
  deriving DecidableEq, Repr

def optionalSign : List Char → Bool × List Char
  | '-' :: r => (true, r)
  | '+' :: r => (false, r)
  | s => (false, s)

def exponentPart? : List Char → Option Int
  | [] => some 0
  | c :: r =>
    if c = 'e' ∨ c = 'E' then
      let (negative, r) := optionalSign r
      let (digits, rest) := digitRun r
      if digits.isEmpty ∨ ¬ rest.isEmpty then none
      else some (if negative then -(natOfDigits digits : Int) else natOfDigits digits)
    else none

def Literal.ofChars? (s : List Char) : Option Literal :=
  let (negative, s) := optionalSign s
  let (whole, s) := digitRun s
  let (fraction, s) := match s with
    | '.' :: r => digitRun r
    | _ => ([], s)
  if whole.isEmpty ∧ fraction.isEmpty then none
  else (exponentPart? s).map fun e =>
    ⟨negative, natOfDigits (whole ++ fraction), e - fraction.length⟩

/-- The double nearest to `digits * 10 ^ exponent`. Doubles, and the numbers halfway between two of them, are multiples
of `2 ^ -1075`; how many of those there are below, and whether there is a rest, decides. -/
def Double.ofDecimal (digits : Nat) (exponent : Int) : Double :=
  let power := tenTo exponent.natAbs
  if 0 ≤ exponent then ofParts false (digits * power) 0
  else
    let scaled := digits <<< 1075
    ofParts false (2 * (scaled / power) + min (scaled % power) 1) (-1076)

def decimalLength (n : Nat) : Nat := Nat.log2 n * 30103 / 100000 + 1

/-- The nearest double; magnitudes far outside the range are settled without computing a power. -/
def Literal.toDouble (l : Literal) : Double :=
  let length := decimalLength l.digits
  let magnitude :=
    if l.digits = 0 ∨ l.exponent + length < -400 then 0
    else if 400 < l.exponent + length then Double.infinity
    else Double.ofDecimal l.digits l.exponent
  if l.negative then -magnitude else magnitude

def readDecimal? (s : List Char) : Option Double :=
  (Literal.ofChars? s).map Literal.toDouble

end Apiary
