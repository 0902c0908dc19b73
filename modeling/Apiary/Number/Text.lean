import Apiary.Number.Double

/-!
How numbers are written: positionally, in scientific notation, with a fixed count of places, and in the
scripts' own form, which changes notation below one millionth and from `10 ^ 21`. The digits are the fewest
that read back as the given double, and among those the nearest. Candidates of each length are the two
neighbours of the value on that decimal grid, compared in exact arithmetic.
-/

namespace Apiary

structure Decimal where
  digits : Nat
  exponent : Int
  deriving DecidableEq, Repr

inductive Tie
  | upper
  | even
  deriving DecidableEq

/-- A positive value `value / scale` with the interval of numbers that round to it, all over one
denominator. The ends belong to the interval when `closed`. -/
structure Rounding where
  value : Nat
  low : Nat
  high : Nat
  scale : Nat
  closed : Bool

def Rounding.contains (r : Rounding) (n : Nat) : Bool :=
  if r.closed then r.low ≤ n && n ≤ r.high else r.low < n && n < r.high

/-- The numbers nearer to a positive finite double than to its neighbours. The lower gap is half as
wide when the significand is a power of two. -/
def Rounding.ofDouble (x : Double) : Rounding :=
  let m := Double.significand x
  let q := Double.exponent x - 2
  let below := if Double.fractionField x = 0 ∧ 1 < Double.exponentField x then 1 else 2
  let up := 1 <<< q.toNat
  ⟨4 * m * up, (4 * m - below) * up, (4 * m + 2) * up, 1 <<< (-q).toNat, m % 2 = 0⟩

def Rounding.shift (r : Rounding) (g : Int) : Rounding :=
  let up := tenTo (-g).toNat
  ⟨r.value * up, r.low * up, r.high * up, r.scale * tenTo g.toNat, r.closed⟩

def Rounding.whole? (r : Rounding) (tie : Tie) : Option Nat :=
  let down := r.value / r.scale
  let gap := r.value - down * r.scale
  match r.contains (down * r.scale), r.contains ((down + 1) * r.scale) with
  | false, false => none
  | true, false => some down
  | false, true => some (down + 1)
  | true, true =>
    if 2 * gap < r.scale then some down
    else if 2 * gap > r.scale then some (down + 1)
    else match tie with
      | .upper => some (down + 1)
      | .even => some (down + down % 2)

def Rounding.magnitude (r : Rounding) : Int :=
  let estimate := ((Nat.log2 r.value : Int) - Nat.log2 r.scale - 1) * 78913 / 262144
  let atLeast (k : Int) : Bool := r.scale * tenTo k.toNat ≤ r.value * tenTo (-k).toNat
  if atLeast (estimate + 2) then estimate + 2
  else if atLeast (estimate + 1) then estimate + 1
  else estimate

def Decimal.stripZeros : Nat → Decimal → Decimal
  | 0, d => d
  | n + 1, d => if d.digits % 10 = 0 then stripZeros n ⟨d.digits / 10, d.exponent + 1⟩ else d

/-- Tries grids with `count`, `count + 1`, … digits. Seventeen digits always suffice. -/
def Rounding.search (r : Rounding) (tie : Tie) (k : Int) : Nat → Nat → Decimal
  | 0, count => ⟨r.value / (r.scale * tenTo (k - count + 1).toNat), k - count + 1⟩
  | n + 1, count =>
    let g := k - count + 1
    match (r.shift g).whole? tie with
    | some d => Decimal.stripZeros 20 ⟨d, g⟩
    | none => search r tie k n (count + 1)

def shortest (tie : Tie) (x : Double) : Decimal :=
  let r := Rounding.ofDouble x
  r.search tie r.magnitude 17 1

def decimalDigits (n : Nat) : List Char := Nat.toDigits 10 n

def zeros (n : Nat) : List Char := List.replicate n '0'

def pointAt (digits : List Char) (places : Nat) : List Char :=
  if places = 0 then digits
  else
    let padded := zeros (places + 1 - digits.length) ++ digits
    padded.take (padded.length - places) ++ '.' :: padded.drop (padded.length - places)

def Decimal.positional (d : Decimal) : List Char :=
  if 0 ≤ d.exponent then decimalDigits d.digits ++ zeros d.exponent.toNat
  else pointAt (decimalDigits d.digits) (-d.exponent).toNat

def Decimal.leading (d : Decimal) : Int := d.exponent + ((decimalDigits d.digits).length - 1 : Nat)

def Decimal.mantissa (d : Decimal) : List Char :=
  match decimalDigits d.digits with
  | [] => []
  | [c] => [c]
  | c :: rest => c :: '.' :: rest

def Decimal.scientific (d : Decimal) : List Char :=
  let sign := if d.leading < 0 then '-' else '+'
  d.mantissa ++ 'e' :: sign :: decimalDigits d.leading.natAbs

def signed (x : Double) (magnitude : List Char) : String :=
  String.ofList (if Double.isNegative x then '-' :: magnitude else magnitude)

def nonFiniteText (x : Double) : String :=
  if x.isNaN then "NaN" else if Double.isNegative x then "-Infinity" else "Infinity"

def numberText (x : Double) : String :=
  if ¬ x.isFinite then nonFiniteText x
  else if x == 0 then "0"
  else
    let size := Double.magnitude x
    if 1e21 ≤ size ∨ size < 1e-6 then signed x (shortest .upper size).scientific
    else if Double.isWhole x then signed x (decimalDigits (Double.wholeMagnitude x))
    else signed x (shortest .upper size).positional

def positionalText (x : Double) : String :=
  if x.isNaN then "NaN"
  else if x.isInf then signed x "inf".toList
  else if x == 0 then signed x ['0']
  else signed x (shortest .upper (Double.magnitude x)).positional

def dataText (x : Double) : String :=
  if x == 0 then signed x "0.0".toList
  else
    let d := shortest .even (Double.magnitude x)
    if d.leading < -5 ∨ 15 < d.leading then signed x d.scientific
    else if 0 ≤ d.exponent then signed x (d.positional ++ ['.', '0'])
    else signed x d.positional

/-- A number with exactly `places` digits after the point; an exact half goes to the even digit. -/
def fixedText (places : Nat) (x : Double) : String :=
  if ¬ x.isFinite then nonFiniteText x
  else
    let scaled := Double.significand x * tenTo places
    let units :=
      if 0 ≤ Double.exponent x then scaled <<< (Double.exponent x).toNat
      else halveEven scaled (-Double.exponent x).toNat
    signed x (pointAt (decimalDigits units) places)

end Apiary
