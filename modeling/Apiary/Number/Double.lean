/-!
Doubles by their bits, and as exact binary fractions: rounding into a binary format, the whole part, the
exact remainder. What is not a number has many bit patterns, and arithmetic hands that of its first such
operand on, made quiet. An operation on numbers that has no value gives a pattern of its own. Powers of two
bound binary words, powers of ten are the weights of decimal digits.
-/

namespace Apiary

abbrev twoTo (n : Nat) : Nat := Nat.pow 2 n

abbrev tenTo (n : Nat) : Nat := Nat.pow 10 n

theorem twoTo_add_eight (n : Nat) : twoTo (n + 8) = 256 * twoTo n := by
  show Nat.pow 2 n * 2 * 2 * 2 * 2 * 2 * 2 * 2 * 2 = 256 * Nat.pow 2 n
  omega

structure BinaryFormat where
  precision : Nat
  least : Int
  infinity : Nat

def BinaryFormat.single : BinaryFormat := ⟨24, -149, 255 <<< 23⟩

def BinaryFormat.double : BinaryFormat := ⟨53, -1074, 2047 <<< 52⟩

def halveEven (m k : Nat) : Nat :=
  let whole := m >>> k
  let rest := m - (whole <<< k)
  let half := 1 <<< k
  if 2 * rest < half then whole
  else if 2 * rest > half then whole + 1
  else whole + whole % 2

/-- The bits of the number of the format nearest to `m * 2 ^ q`, a half going to the even neighbour.
The implicit leading bit of the significand carries into the exponent field by itself. -/
def BinaryFormat.round (f : BinaryFormat) (m : Nat) (q : Int) : Nat :=
  if m = 0 then 0
  else
    let unit := max (q + (Nat.log2 m + 1 : Nat) - f.precision) f.least
    let digits := if unit ≤ q then m <<< (q - unit).toNat else halveEven m (unit - q).toNat
    min (((unit - f.least).toNat <<< (f.precision - 1)) + digits) f.infinity

structure Double where
  bits : UInt64
  deriving DecidableEq, Repr

namespace Double

@[inline] def toFloat (x : Double) : Float := Float.ofBits x.bits

@[inline] def ofFloat (x : Float) : Double := ⟨x.toBits⟩

def magnitude (x : Double) : Double := ⟨x.bits &&& 0x7fffffffffffffff⟩

def isNegative (x : Double) : Bool := x.bits >>> 63 == 1

def isNaN (x : Double) : Bool := 0x7ff0000000000000 < x.magnitude.bits

def isInf (x : Double) : Bool := x.magnitude.bits == 0x7ff0000000000000

def isFinite (x : Double) : Bool := x.magnitude.bits < 0x7ff0000000000000

def infinity : Double := ⟨0x7ff0000000000000⟩

def nan : Double := ⟨0x7ff8000000000000⟩

def invalid : Double := ⟨0xfff8000000000000⟩

def quieted (x : Double) : Double := ⟨x.bits ||| 0x8000000000000⟩

def undetermined (x y : Double) : Double :=
  if x.isNaN then x.quieted else if y.isNaN then y.quieted else invalid

@[inline] def binary (f : Float → Float → Float) (x y : Double) : Double :=
  let z := f x.toFloat y.toFloat
  if z.isNaN then undetermined x y else ofFloat z

@[inline] def unary (f : Float → Float) (x : Double) : Double := binary (fun z _ => f z) x x

instance : Add Double := ⟨binary (· + ·)⟩
instance : Sub Double := ⟨binary (· - ·)⟩
instance : Mul Double := ⟨binary (· * ·)⟩
instance : Div Double := ⟨binary (· / ·)⟩
instance : Neg Double := ⟨fun x => ⟨x.bits ^^^ 0x8000000000000000⟩⟩
instance : LT Double := ⟨fun x y => x.toFloat < y.toFloat⟩
instance : LE Double := ⟨fun x y => x.toFloat ≤ y.toFloat⟩

instance (x y : Double) : Decidable (x < y) :=
  inferInstanceAs (Decidable (x.toFloat < y.toFloat))

instance (x y : Double) : Decidable (x ≤ y) :=
  inferInstanceAs (Decidable (x.toFloat ≤ y.toFloat))

instance : BEq Double := ⟨fun x y => x.toFloat == y.toFloat⟩

def sqrt : Double → Double := unary Float.sqrt

def exp : Double → Double := unary Float.exp

def log : Double → Double := unary Float.log

def log10 : Double → Double := unary Float.log10

def sin : Double → Double := unary Float.sin

def cos : Double → Double := unary Float.cos

def tan : Double → Double := unary Float.tan

def tanh : Double → Double := unary Float.tanh

def pow : Double → Double → Double := binary Float.pow

def atan2 : Double → Double → Double := binary Float.atan2

def exponentField (x : Double) : Nat := ((x.bits >>> 52) &&& 0x7ff).toNat

def fractionField (x : Double) : Nat := (x.bits &&& 0xfffffffffffff).toNat

def significand (x : Double) : Nat :=
  if exponentField x = 0 then fractionField x else fractionField x + 0x10000000000000

def exponent (x : Double) : Int := (max (exponentField x) 1 : Nat) - 1075

def wholeMagnitude (x : Double) : Nat :=
  if 0 ≤ exponent x then significand x <<< (exponent x).toNat
  else significand x >>> (-exponent x).toNat

def isWhole (x : Double) : Bool :=
  x.isFinite && (0 ≤ exponent x || significand x % twoTo (-exponent x).toNat == 0)

def toInt (x : Double) : Int :=
  if isNegative x then -(wholeMagnitude x : Int) else wholeMagnitude x

def ofParts (negative : Bool) (m : Nat) (q : Int) : Double :=
  let bits := UInt64.ofNat (BinaryFormat.double.round m q)
  ⟨if negative then bits ||| 0x8000000000000000 else bits⟩

def ofNat (n : Nat) : Double := ofParts false n 0

def ofInt (i : Int) : Double := ofParts (i < 0) i.natAbs 0

instance (n : Nat) : OfNat Double n := ⟨ofNat n⟩

instance : OfScientific Double := ⟨fun m negative e => ofFloat (Float.ofScientific m negative e)⟩

/-- Drops the fraction; the sign of zero stays. -/
def trunc (x : Double) : Double :=
  let e := exponentField x
  if e < 1023 then ⟨x.bits &&& 0x8000000000000000⟩
  else if 1075 ≤ e then x
  else
    let low := UInt64.ofNat (1075 - e)
    ⟨(x.bits >>> low) <<< low⟩

def floor (x : Double) : Double :=
  let t := trunc x
  if x < t then t - 1 else t

def ceil (x : Double) : Double :=
  let t := trunc x
  if t < x then t + 1 else t

def toNatCapped (bits : Nat) (x : Double) : Nat :=
  if x.isNaN || isNegative x then 0
  else if x.isInf then twoTo bits - 1
  else min (wholeMagnitude x) (twoTo bits - 1)

/-- The remainder of division rounded toward zero, computed exactly; it has the sign of `x`. -/
def remainder (x y : Double) : Double :=
  if x.isNaN || y.isNaN || x.isInf || y == 0 then undetermined x y
  else if y.isInf || x == 0 then x
  else
    let unit := min (exponent x) (exponent y)
    let a := significand x <<< (exponent x - unit).toNat
    let b := significand y <<< (exponent y - unit).toNat
    ofParts (isNegative x) (a % b) unit

end Double

end Apiary
