import Apiary.Number.Double

/-!
Singles by their bits, with arithmetic like that of doubles, widening to a double and narrowing back.
-/

namespace Apiary

structure Single where
  bits : UInt32
  deriving DecidableEq, Repr

namespace Single

@[inline] def toFloat (x : Single) : Float32 := Float32.ofBits x.bits

@[inline] def ofFloat (x : Float32) : Single := ⟨x.toBits⟩

def isNaN (x : Single) : Bool := 0x7f800000 < (x.bits &&& 0x7fffffff)

def infinity : Single := ⟨0x7f800000⟩

def nan : Single := ⟨0x7fc00000⟩

def invalid : Single := ⟨0xffc00000⟩

def quieted (x : Single) : Single := ⟨x.bits ||| 0x400000⟩

def undetermined (x y : Single) : Single :=
  if x.isNaN then x.quieted else if y.isNaN then y.quieted else invalid

@[inline] def binary (f : Float32 → Float32 → Float32) (x y : Single) : Single :=
  let z := f x.toFloat y.toFloat
  if z.isNaN then undetermined x y else ofFloat z

@[inline] def unary (f : Float32 → Float32) (x : Single) : Single := binary (fun z _ => f z) x x

instance : Add Single := ⟨binary (· + ·)⟩
instance : Sub Single := ⟨binary (· - ·)⟩
instance : Mul Single := ⟨binary (· * ·)⟩
instance : Div Single := ⟨binary (· / ·)⟩
instance : Neg Single := ⟨fun x => ⟨x.bits ^^^ 0x80000000⟩⟩
instance : LT Single := ⟨fun x y => x.toFloat < y.toFloat⟩

instance (x y : Single) : Decidable (x < y) :=
  inferInstanceAs (Decidable (x.toFloat < y.toFloat))

instance : BEq Single := ⟨fun x y => x.toFloat == y.toFloat⟩

def abs (x : Single) : Single := ⟨x.bits &&& 0x7fffffff⟩

def sqrt : Single → Single := unary Float32.sqrt

def tanh : Single → Single := unary Float32.tanh

def sin : Single → Single := unary Float32.sin

def cos : Single → Single := unary Float32.cos

def isNegative (x : Single) : Bool := x.bits >>> 31 == 1

def isInf (x : Single) : Bool := x.bits &&& 0x7fffffff == 0x7f800000

def exponentField (x : Single) : Nat := ((x.bits >>> 23) &&& 0xff).toNat

def fractionField (x : Single) : Nat := (x.bits &&& 0x7fffff).toNat

def significand (x : Single) : Nat :=
  if exponentField x = 0 then fractionField x else fractionField x + 0x800000

def exponent (x : Single) : Int := (max (exponentField x) 1 : Nat) - 150

def ofParts (negative : Bool) (m : Nat) (q : Int) : Single :=
  let bits := UInt32.ofNat (BinaryFormat.single.round m q)
  ⟨if negative then bits ||| 0x80000000 else bits⟩

def ofInt (i : Int) : Single := ofParts (i < 0) i.natAbs 0

def ofNat (n : Nat) : Single := ofParts false n 0

instance (n : Nat) : OfNat Single n := ⟨ofNat n⟩

instance : OfScientific Single := ⟨fun m negative e => ofFloat (Float32.ofScientific m negative e)⟩

/-- The same number as a double; what is not a number keeps its bits at the front. -/
def widen (x : Single) : Double :=
  if x.isNaN then
    let front := (x.quieted.bits &&& 0x7fffff).toUInt64 <<< 29
    let bits := 0x7ff0000000000000 ||| front
    ⟨if isNegative x then bits ||| 0x8000000000000000 else bits⟩
  else if x.isInf then if isNegative x then -Double.infinity else Double.infinity
  else Double.ofParts (isNegative x) (significand x) (exponent x)

/-- At least a given number; what is not a number counts as less. -/
def atLeast (low x : Single) : Single := if low < x then x else low

end Single

/-- The nearest single, a half going to the even neighbour; what is not a number keeps the bits at the
front. -/
def Double.narrow (x : Double) : Single :=
  if x.isNaN then
    let front := ((x.quieted.bits &&& 0xfffffffffffff) >>> 29).toUInt32
    let bits := 0x7f800000 ||| front
    ⟨if isNegative x then bits ||| 0x80000000 else bits⟩
  else if x.isInf then if isNegative x then -Single.infinity else Single.infinity
  else Single.ofParts (isNegative x) (significand x) (exponent x)

end Apiary
