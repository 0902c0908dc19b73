import Apiary.Script.Act

/-!
The binary operators on values. Bit operations work on the low 32 bits of the whole part.
-/

namespace Apiary

/-- The low 32 bits of the whole part as a signed word; zero for what is not finite. -/
def toInt32 (x : Double) : Int32 :=
  if x.isFinite then Int32.ofInt (Int.bmod (Double.toInt x) (twoTo 32)) else 0

def ofInt32 (n : Int32) : Value := .number (Double.ofInt n.toInt)

def shiftCount (x : Double) : Nat := (toInt32 x).toUInt32.toNat % 32

def shiftLeft (x y : Double) : Value := ofInt32 (toInt32 x <<< Int32.ofNat (shiftCount y))

def shiftRight (x y : Double) : Value := ofInt32 (toInt32 x >>> Int32.ofNat (shiftCount y))

def shiftRightUnsigned (x y : Double) : Value :=
  .ofNat ((toInt32 x).toUInt32.toNat >>> shiftCount y)

def Heap.primitive? (h : Heap) (v : Value) : Option Value :=
  match v with
  | .undefined => some v
  | .null => some v
  | .bool _ => some v
  | .number _ => some v
  | .string _ => some v
  | v => (h.display? v).map .string

def compareNumbers (x y : Double) : Option Ordering :=
  if x < y then some .lt
  else if y < x then some .gt
  else if x == y then some .eq
  else none

def Heap.compare? (h : Heap) (v w : Value) : Option (Option Ordering) := do
  let v ← h.primitive? v
  let w ← h.primitive? w
  match v, w with
  | .string s, .string t =>
    some (some (if s < t then .lt else if s = t then .eq else .gt))
  | v, w => do
    let x ← h.number? v
    let y ← h.number? w
    some (compareNumbers x y)

def Heap.add? (h : Heap) (v w : Value) : Option Value := do
  let v ← h.primitive? v
  let w ← h.primitive? w
  match v, w with
  | .string s, w => do some (.string (s ++ (← h.display? w)))
  | v, .string t => do some (.string ((← h.display? v) ++ t))
  | v, w => do
    let x ← h.number? v
    let y ← h.number? w
    some (.number (x + y))

namespace BinaryOp

def onNumbers : BinaryOp → Double → Double → Value
  | .sub, x, y => .number (x - y)
  | .mul, x, y => .number (x * y)
  | .div, x, y => .number (x / y)
  | .rem, x, y => .number (Double.remainder x y)
  | .pow, x, y => .number (Double.pow x y)
  | .bitAnd, x, y => ofInt32 (toInt32 x &&& toInt32 y)
  | .bitOr, x, y => ofInt32 (toInt32 x ||| toInt32 y)
  | .bitXor, x, y => ofInt32 (toInt32 x ^^^ toInt32 y)
  | .shl, x, y => shiftLeft x y
  | .shr, x, y => shiftRight x y
  | .ushr, x, y => shiftRightUnsigned x y
  | _, _, _ => .undefined

def holds : BinaryOp → Option Ordering → Bool
  | .lt, o => o = some .lt
  | .le, o => o = some .lt || o = some .eq
  | .gt, o => o = some .gt
  | .ge, o => o = some .gt || o = some .eq
  | _, _ => false

/-- The value of an operator; none when an operand has no conversion. -/
def result? (op : BinaryOp) (v w : Value) (h : Heap) : Option Value :=
  match op with
  | .add => h.add? v w
  | .lt => (h.compare? v w).map fun o => .bool (holds .lt o)
  | .le => (h.compare? v w).map fun o => .bool (holds .le o)
  | .gt => (h.compare? v w).map fun o => .bool (holds .gt o)
  | .ge => (h.compare? v w).map fun o => .bool (holds .ge o)
  | .looseEq => (h.looseEq? v w).map .bool
  | .looseNe => (h.looseEq? v w).map fun b => .bool !b
  | .strictEq => some (.bool (v.strictEq w))
  | .strictNe => some (.bool !(v.strictEq w))
  | op => do
    let x ← h.number? v
    let y ← h.number? w
    some (onNumbers op x y)

end BinaryOp

end Apiary
