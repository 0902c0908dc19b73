import Apiary.Json.Printer
import Apiary.Number.Reading
import Apiary.Number.Text
import Apiary.Script.Value
import Apiary.Text.Pieces

/-!
Conversions of values to numbers, text and data. A container that holds itself has no conversion; the
number of cells bounds how deep one that has can nest, and `none` says that there is no answer.
-/

namespace Apiary

def textNumber (s : String) : Double :=
  let t := trim s.toList
  if t.isEmpty then 0
  else if t = "Infinity".toList ∨ t = "+Infinity".toList then Double.infinity
  else if t = "-Infinity".toList then -Double.infinity
  else
    match t with
    | '0' :: 'x' :: digits => hexNumber digits
    | '0' :: 'X' :: digits => hexNumber digits
    | t => (readDecimal? t).getD Double.nan
where
  hexNumber (digits : List Char) : Double :=
    ((unsigned? 16 (twoTo 64) digits).map Double.ofNat).getD Double.nan

def numberJson (x : Double) : Json :=
  if ¬ x.isFinite then .null
  else if Double.isWhole x ∧ Double.magnitude x < 9.0e15 then .int (Double.toInt x)
  else .float x

namespace Heap

def depthBound (h : Heap) : Nat := h.arrays.size + h.objects.size + 1

def numberWithin (h : Heap) : Nat → Value → Option Double
  | _, .undefined => some Double.nan
  | _, .null => some 0
  | _, .bool b => some (if b then 1 else 0)
  | _, .number x => some x
  | _, .string s => some (textNumber s)
  | 0, .array _ => none
  | fuel + 1, .array cell =>
    match (h.array cell).toList with
    | [] => some 0
    | [v] => numberWithin h fuel v
    | _ => some Double.nan
  | _, .floats b =>
    match (h.singles b).toList with
    | [] => some 0
    | [x] => some (Single.widen x)
    | _ => some Double.nan
  | _, _ => some Double.nan

def number? (h : Heap) (v : Value) : Option Double := h.numberWithin h.depthBound v

def functionText (name : Option String) : String :=
  "function " ++ name.getD "" ++ "() \x7b ... \x7d"

def nativeText (name : String) : String := "function " ++ name ++ "() \x7b [native code] \x7d"

def displayWithin (h : Heap) : Nat → Value → Option String
  | _, .undefined => some "undefined"
  | _, .null => some "null"
  | _, .bool b => some (if b then "true" else "false")
  | _, .number x => some (numberText x)
  | _, .string s => some s
  | 0, .array _ => none
  | fuel + 1, .array cell => do
    let parts ← (h.array cell).toList.mapM fun v =>
      if v.isNullish then some "" else displayWithin h fuel v
    some (",".intercalate parts)
  | _, .floats b =>
    some (",".intercalate ((h.singles b).toList.map fun x => numberText (Single.widen x)))
  | _, .object _ => some "[object Object]"
  | _, .tensor _ => some "[object Tensor]"
  | _, .layer _ => some "[object DenseLayer]"
  | _, .network _ => some "[object HiveMind]"
  | _, .function _ name => some (functionText name)
  | _, .host f => some (nativeText f.name)
  | _, .builtin _ => some (nativeText "")

def display? (h : Heap) (v : Value) : Option String := h.displayWithin h.depthBound v

def singleJson (x : Single) : Json := numberJson (Single.widen x)

def tensorJson (t : Tensor) : Json :=
  .obj [("shape", .arr (t.shape.map Json.ofNat)), ("data", .arr (t.data.toList.map singleJson))]

def layerJson (l : Layer) : Json :=
  .obj [("inSize", Json.ofNat l.inputs), ("outSize", Json.ofNat l.outputs)]

def networkJson (n : Network) : Json :=
  .obj [("name", .str n.name), ("plasticity", singleJson n.plasticity),
    ("satisfaction", singleJson n.satisfaction), ("capacity", numberJson n.capacity),
    ("depth", Json.ofNat n.depth)]

def isData (v : Value) : Bool := v ≠ .undefined && !v.isCallable

def jsonWithin (h : Heap) : Nat → Value → Option Json
  | _, .bool b => some (.bool b)
  | _, .number x => some (numberJson x)
  | _, .string s => some (.str s)
  | 0, .array _ => none
  | fuel + 1, .array cell => do
    let items ← (h.array cell).toList.mapM (jsonWithin h fuel)
    some (.arr items)
  | _, .floats b => some (.arr ((h.singles b).toList.map singleJson))
  | 0, .object _ => none
  | fuel + 1, .object cell => do
    let fields ← ((h.object cell).filter fun (_, v) => isData v).mapM fun (k, v) => do
      let j ← jsonWithin h fuel v
      some (k, j)
    some (.obj fields)
  | _, .tensor cell => some ((h.tensors[cell]?.map tensorJson).getD .null)
  | _, .layer cell => some ((h.layers[cell]?.map layerJson).getD .null)
  | _, .network cell => some ((h.networks[cell]?.map networkJson).getD .null)
  | _, _ => some .null

/-- A value as data. Functions and undefined fields of objects are left out. -/
def json? (h : Heap) (v : Value) : Option Json := h.jsonWithin h.depthBound v

def inspect? (h : Heap) (v : Value) : Option String :=
  match v with
  | .string s => some s
  | .array _ => (h.json? v).map Json.text
  | .object _ => (h.json? v).map Json.text
  | .floats _ => (h.json? v).map Json.text
  | .tensor _ => (h.json? v).map Json.text
  | .network cell =>
    some ("HiveMind(" ++ ((h.networks[cell]?.map Network.name).getD "") ++ ")")
  | .layer cell =>
    let sizes := (h.layers[cell]?.map fun l => (l.inputs, l.outputs)).getD (0, 0)
    some ("DenseLayer(" ++ toString sizes.1 ++ " -> " ++ toString sizes.2 ++ ")")
  | v => h.display? v

def looseEq? (h : Heap) (v w : Value) : Option Bool :=
  if v.isNullish && w.isNullish then some true
  else if v.isNullish || w.isNullish then some false
  else
    match v, w with
    | .bool _, _ => byNumber v w
    | _, .bool _ => byNumber v w
    | .array _, .string s => byText v (.string s)
    | .array _, .number x => byText v (.number x)
    | .object _, .string s => byText v (.string s)
    | .object _, .number x => byText v (.number x)
    | .string s, .array _ => byText w (.string s)
    | .number x, .array _ => byText w (.number x)
    | .string s, .object _ => byText w (.string s)
    | .number x, .object _ => byText w (.number x)
    | .string _, .number _ => byNumber v w
    | .number _, .string _ => byNumber v w
    | v, w => some (v.strictEq w)
where
  byNumber (v w : Value) : Option Bool := do
    let x ← h.number? v
    let y ← h.number? w
    some (x == y)
  byText (container other : Value) : Option Bool := do
    let text ← h.display? container
    match other with
    | .string s => some (text = s)
    | .number y => some (textNumber text == y)
    | _ => some false

def numericItems? (h : Heap) (v : Value) : Option (Option (List Single)) :=
  match v with
  | .array cell => do
    let xs ← (h.array cell).toList.mapM h.number?
    some (some (xs.map Double.narrow))
  | .floats b => some (some (h.singles b).toList)
  | .tensor cell => some (some (h.singles (.entries cell)).toList)
  | _ => some none

mutual

def ofJson : Json → Heap → Value × Heap
  | .null, h => (.null, h)
  | .bool b, h => (.bool b, h)
  | .int i, h => (.number (Double.ofInt i), h)
  | .float x, h => (.number x, h)
  | .str s, h => (.string s, h)
  | .arr items, h =>
    let (vs, h) := ofJsonItems items h
    h.newArray vs.toArray
  | .obj fields, h =>
    let (fs, h) := ofJsonFields fields h
    h.newObject fs

def ofJsonItems : List Json → Heap → List Value × Heap
  | [], h => ([], h)
  | j :: rest, h =>
    let (v, h) := ofJson j h
    let (vs, h) := ofJsonItems rest h
    (v :: vs, h)

def ofJsonFields : List (String × Json) → Heap → List (String × Value) × Heap
  | [], h => ([], h)
  | (k, j) :: rest, h =>
    let (v, h) := ofJson j h
    let (fs, h) := ofJsonFields rest h
    ((k, v) :: fs, h)

end

end Heap

end Apiary
