import Apiary.Script.Tree
import Apiary.Script.HostFunction
import Apiary.Net.Network
import Apiary.Number.Numeral

/-!
The values of a running script. Arrays, objects, buffers, tensors, layers, networks and functions are
shared: a value names a cell of what holds them.
-/

namespace Apiary

inductive Builtin
  | abs | floor | ceil | round | trunc | sign | sqrt | pow | exp | log | log10
  | sin | cos | tan | tanh | atan2 | min | max | random
  | string | number | boolean | parseInt | parseFloat | isNaN | isFinite
  | stringify | parse | keys | values | isArray | print | error
  deriving DecidableEq, Repr

inductive FloatBuffer
  | own (cell : Nat)
  | entries (tensor : Nat)
  deriving DecidableEq, Repr

inductive Value
  | undefined
  | null
  | bool (b : Bool)
  | number (x : Double)
  | string (s : String)
  | array (cell : Nat)
  | object (cell : Nat)
  | floats (b : FloatBuffer)
  | tensor (cell : Nat)
  | layer (cell : Nat)
  | network (cell : Nat)
  | function (cell : Nat) (name : Option String)
  | host (f : HostFunction)
  | builtin (b : Builtin)
  deriving DecidableEq, Inhabited

namespace Value

def ofNat (n : Nat) : Value := .number (Double.ofNat n)

def ofSingle (x : Single) : Value := .number (Single.widen x)

def ofChar (c : Char) : Value := .string c.toString

def isNullish : Value → Bool
  | undefined => true
  | null => true
  | _ => false

def isCallable : Value → Bool
  | function .. => true
  | host _ => true
  | builtin _ => true
  | _ => false

def truthy : Value → Bool
  | undefined => false
  | null => false
  | bool b => b
  | number x => x != 0 && !x.isNaN
  | string s => !s.isEmpty
  | _ => true

def typeName : Value → String
  | undefined => "undefined"
  | bool _ => "boolean"
  | number _ => "number"
  | string _ => "string"
  | function .. => "function"
  | host _ => "function"
  | builtin _ => "function"
  | _ => "object"

def index? : Value → Option Nat
  | number x =>
    if 0 ≤ x ∧ Double.isWhole x ∧ x < 9.0e15 then some (Double.wholeMagnitude x) else none
  | string s => unsigned? 10 (twoTo 64) s.toList
  | _ => none

def strictEq : Value → Value → Bool
  | number x, number y => x == y
  | number _, _ => false
  | _, number _ => false
  | v, w => v = w

end Value

structure Heap where
  arrays : Array (Array Value) := #[]
  objects : Array (List (String × Value)) := #[]
  buffers : Array (Array Single) := #[]
  tensors : Array Tensor := #[]
  layers : Array Layer := #[]
  networks : Array Network := #[]

namespace Heap

def newArray (items : Array Value) (h : Heap) : Value × Heap :=
  (.array h.arrays.size, { h with arrays := h.arrays.push items })

def newObject (fields : List (String × Value)) (h : Heap) : Value × Heap :=
  (.object h.objects.size, { h with objects := h.objects.push fields })

def newBuffer (data : Array Single) (h : Heap) : Value × Heap :=
  (.floats (.own h.buffers.size), { h with buffers := h.buffers.push data })

def newTensor (t : Tensor) (h : Heap) : Value × Heap :=
  (.tensor h.tensors.size, { h with tensors := h.tensors.push t })

def newLayer (l : Layer) (h : Heap) : Value × Heap :=
  (.layer h.layers.size, { h with layers := h.layers.push l })

def newNetwork (n : Network) (h : Heap) : Value × Heap :=
  (.network h.networks.size, { h with networks := h.networks.push n })

def array (h : Heap) (cell : Nat) : Array Value := h.arrays.getD cell #[]

def object (h : Heap) (cell : Nat) : List (String × Value) := h.objects.getD cell []

def singles (h : Heap) : FloatBuffer → Array Single
  | .own cell => h.buffers.getD cell #[]
  | .entries cell => (h.tensors[cell]?.map Tensor.data).getD #[]

def setArray (cell : Nat) (items : Array Value) (h : Heap) : Heap :=
  { h with arrays := h.arrays.setIfInBounds cell items }

def modifyArray (cell : Nat) (f : Array Value → Array Value) (h : Heap) : Heap :=
  { h with arrays := h.arrays.modify cell f }

def modifyObject (cell : Nat) (f : List (String × Value) → List (String × Value)) (h : Heap) :
    Heap :=
  { h with objects := h.objects.modify cell f }

def modifyBuffer (cell : Nat) (f : Array Single → Array Single) (h : Heap) : Heap :=
  { h with buffers := h.buffers.modify cell f }

def setNetwork (cell : Nat) (n : Network) (h : Heap) : Heap :=
  { h with networks := h.networks.setIfInBounds cell n }

def setLayer (cell : Nat) (l : Layer) (h : Heap) : Heap :=
  { h with layers := h.layers.setIfInBounds cell l }

/-- Writes one entry; a position out of range is ignored. -/
def setSingle (b : FloatBuffer) (i : Nat) (x : Single) (h : Heap) : Heap :=
  match b with
  | .own cell => h.modifyBuffer cell (·.setIfInBounds i x)
  | .entries cell =>
    { h with tensors := h.tensors.modify cell fun t => { t with data := t.data.setIfInBounds i x } }

end Heap

end Apiary
