import Apiary.Script.Act

/-!
The global names that a script starts with: those of the language, which are constant, and those that its
surroundings add.
-/

namespace Apiary

def mathFields : List (String × Value) :=
  [("abs", .builtin .abs), ("floor", .builtin .floor), ("ceil", .builtin .ceil),
   ("round", .builtin .round), ("trunc", .builtin .trunc), ("sign", .builtin .sign),
   ("sqrt", .builtin .sqrt), ("pow", .builtin .pow), ("exp", .builtin .exp),
   ("log", .builtin .log), ("log10", .builtin .log10), ("sin", .builtin .sin),
   ("cos", .builtin .cos), ("tan", .builtin .tan), ("tanh", .builtin .tanh),
   ("atan2", .builtin .atan2), ("min", .builtin .min), ("max", .builtin .max),
   ("random", .builtin .random), ("PI", .number Prng.pi),
   ("E", .number ⟨0x4005BF0A8B145769⟩)]

def consoleFields : List (String × Value) :=
  ["log", "info", "warn", "error"].map fun name => (name, .builtin .print)

def globalObjects : List (String × List (String × Value)) :=
  [("Math", mathFields),
   ("JSON", [("stringify", .builtin .stringify), ("parse", .builtin .parse)]),
   ("Object", [("keys", .builtin .keys), ("values", .builtin .values)]),
   ("Array", [("isArray", .builtin .isArray)]),
   ("console", consoleFields)]

def globalValues : List (String × Value) :=
  [("String", .builtin .string), ("Number", .builtin .number), ("Boolean", .builtin .boolean),
   ("parseInt", .builtin .parseInt), ("parseFloat", .builtin .parseFloat),
   ("isNaN", .builtin .isNaN), ("isFinite", .builtin .isFinite), ("Error", .builtin .error),
   ("NaN", .number Double.nan), ("Infinity", .number Double.infinity)]

namespace Heap

def childObject (parent : Nat) (name : String) (h : Heap) : Nat × Heap :=
  match (h.object parent).lookup name with
  | some (.object cell) => (cell, h)
  | _ =>
    let cell := h.objects.size
    let (v, h) := h.newObject []
    (cell, h.modifyObject parent (setField name v))

def placeHostFunction (f : HostFunction) : List String → Nat → Heap → Heap
  | [], _, h => h
  | [leaf], cell, h => h.modifyObject cell (setField leaf (.host f))
  | name :: rest, cell, h =>
    let (child, h) := h.childObject cell name
    placeHostFunction f rest child h

/-- The tree of host functions. A function that hangs off another one has no place of its own. -/
def newHostTree (h : Heap) : Value × Heap :=
  let root := h.objects.size
  let (v, h) := h.newObject []
  let placed := HostFunction.all.filter (· ≠ .hiveAutoExpand)
  (v, placed.foldl (fun h f => placeHostFunction f f.segments root h) h)

end Heap

namespace World

variable {σ : Type}

def declareGlobal (name : String) (value : Value) (constant : Bool) (w : World σ) : World σ :=
  { w with scopes := w.scopes.declare Scopes.globalCell name value constant }

/-- A name that the surroundings of a script add; scripts may assign to it. -/
def define (name : String) (f : Heap → Value × Heap) (w : World σ) : World σ :=
  let (v, h) := f w.heap
  { w with heap := h }.declareGlobal name v false

def addConstant (name : String) (f : Heap → Value × Heap) (w : World σ) : World σ :=
  let (v, h) := f w.heap
  { w with heap := h }.declareGlobal name v true

def start (host : σ) : World σ :=
  let w : World σ := ⟨⟨{}, host⟩, #[], #[⟨[], true⟩], 0⟩
  let w := globalObjects.foldl (fun w (name, fields) => w.addConstant name (Heap.newObject fields)) w
  globalValues.foldl (fun w (name, v) => w.declareGlobal name v true) w

def startWithHost (host : σ) : World σ := (start host).define "GB" Heap.newHostTree

end World

end Apiary
