import Apiary.Proofs.Script.Inside

/-!
Acts made of a few kinds of steps: none of them adds a function, takes an array away, or raises the error of an
assignment to what is no place.
-/

namespace Apiary

/-- The error of an assignment to what is no place. -/
def Interrupt.badTarget : Interrupt := .message "Invalid assignment target"

def badTargetText : List Char :=
  ['I', 'n', 'v', 'a', 'l', 'i', 'd', ' ', 'a', 's', 's', 'i', 'g', 'n', 'm', 'e', 'n', 't', ' ', 't', 'a', 'r', 'g', 'e', 't']

-- Literals are met as their characters, since decoding the bytes of a literal takes long to evaluate.
theorem ne_badTarget_of_tail {s : String} {cs : List Char} (h : ¬ cs <:+ badTargetText) :
    s ++ String.ofList cs ≠ "Invalid assignment target" := by
  intro heq
  have htext : "Invalid assignment target".toList = badTargetText := String.toList_ofList
  exact h ⟨s.toList, by rw [← htext, ← heq, String.toList_append, String.toList_ofList]⟩

theorem ne_badTarget_of_head {t : String} {cs : List Char} (h : ¬ cs <+: badTargetText) :
    String.ofList cs ++ t ≠ "Invalid assignment target" := by
  intro heq
  have htext : "Invalid assignment target".toList = badTargetText := String.toList_ofList
  exact h ⟨t.toList, by rw [← htext, ← heq, String.toList_append, String.toList_ofList]⟩

theorem ShapeError.message_ne (e : ShapeError) : e.message ≠ "Invalid assignment target" := by
  cases e with
  | invalidShape dims => exact ne_badTarget_of_tail (by decide)
  | mismatch expected got =>
    unfold ShapeError.message
    simp only [String.append_assoc]
    exact ne_badTarget_of_head (by decide)
  | tooLarge dims => exact ne_badTarget_of_tail (by decide)

namespace Heap

section Size

variable (h : Heap)

@[simp]
theorem size_newArray (items : Array Value) : (h.newArray items).2.arrays.size = h.arrays.size + 1 := by
  simp [newArray]

@[simp]
theorem size_setArray (cell : Nat) (items : Array Value) :
    (h.setArray cell items).arrays.size = h.arrays.size := by
  simp [setArray]

@[simp]
theorem size_modifyArray (cell : Nat) (f : Array Value → Array Value) :
    (h.modifyArray cell f).arrays.size = h.arrays.size := by
  simp [modifyArray]

@[simp]
theorem arrays_newObject (fields : List (String × Value)) : (h.newObject fields).2.arrays = h.arrays := rfl

@[simp]
theorem arrays_newBuffer (data : Array Single) : (h.newBuffer data).2.arrays = h.arrays := rfl

@[simp]
theorem arrays_newTensor (t : Tensor) : (h.newTensor t).2.arrays = h.arrays := rfl

@[simp]
theorem arrays_newLayer (l : Layer) : (h.newLayer l).2.arrays = h.arrays := rfl

@[simp]
theorem arrays_modifyObject (cell : Nat) (f : List (String × Value) → List (String × Value)) :
    (h.modifyObject cell f).arrays = h.arrays := rfl

@[simp]
theorem arrays_modifyBuffer (cell : Nat) (f : Array Single → Array Single) :
    (h.modifyBuffer cell f).arrays = h.arrays := rfl

@[simp]
theorem arrays_newNetwork (n : Network) : (h.newNetwork n).2.arrays = h.arrays := rfl

@[simp]
theorem arrays_setNetwork (cell : Nat) (n : Network) : (h.setNetwork cell n).arrays = h.arrays := rfl

@[simp]
theorem arrays_setLayer (cell : Nat) (l : Layer) : (h.setLayer cell l).arrays = h.arrays := rfl

@[simp]
theorem arrays_setSingle (b : FloatBuffer) (i : Nat) (x : Single) :
    (h.setSingle b i x).arrays = h.arrays := by
  cases b <;> rfl

@[simp]
theorem arrays_fillSingles (b : FloatBuffer) (x : Single) : (Act.fillSingles b x h).arrays = h.arrays := by
  cases b <;> rfl

end Size

mutual

theorem size_ofJson : ∀ (j : Json) (h : Heap), h.arrays.size ≤ (ofJson j h).2.arrays.size
  | .null, _ | .bool _, _ | .int _, _ | .float _, _ | .str _, _ => by simp only [ofJson, Nat.le_refl]
  | .arr items, h => by
    simp only [ofJson, size_newArray]
    exact Nat.le_succ_of_le (size_ofJsonItems items h)
  | .obj fields, h => by
    simp only [ofJson, arrays_newObject]
    exact size_ofJsonFields fields h

theorem size_ofJsonItems :
    ∀ (items : List Json) (h : Heap), h.arrays.size ≤ (ofJsonItems items h).2.arrays.size
  | [], _ => by simp only [ofJsonItems, Nat.le_refl]
  | j :: rest, h => by
    simp only [ofJsonItems]
    exact (size_ofJson j h).trans (size_ofJsonItems rest _)

theorem size_ofJsonFields :
    ∀ (fields : List (String × Json)) (h : Heap), h.arrays.size ≤ (ofJsonFields fields h).2.arrays.size
  | [], _ => by simp only [ofJsonFields, Nat.le_refl]
  | (_, j) :: rest, h => by
    simp only [ofJsonFields]
    exact (size_ofJson j h).trans (size_ofJsonFields rest _)

end

end Heap

namespace Act

variable {σ α β : Type}

/-- Acts that look at no scope. -/
inductive Plain : ∀ {α : Type}, Act σ α → Prop
  | ret {α : Type} (x : α) : Plain (pure x)
  | bind {α β : Type} {a : Act σ α} {f : α → Act σ β} : Plain a → (∀ x, Plain (f x)) → Plain (a >>= f)
  | fail {α : Type} {text : String} : text ≠ "Invalid assignment target" → Plain (Act.fail text : Act σ α)
  | thrown {α : Type} (message : String) (v : Value) : Plain (throw (.error message (some v)) : Act σ α)
  | position {α : Type} {i : Nat} : ¬ Double.ofNat i < 9.0e15 →
    Plain (throw (.endless (.position i)) : Act σ α)
  | convert {α : Type} {values : List Value} {f : Heap → Option α} :
    (∀ h, f h = none → ∃ v ∈ values, h.Circular v) → Plain (Act.convert values f)
  | apart (buffer : Nat) (v : Value) : Plain (Act.apart buffer v)
  | look {α : Type} (f : Heap → α) : Plain (Act.look f)
  | alloc {α : Type} (f : Heap → α × Heap) (grows : ∀ h, h.arrays.size ≤ (f h).2.arrays.size) :
    Plain (Act.alloc f)
  | update (f : Heap → Heap) (grows : ∀ h, h.arrays.size ≤ (f h).arrays.size) :
    Plain (Act.update f)

inductive Simple : ∀ {α : Type}, Act σ α → Prop
  | plain {α : Type} {a : Act σ α} : Plain a → Simple a
  | bind {α β : Type} {a : Act σ α} {f : α → Act σ β} : Simple a → (∀ x, Simple (f x)) → Simple (a >>= f)
  | lookScopes {α : Type} (f : Scopes → α) : Simple (Act.lookScopes f)
  | updateScopes (f : Scopes → Scopes) : Simple (Act.updateScopes f)
  | newScope (f : Scopes → Scope) : Simple (Act.newScope f)

theorem Plain.inside {a : Act σ α} (h : Plain a) : Inside a := by
  induction h with
  | ret x => exact .ret x
  | bind _ _ ha hf => exact ha.bind hf
  | fail => exact .fail _
  | thrown message v => exact .interrupt fun _ => .error message (some v)
  | position hi => exact .interrupt fun _ => .position hi
  | convert hf => exact .convert hf
  | apart buffer v => exact .apart buffer v
  | look f => exact .look f
  | alloc f => exact .alloc f
  | update f => exact .update f

theorem Simple.inside {a : Act σ α} (h : Simple a) : Inside a := by
  induction h with
  | plain h => exact h.inside
  | bind _ _ ha hf => exact ha.bind hf
  | lookScopes f => exact .lookScopes f
  | updateScopes f => exact .updateScopes f
  | newScope f => exact .newScope f

namespace Plain

theorem map {a : Act σ α} (f : α → β) (ha : Plain a) : Plain (f <$> a) := by
  rw [map_eq_pure_bind]
  exact ha.bind fun x => ret (f x)

theorem convertOne {v : Value} {f : Heap → Option α} (hf : ∀ h, f h = none → h.Circular v) :
    Plain (Act.convert [v] f : Act σ α) :=
  convert fun h hn => ⟨v, List.mem_singleton_self v, hf h hn⟩

theorem number (v : Value) : Plain (Act.number v : Act σ Double) :=
  convertOne fun _ => Heap.circular_of_number

theorem single (v : Value) : Plain (Act.single v : Act σ Single) :=
  (number v).bind fun x => ret (Double.narrow x)

theorem display (v : Value) : Plain (Act.display v : Act σ String) :=
  convertOne fun _ => Heap.circular_of_display

theorem numericItems (what : String) (v : Value) :
    Plain (Act.numericItems what v : Act σ (List Single)) := by
  unfold Act.numericItems
  refine bind (convertOne fun _ => Heap.circular_of_numericItems) fun xs => ?_
  cases xs with
  | none => exact fail (ne_badTarget_of_tail (by decide))
  | some xs => exact ret xs

theorem ofShape (r : Except ShapeError α) : Plain (Act.ofShape r : Act σ α) := by
  cases r with
  | ok a => exact ret a
  | error e => exact fail e.message_ne

end Plain

namespace Simple

theorem ret (x : α) : Simple (pure x : Act σ α) := plain (.ret x)

theorem fail {text : String} (h : text ≠ "Invalid assignment target") : Simple (Act.fail text : Act σ α) :=
  plain (.fail h)

theorem assign (name : String) (value : Value) (env : Env) :
    Simple (Act.assign name value env : Act σ Unit) := by
  unfold Act.assign
  refine (lookScopes _).bind fun found => ?_
  split
  · exact fail (ne_badTarget_of_tail (by decide))
  · split
    · exact fail (by decide)
    · exact updateScopes _

theorem declare (cell : Nat) (name : String) (value : Value) (constant : Bool) :
    Simple (Act.declare cell name value constant : Act σ Unit) :=
  updateScopes _

theorem enter (ofFunction : Bool) (env : Env) : Simple (Act.enter ofFunction env : Act σ Env) :=
  (newScope _).bind fun cell => ret (cell :: env)

theorem fork (env : Env) : Simple (Act.fork env : Act σ Env) := by
  unfold Act.fork
  cases env with
  | nil => exact enter false []
  | cons cell rest => exact (newScope _).bind fun copy => ret (copy :: rest)

theorem declareVars (cell : Nat) (names : List String) :
    Simple (Act.declareVars cell names : Act σ Unit) := by
  induction names with
  | nil => exact ret ()
  | cons name rest ih =>
    unfold Act.declareVars
    refine (lookScopes _).bind fun known => ?_
    cases known with
    | true => exact ih
    | false => exact (declare _ _ _ _).bind fun _ => ih

end Simple

end Act

end Apiary
