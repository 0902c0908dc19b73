import Apiary.Script.Run

/-!
What becomes of scopes while code runs. Scopes are only added, none of them loses a name or becomes one of a
function, and a constant changes where it is declared again and nowhere else.
-/

namespace Apiary

namespace Scope

theorem binding?_declare (name other : String) (b : Binding) (s : Scope) :
    (s.declare name b).binding? other = if other = name then some b else s.binding? other := by
  simp only [binding?, declare, declare.replaced]
  split
  next h =>
    rw [lookup_setField]
  next h =>
    by_cases ho : other = name
    · simp [ho]
    · have hne : (other == name) = false := beq_false_of_ne ho
      simp [List.lookup_cons, hne, ho]

end Scope

namespace Scopes

variable {S T U : Scopes} {cell : Nat} {name : String}

/-- The binding of a name in one scope, whatever other scopes hold. -/
def own (S : Scopes) (cell : Nat) (name : String) : Option Binding := S[cell]?.bind (·.binding? name)

def isFunction (S : Scopes) (cell : Nat) : Bool := (S[cell]?.map (·.ofFunction)).getD false

theorem hasOwn_eq (S : Scopes) (cell : Nat) (name : String) : S.hasOwn cell name = (S.own cell name).isSome := by
  simp only [hasOwn, own, Scope.has]
  cases S[cell]? <;> rfl

theorem own_of_size_le (h : S.size ≤ cell) (name : String) : S.own cell name = none := by
  simp [own, h]

theorem lt_of_own {b : Binding} (h : S.own cell name = some b) : cell < S.size := by
  refine Nat.lt_of_not_le fun hle => ?_
  rw [own_of_size_le hle] at h
  cases h

theorem binding?_cons (S : Scopes) (name : String) (cell : Nat) (rest : Env) :
    S.binding? name (cell :: rest) =
      match S.own cell name with
      | some b => some (cell, b)
      | none => S.binding? name rest := rfl

theorem mem_of_binding? {env : Env} {b : Binding} (h : S.binding? name env = some (cell, b)) :
    cell ∈ env ∧ S.own cell name = some b := by
  induction env with
  | nil => cases h
  | cons c rest ih =>
    rw [binding?_cons] at h
    cases hc : S.own c name with
    | none =>
      simp only [hc] at h
      exact ⟨List.mem_cons_of_mem _ (ih h).1, (ih h).2⟩
    | some b' =>
      simp only [hc, Option.some.injEq, Prod.mk.injEq] at h
      obtain ⟨rfl, rfl⟩ := h
      exact ⟨List.mem_cons_self, hc⟩

/-- A name is found once some scope of the environment has it. -/
theorem binding?_isSome {env : Env} (hcell : cell ∈ env) (h : (S.own cell name).isSome = true) :
    (S.binding? name env).isSome = true := by
  induction env with
  | nil => cases hcell
  | cons c rest ih =>
    rw [binding?_cons]
    cases hc : S.own c name with
    | some b => rfl
    | none =>
      rcases List.mem_cons.mp hcell with rfl | hrest
      · simp [hc] at h
      · exact ih hrest

theorem functionScope_mem (S : Scopes) {env : Env} (h : env ≠ []) : S.functionScope env ∈ env := by
  induction env with
  | nil => exact absurd rfl h
  | cons cell rest ih =>
    cases rest with
    | nil => exact List.mem_singleton_self cell
    | cons next rest =>
      simp only [functionScope]
      split
      · exact List.mem_cons_self
      · exact List.mem_cons_of_mem _ (ih (List.cons_ne_nil _ _))

theorem innermost_mem {env : Env} (h : env ≠ []) : innermost env ∈ env := by
  cases env with
  | nil => exact absurd rfl h
  | cons cell rest => exact List.mem_cons_self

/-- Scopes that are not of functions, opened inside of the scope of a function, do not hide it. -/
theorem functionScope_append {inner rest : Env} (hinner : ∀ c ∈ inner, S.isFunction c = false)
    (hcell : rest = [] ∨ S.isFunction cell = true) : S.functionScope (inner ++ cell :: rest) = cell := by
  induction inner with
  | nil =>
    cases rest with
    | nil => rfl
    | cons next rest =>
      have hfunction := hcell.resolve_left (List.cons_ne_nil _ _)
      simp only [isFunction] at hfunction
      simp only [List.nil_append, functionScope, hfunction, if_true]
  | cons c inner ih =>
    have hc := hinner c List.mem_cons_self
    simp only [isFunction] at hc
    have hrest := ih fun c' hc' => hinner c' (List.mem_cons_of_mem _ hc')
    cases h : inner ++ cell :: rest with
    | nil => simp at h
    | cons next env =>
      rw [h] at hrest
      simp only [List.cons_append, h, functionScope, hc, Bool.false_eq_true, if_false, hrest]

section Declare

variable (S) (cell : Nat) (name : String) (v : Value) (constant : Bool)

@[simp]
theorem size_declare : (S.declare cell name v constant).size = S.size := Array.size_modify

theorem getElem?_declare (c : Nat) : (S.declare cell name v constant)[c]? =
    if c = cell then S[c]?.map (Scope.declare name ⟨v, constant⟩) else S[c]? := by
  rw [declare, Array.getElem?_modify]
  simp only [eq_comm]

@[simp]
theorem isFunction_declare (c : Nat) : (S.declare cell name v constant).isFunction c = S.isFunction c := by
  simp only [isFunction, getElem?_declare]
  split
  · cases S[c]? <;> rfl
  · rfl

theorem own_declare (c : Nat) (other : String) : (S.declare cell name v constant).own c other =
    if c = cell ∧ other = name ∧ cell < S.size then some ⟨v, constant⟩ else S.own c other := by
  simp only [own, getElem?_declare]
  by_cases hc : c = cell
  · subst hc
    by_cases hlt : c < S.size
    · simp [hlt, Scope.binding?_declare]
    · simp [hlt]
  · simp [hc]

theorem own_declare_self (hlt : cell < S.size) :
    (S.declare cell name v constant).own cell name = some ⟨v, constant⟩ := by
  rw [own_declare, if_pos ⟨rfl, rfl, hlt⟩]

end Declare

section Push

variable (S) (s : Scope)

theorem own_push {c : Nat} (h : c < S.size) (name : String) : own (S.push s) c name = S.own c name := by
  simp [own, Array.getElem?_push, Nat.ne_of_lt h]

theorem isFunction_push {c : Nat} (h : c < S.size) : isFunction (S.push s) c = S.isFunction c := by
  simp [isFunction, Array.getElem?_push, Nat.ne_of_lt h]

theorem isFunction_push_self : isFunction (S.push s) S.size = s.ofFunction := by
  simp [isFunction]

end Push

/-- A relation between the scopes before and after code that running nothing and opening a scope keep. -/
structure Lasting (Q : Scopes → Scopes → Prop) : Prop where
  refl (S : Scopes) : Q S S
  trans {S T U : Scopes} : Q S T → Q T U → Q S U
  push (S : Scopes) (s : Scope) : Q S (S.push s)

structure Grows (S T : Scopes) : Prop where
  size_le : S.size ≤ T.size
  isFunction {cell : Nat} : cell < S.size → T.isFunction cell = S.isFunction cell
  own {cell : Nat} {name : String} : (S.own cell name).isSome = true → (T.own cell name).isSome = true

theorem Grows.trans (h : Grows S T) (h' : Grows T U) : Grows S U where
  size_le := Nat.le_trans h.size_le h'.size_le
  isFunction hc := (h'.isFunction (Nat.lt_of_lt_of_le hc h.size_le)).trans (h.isFunction hc)
  own ho := h'.own (h.own ho)

theorem grows_push (S : Scopes) (s : Scope) : Grows S (S.push s) where
  size_le := by simp
  isFunction := isFunction_push S s
  own ho := by
    obtain ⟨b, hb⟩ := Option.isSome_iff_exists.mp ho
    rw [own_push S s (lt_of_own hb), hb]
    rfl

/-- A scope that was opened is there, whatever has run since. -/
theorem Grows.opened {s : Scope} (h : Grows (S.push s) T) : S.size < T.size ∧ T.isFunction S.size = s.ofFunction := by
  have hlt : S.size < (S.push s).size := by simp
  exact ⟨Nat.lt_of_lt_of_le hlt h.size_le, (h.isFunction hlt).trans (isFunction_push_self S s)⟩

theorem grows_declare (S : Scopes) (cell : Nat) (name : String) (v : Value) (constant : Bool) :
    Grows S (S.declare cell name v constant) where
  size_le := by simp
  isFunction _ := by simp
  own ho := by
    rw [own_declare]
    split
    · rfl
    · exact ho

theorem lasting_grows : Lasting Grows where
  refl _ := ⟨Nat.le_refl _, fun _ => rfl, id⟩
  trans := Grows.trans
  push := grows_push

/-- Growth that leaves every constant as it is, but for the names that are free to be declared again. -/
structure KeepsBut (free : Nat → String → Prop) (S T : Scopes) : Prop extends Grows S T where
  constant {cell : Nat} {name : String} {v : Value} : ¬ free cell name → S.own cell name = some ⟨v, true⟩ →
    T.own cell name = some ⟨v, true⟩

theorem lasting_keepsBut (free : Nat → String → Prop) : Lasting (KeepsBut free) where
  refl S := ⟨lasting_grows.refl S, fun _ h => h⟩
  trans h h' := ⟨h.toGrows.trans h'.toGrows, fun hf ho => h'.constant hf (h.constant hf ho)⟩
  push S s := ⟨grows_push S s, fun _ ho => by rw [own_push S s (lt_of_own ho), ho]⟩

theorem KeepsBut.mono {free free' : Nat → String → Prop} (h : KeepsBut free S T)
    (hfree : ∀ cell name, free cell name → (S.own cell name).isSome = true → free' cell name) : KeepsBut free' S T where
  toGrows := h.toGrows
  constant {c n v} hf ho := h.constant (fun h => hf (hfree c n h (by rw [ho]; rfl))) ho

theorem keepsBut_declare {free : Nat → String → Prop} {v : Value} {constant : Bool}
    (h : ∀ b, S.own cell name = some b → b.constant = true → free cell name) :
    KeepsBut free S (S.declare cell name v constant) where
  toGrows := grows_declare S cell name v constant
  constant {c n u} hf ho := by
    rw [own_declare, if_neg, ho]
    rintro ⟨rfl, rfl, -⟩
    exact hf (h _ ho rfl)

/-- Growth that leaves one scope exactly as it is. -/
structure Spares (cell : Nat) (S T : Scopes) : Prop extends Grows S T where
  same : cell < S.size → T[cell]? = S[cell]?

theorem lasting_spares (cell : Nat) : Lasting (Spares cell) where
  refl S := ⟨lasting_grows.refl S, fun _ => rfl⟩
  trans h h' := ⟨h.toGrows.trans h'.toGrows, fun hc => (h'.same (Nat.lt_of_lt_of_le hc h.size_le)).trans (h.same hc)⟩
  push S s := ⟨grows_push S s, fun hc => by simp [Array.getElem?_push, Nat.ne_of_lt hc]⟩

theorem spares_declare {other : Nat} {v : Value} {constant : Bool} (h : other ≠ cell) :
    Spares cell S (S.declare other name v constant) where
  toGrows := grows_declare S other name v constant
  same _ := by rw [getElem?_declare, if_neg h.symm]

end Scopes

end Apiary
