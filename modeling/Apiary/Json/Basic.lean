import Apiary.Number.Double

/-!
Structured data: the value type, objects as fields in insertion order, and the few accessors its readers
need.
-/

namespace Apiary

def setField {α : Type} (key : String) (value : α) : List (String × α) → List (String × α)
  | [] => [(key, value)]
  | (k, v) :: rest => if k = key then (key, value) :: rest else (k, v) :: setField key value rest

theorem lookup_setField {α : Type} (key other : String) (value : α) (fields : List (String × α)) :
    (setField key value fields).lookup other =
      if other = key then some value else fields.lookup other := by
  induction fields with
  | nil =>
    by_cases h : other = key
    · simp [setField, h]
    · have h' : (other == key) = false := by simpa using h
      simp [setField, List.lookup_cons, h, h']
  | cons field rest ih =>
    obtain ⟨k, v⟩ := field
    by_cases hk : k = key
    · by_cases h : other = key
      · simp [setField, hk, h]
      · have h' : (other == key) = false := by simpa using h
        simp [setField, hk, h, List.lookup_cons, h']
    · by_cases h : other = k
      · subst h
        simp [setField, hk]
      · have h' : (other == k) = false := by simpa using h
        simp [setField, hk, List.lookup_cons, h', ih]

theorem keys_setField {α : Type} (key : String) (value : α) (fields : List (String × α)) :
    (setField key value fields).map Prod.fst =
      if key ∈ fields.map Prod.fst then fields.map Prod.fst
      else fields.map Prod.fst ++ [key] := by
  induction fields with
  | nil => simp [setField]
  | cons field rest ih =>
    obtain ⟨k, v⟩ := field
    by_cases hk : k = key
    · simp [setField, hk]
    · have hk' : ¬ key = k := fun h => hk h.symm
      by_cases hm : key ∈ rest.map Prod.fst
      · simp [setField, hk, hm, ih]
      · simp only [setField, hk, if_false, List.map_cons, ih, hm, List.mem_cons, hk', false_or,
          List.cons_append]

inductive Json
  | null
  | bool (b : Bool)
  | int (i : Int)
  | float (x : Double)
  | str (s : String)
  | arr (items : List Json)
  | obj (fields : List (String × Json))
  deriving Inhabited

namespace Json

def ofNat (n : Nat) : Json := .int n

def field? (j : Json) (key : String) : Option Json :=
  match j with
  | .obj fields => fields.lookup key
  | _ => none

def str? : Json → Option String
  | .str s => some s
  | _ => none

def arr? : Json → Option (List Json)
  | .arr items => some items
  | _ => none

def ofOption : Option Json → Json
  | none => .null
  | some j => j

end Json

end Apiary
