import Apiary.Json.Basic
import Apiary.Json.Skim
import Apiary.Number.Single

/-!
Reading typed values off data. A record is an object, whose other fields are ignored, or an array of its
fields in order. A tagged record names its kind in one more field, or in front of the others. Its fields
are held back until the kind is known, and what is held back is read more freely. In a record that is read
straight from text, its own fields come at most once each, and others are passed over.
-/

namespace Apiary

inductive Standing
  | alone | held
  deriving DecidableEq, Repr

namespace Json

def intIn? (low high : Int) : Json → Option Int
  | .int i => if low ≤ i ∧ i < high then some i else none
  | _ => none

def word? (bits : Nat) (j : Json) : Option Nat := (j.intIn? 0 (twoTo bits)).map Int.toNat

def double? : Json → Option Double
  | .int i => some (Double.ofInt i)
  | .float x => some x
  | _ => none

def single? : Json → Option Single
  | .int i => some (Single.ofInt i)
  | .float x => some (Double.narrow x)
  | _ => none

def optional? {α : Type} (read : Json → Option α) : Json → Option (Option α)
  | .null => some none
  | j => (read j).map some

def list? {α : Type} (read : Json → Option α) : Json → Option (List α)
  | .arr items => items.mapM read
  | _ => none

def record? (names : List String) : Json → Option (List (Option Json))
  | .obj fields => some (names.map fun n => fields.lookup n)
  | .arr items =>
    if items.length ≤ names.length then
      some (items.map some ++ List.replicate (names.length - items.length) none)
    else none
  | _ => none

/-- The name of a choice without fields: a string, or an object with the name as its only key and nothing
under it. Held back, an empty object is nothing too. -/
def choice? (standing : Standing) : Json → Option String
  | .str s => some s
  | .obj [(s, .null)] => some s
  | .obj [(s, .obj [])] => if standing = .held then some s else none
  | _ => none

/-- The kind that a tag names. Held back, a tag may be the kind's number. -/
def kind? (standing : Standing) (kinds : List String) : Json → Option String
  | .str s => some s
  | .int i => if standing = .held ∧ 0 ≤ i then kinds[i.toNat]? else none
  | _ => none

def tagged? (standing : Standing) (tag : String) (kinds : List String) : Json → Option (String × Json)
  | .obj fields => do
    let kind ← (fields.lookup tag).bind (kind? standing kinds)
    some (kind, .obj (fields.filter fun (k, _) => k ≠ tag))
  | .arr (first :: rest) => (kind? standing kinds first).map fun kind => (kind, .arr rest)
  | _ => none

def required? {α : Type} (read : Json → Option α) (field : Option Json) : Option α :=
  field.bind read

def withDefault? {α : Type} (default : α) (read : Json → Option α) : Option Json → Option α
  | none => some default
  | some j => read j

/-- Adds the next value to the fields if it is one of theirs; a second one of a name is refused. -/
def keepField (names : List String) (key : String) (fields : List (String × Json)) (s : List Char) :
    Option (List (String × Json) × List Char) :=
  if !names.contains key then (skim s).map fun rest => (fields, rest)
  else if (fields.lookup key).isSome then none
  else (readValue (s.length + 1) 126 s).toOption.map fun (j, rest) => ((key, j) :: fields, rest)

/-- The fields up to the brace; `n` bounds the length of the text. -/
def recordFields (names : List String) :
    Nat → Bool → List (String × Json) → List Char → Option (List (String × Json) × List Char)
  | 0, _, _, _ => none
  | n + 1, first, fields, s =>
    match skip s with
    | '\x7d' :: rest => some (fields, rest)
    | s => do
      let (key, rest) ← (keyStart first s >>= readString n).toOption
      match skip rest with
      | ':' :: rest => do
        let (fields, rest) ← keepField names key fields rest
        recordFields names n false fields rest
      | _ => none

def recordOfText? (names : List String) (text : String) : Option (List (Option Json)) :=
  match skip text.toList with
  | '\x7b' :: rest => do
    let (fields, rest) ← recordFields names (rest.length + 1) true [] rest
    if (skip rest).isEmpty then some (names.map fun n => fields.lookup n) else none
  | _ => (ofText? text).bind (record? names)

end Json

end Apiary
