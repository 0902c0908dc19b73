/-!
Places in a text: lines and columns counted from one, and a cursor that knows the text still to be read
and how much was read.
-/

namespace Apiary

structure Position where
  line : Nat
  column : Nat
  deriving DecidableEq, Repr, Inhabited

def Position.start : Position := ⟨1, 1⟩

def Position.next (p : Position) (c : Char) : Position :=
  if c = '\n' then ⟨p.line + 1, 1⟩ else ⟨p.line, p.column + 1⟩

def Position.after (p : Position) (text : List Char) : Position := text.foldl Position.next p

theorem Position.after_cons (p : Position) (c : Char) (text : List Char) :
    p.after (c :: text) = (p.next c).after text := rfl

theorem Position.after_append (p : Position) (s t : List Char) :
    p.after (s ++ t) = (p.after s).after t := by
  simp [Position.after, List.foldl_append]

structure Cursor where
  rest : List Char
  position : Position
  offset : Nat
  deriving DecidableEq, Repr

namespace Cursor

def ofChars (s : List Char) (p : Position) : Cursor := ⟨s, p, 0⟩

def bump (k : Cursor) : Cursor :=
  match k.rest with
  | [] => k
  | c :: rest => ⟨rest, k.position.next c, k.offset + 1⟩

def drop : Nat → Cursor → Cursor
  | 0, k => k
  | n + 1, k => drop n k.bump

def skipFrom (p : Char → Bool) : List Char → Position → Nat → Cursor
  | [], at_, offset => ⟨[], at_, offset⟩
  | c :: rest, at_, offset =>
    if p c then skipFrom p rest (at_.next c) (offset + 1) else ⟨c :: rest, at_, offset⟩

def skipWhile (p : Char → Bool) (k : Cursor) : Cursor := skipFrom p k.rest k.position k.offset

def textTo (k later : Cursor) : List Char := k.rest.take (later.offset - k.offset)

structure Reads (k : Cursor) (text : List Char) (later : Cursor) : Prop where
  rest_eq : k.rest = text ++ later.rest
  position_eq : later.position = k.position.after text
  offset_eq : later.offset = k.offset + text.length

theorem Reads.refl (k : Cursor) : k.Reads [] k := ⟨rfl, rfl, rfl⟩

theorem Reads.trans {k l m : Cursor} {s t : List Char} (h : k.Reads s l) (h' : l.Reads t m) :
    k.Reads (s ++ t) m where
  rest_eq := by rw [h.rest_eq, h'.rest_eq, List.append_assoc]
  position_eq := by rw [h'.position_eq, h.position_eq, Position.after_append]
  offset_eq := by rw [h'.offset_eq, h.offset_eq, List.length_append, Nat.add_assoc]

theorem reads_bump {k : Cursor} {c : Char} {rest : List Char} (h : k.rest = c :: rest) :
    k.Reads [c] k.bump := by
  constructor <;> simp [bump, h, Position.after]

theorem reads_skipFrom (p : Char → Bool) :
    ∀ (s : List Char) (a : Position) (n : Nat),
      Reads ⟨s, a, n⟩ (s.takeWhile p) (skipFrom p s a n)
  | [], _, _ => Reads.refl _
  | c :: rest, a, n => by
    by_cases h : p c = true
    · simp only [skipFrom, h, if_true, List.takeWhile_cons]
      have first : Reads ⟨c :: rest, a, n⟩ [c] ⟨rest, a.next c, n + 1⟩ := reads_bump rfl
      exact first.trans (reads_skipFrom p rest (a.next c) (n + 1))
    · simp only [skipFrom, h, List.takeWhile_cons]
      exact Reads.refl _

theorem reads_skipWhile (p : Char → Bool) (k : Cursor) :
    k.Reads (k.rest.takeWhile p) (k.skipWhile p) := reads_skipFrom p k.rest k.position k.offset

theorem Reads.textTo_eq {k later : Cursor} {text : List Char} (h : k.Reads text later) :
    k.textTo later = text := by
  simp [textTo, h.rest_eq, h.offset_eq]

end Cursor

end Apiary
