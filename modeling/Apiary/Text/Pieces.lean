/-!
White space, and occurrences of one text in another: where they are, cutting at them and replacing them.
Occurrences are taken from left to right and do not overlap. White space is the twenty-five characters with
the property of that name.
-/

namespace Apiary

def isBlank (c : Char) : Bool :=
  let n := c.toNat
  (9 ≤ n && n ≤ 13) || n == 0x20 || n == 0x85 || n == 0xa0 || n == 0x1680
    || (0x2000 ≤ n && n ≤ 0x200a) || n == 0x2028 || n == 0x2029 || n == 0x202f
    || n == 0x205f || n == 0x3000

def trimStart (s : List Char) : List Char := s.dropWhile isBlank

def trimEnd (s : List Char) : List Char := (s.reverse.dropWhile isBlank).reverse

def trim (s : List Char) : List Char := trimEnd (trimStart s)

def occurs (part : List Char) : List Char → Bool
  | [] => part.isEmpty
  | c :: rest => part.isPrefixOf (c :: rest) || occurs part rest

/-- The pieces between occurrences of a nonempty separator. `skip` characters of an occurrence are still
to be passed over; `piece` holds the current piece in reverse. -/
def splitFrom (sep : List Char) : Nat → List Char → List Char → List (List Char)
  | _, piece, [] => [piece.reverse]
  | skip + 1, piece, _ :: rest => splitFrom sep skip piece rest
  | 0, piece, c :: rest =>
    if sep.isPrefixOf (c :: rest) then piece.reverse :: splitFrom sep (sep.length - 1) [] rest
    else splitFrom sep 0 (c :: piece) rest

/-- The pieces between occurrences; an empty separator gives the single characters. -/
def splitChars (sep s : List Char) : List (List Char) :=
  if sep.isEmpty then s.map ([·]) else splitFrom sep 0 [] s

def splitText (sep s : String) : List String :=
  (splitChars sep.toList s.toList).map String.ofList

def replaceFrom (part replacement : List Char) : Nat → List Char → List Char
  | _, [] => []
  | skip + 1, _ :: rest => replaceFrom part replacement skip rest
  | 0, c :: rest =>
    if part.isPrefixOf (c :: rest) then
      replacement ++ replaceFrom part replacement (part.length - 1) rest
    else c :: replaceFrom part replacement 0 rest

/-- Puts `replacement` in place of every occurrence. An empty text occurs before every character and at
the end. -/
def replaceChars (part replacement s : List Char) : List Char :=
  if part.isEmpty then s.flatMap (fun c => replacement ++ [c]) ++ replacement
  else replaceFrom part replacement 0 s

def replaceText (part replacement s : String) : String :=
  String.ofList (replaceChars part.toList replacement.toList s.toList)

def replaceFirst (part replacement : List Char) : List Char → List Char
  | [] => if part.isEmpty then replacement else []
  | c :: rest =>
    if part.isPrefixOf (c :: rest) then replacement ++ (c :: rest).drop part.length
    else c :: replaceFirst part replacement rest

def positionsFrom (part : List Char) (i : Nat) : List Char → List Nat
  | [] => if part.isEmpty then [i] else []
  | c :: rest =>
    let later := positionsFrom part (i + 1) rest
    if part.isPrefixOf (c :: rest) then i :: later else later

def positions (part s : List Char) : List Nat := positionsFrom part 0 s

end Apiary
