import Apiary.Number.Double

/-!
Numerals to a base from 2 to 36, with lower case letters for the digits above nine.
-/

namespace Apiary

def digitChar (d : Nat) : Char :=
  if d < 10 then Char.ofNat (48 + d) else Char.ofNat (87 + d)

/-- The digits of a numeral, least significant first; zero has none. -/
def digitsLow (base n : Nat) (h : 1 < base) : List Nat :=
  if n = 0 then [] else n % base :: digitsLow base (n / base) h
termination_by n
decreasing_by exact Nat.div_lt_self (by omega) h

def numeral (base n : Nat) : List Char :=
  if h : 1 < base then
    if n = 0 then ['0'] else ((digitsLow base n h).map digitChar).reverse
  else []

def digitOf? (base : Nat) (c : Char) : Option Nat :=
  let n := c.toNat
  let d :=
    if 48 ≤ n ∧ n ≤ 57 then n - 48
    else if 97 ≤ n ∧ n ≤ 122 then n - 87
    else if 65 ≤ n ∧ n ≤ 90 then n - 55
    else 36
  if d < base then some d else none

def valueOf? (base : Nat) : List Char → Option Nat
  | [] => none
  | s => s.foldlM (fun n c => (digitOf? base c).map (n * base + ·)) 0

def unsigned? (base limit : Nat) (s : List Char) : Option Nat :=
  let digits := match s with
    | '+' :: r => r
    | s => s
  (valueOf? base digits).filter (· < limit)

end Apiary
