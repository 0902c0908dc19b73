import Apiary.Image.Bytes
import Apiary.Number.Numeral

/-!
Bytes and words as hexadecimal text, two digits to a byte.
-/

namespace Apiary

def hexText (width n : Nat) : String :=
  let digits := numeral 16 n
  String.ofList (List.replicate (width - digits.length) '0' ++ digits)

namespace Bytes

def hex (b : Bytes) : String := String.join (b.map fun x => hexText 2 x.toNat)

/-- The bytes of pairs of digits; other characters count as zero. -/
def ofHexPairs : List Char → Bytes
  | a :: b :: rest => UInt8.ofNat ((valueOf? 16 [a, b]).getD 0) :: ofHexPairs rest
  | _ => []

end Bytes

end Apiary
