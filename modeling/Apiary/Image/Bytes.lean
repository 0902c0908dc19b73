import Apiary.Number.Single

/-!
Byte strings: little-endian words, length-prefixed text, and readers that consume from the front. A read
that runs out of bytes uses up what is left.
-/

namespace Apiary

abbrev Bytes := List UInt8

inductive ImageError
  | unexpectedEnd
  | invalidText
  | badBlock
  | badMagic
  | badVersion
  | noLayers
  | weightsMismatch
  | biasMismatch
  | malformedLayer
  | brokenChain
  | missingNetwork
  | lengthTooLarge
  | badMemory
  deriving DecidableEq, Repr

def ImageError.message : ImageError → String
  | .unexpectedEnd => "failed to fill whole buffer"
  | .invalidText => "invalid utf-8 string"
  | .badBlock => "lz4 decompression failed"
  | .badMagic => "bad model image magic"
  | .badVersion => "unsupported model image version"
  | .noLayers => "network image has no layers"
  | .weightsMismatch => "layer weights do not match dims"
  | .biasMismatch => "layer bias does not match dims"
  | .malformedLayer => "malformed layer"
  | .brokenChain => "adjacent layer sizes do not chain"
  | .missingNetwork => "model image is missing the NETW chunk"
  | .lengthTooLarge => "length too large"
  | .badMemory => "malformed memory text"

namespace Bytes

def ofWord : Nat → Nat → Bytes
  | 0, _ => []
  | n + 1, w => UInt8.ofNat (w % 256) :: ofWord n (w / 256)

def toWord : Bytes → Nat
  | [] => 0
  | b :: rest => b.toNat + 256 * toWord rest

theorem length_ofWord : ∀ (n w : Nat), (ofWord n w).length = n
  | 0, _ => rfl
  | n + 1, w => by simp [ofWord, length_ofWord n]

theorem toWord_ofWord : ∀ (n w : Nat), w < twoTo (8 * n) → toWord (ofWord n w) = w
  | 0, w, h => by
    have hw : w = 0 := by
      change w < 1 at h
      omega
    simp [ofWord, toWord, hw]
  | n + 1, w, h => by
    have hd : w / 256 < twoTo (8 * n) := by
      rw [Nat.mul_succ, twoTo_add_eight] at h
      omega
    simp only [ofWord, toWord, toWord_ofWord n (w / 256) hd, UInt8.toNat_ofNat']
    omega

def u32 (n : Nat) : Bytes := ofWord 4 n

def u64 (n : Nat) : Bytes := ofWord 8 n

def f32 (x : Single) : Bytes := u32 x.bits.toNat

def ofText (s : String) : Bytes := s.toUTF8.toList

def toText? (b : Bytes) : Option String := String.fromUTF8? ⟨b.toArray⟩

def length32 (n : Nat) : Except ImageError Bytes :=
  if n < twoTo 32 then .ok (u32 n) else .error .lengthTooLarge

def counted (b : Bytes) : Except ImageError Bytes := do
  pure ((← length32 b.length) ++ b)

def text (s : String) : Except ImageError Bytes := counted (ofText s)

end Bytes

/-- Takes bytes off the front; gives the rest even when it fails. -/
def ByteReader (α : Type) := Bytes → Except ImageError α × Bytes

namespace ByteReader

instance : Monad ByteReader where
  pure a := fun b => (.ok a, b)
  bind r f := fun b =>
    match r b with
    | (.error e, rest) => (.error e, rest)
    | (.ok a, rest) => f a rest

def fail {α : Type} (e : ImageError) : ByteReader α := fun b => (.error e, b)

def take (n : Nat) : ByteReader Bytes := fun b =>
  let front := b.take n
  if front.length = n then (.ok front, b.drop n) else (.error .unexpectedEnd, [])

def word (n : Nat) : ByteReader Nat := do
  let b ← take n
  pure b.toWord

def u32 : ByteReader Nat := word 4

def u64 : ByteReader Nat := word 8

def f32 : ByteReader Single := do
  let n ← u32
  pure (⟨UInt32.ofNat n⟩)

def counted : ByteReader Bytes := do take (← u32)

def text : ByteReader String := do
  match (← counted).toText? with
  | some s => pure s
  | none => fail .invalidText

def repeated {α : Type} (r : ByteReader α) : Nat → Array α → ByteReader (Array α)
  | 0, done => pure done
  | n + 1, done => do
    let a ← r
    repeated r n (done.push a)

end ByteReader

end Apiary
