import Apiary.Image.Bytes
import Apiary.Json.Reader

/-!
The parts that an image leaves to others: blocks are packed and unpacked and data text is read in any way that a
codec gives.

LZ4 blocks, the blocks of the codec that runs: runs of literal bytes and copies of earlier output, each pair opened
by a token with two four-bit lengths. A block ends with literals. Packing writes one run of literals.

Chunks: a four-byte tag, the length of what follows, the length of the payload, and the packed payload.
Reading a sequence of chunks ends at the first header that is not complete.
-/

namespace Apiary.Lz4

def lengthTail (n : Nat) : Bytes :=
  if n < 255 then [UInt8.ofNat n] else 255 :: lengthTail (n - 255)

def pack (b : Bytes) : Bytes :=
  if b.length < 15 then UInt8.ofNat (b.length * 16) :: b
  else 0xf0 :: lengthTail (b.length - 15) ++ b

def readTail : Nat → Bytes → Option (Nat × Bytes)
  | _, [] => none
  | n, b :: rest => if b = 255 then readTail (n + 255) rest else some (n + b.toNat, rest)

def readLength (nibble : Nat) (b : Bytes) : Option (Nat × Bytes) :=
  if nibble = 15 then readTail 15 b else some (nibble, b)

/-- Adds `n` bytes that repeat those from position `start` on; copies may overlap what they add. -/
def copyFrom : Nat → Nat → Array UInt8 → Array UInt8
  | 0, _, out => out
  | n + 1, start, out => copyFrom n (start + 1) (out.push (out.getD start 0))

def leastCopy : Nat := 4

def unpackFrom (limit : Nat) : Nat → Bytes → Array UInt8 → Option Bytes
  | 0, _, _ => none
  | _ + 1, [], _ => none
  | n + 1, token :: rest, out => do
    let (count, rest) ← readLength (token.toNat / 16) rest
    let literals := rest.take count
    if literals.length < count ∨ limit < out.size + count then none
    let out := out ++ literals.toArray
    match rest.drop count with
    | [] => some out.toList
    | [_] => none
    | low :: high :: rest => do
      let offset := low.toNat + 256 * high.toNat
      let (count, rest) ← readLength (token.toNat % 16) rest
      let count := count + leastCopy
      if limit < out.size + count ∨ offset = 0 ∨ out.size < offset then none
      unpackFrom limit n rest (copyFrom count (out.size - offset) out)

def unpack (limit : Nat) (b : Bytes) : Option Bytes := unpackFrom limit (b.length + 1) b #[]

end Apiary.Lz4

namespace Apiary

structure Codec where
  pack : Bytes → Bytes
  /-- What a block holds, up to a number of bytes; none when it is malformed. -/
  unpack : Nat → Bytes → Option Bytes
  ofText? : String → Option Json

namespace Codec

/-- Unpacking undoes packing. -/
def Restores (z : Codec) : Prop := ∀ b, z.unpack b.length (z.pack b) = some b

/-- A block that is cut short is malformed or holds less: the front of what the whole block holds. -/
def Shortens (z : Codec) : Prop :=
  ∀ limit limit' cut t d full, t ≠ [] → z.unpack limit cut = some d → z.unpack limit' (cut ++ t) = some full →
    ∃ more, full = d ++ more ∧ more ≠ []

def unblock (z : Codec) (size : Nat) (packed : Bytes) : Except ImageError Bytes :=
  match z.unpack size packed with
  | some payload => .ok payload
  | none => .error .badBlock

def standard : Codec := ⟨Lz4.pack, Lz4.unpack, Json.ofText?⟩

end Codec

structure Chunk where
  tag : Bytes
  payload : Bytes
  deriving DecidableEq

namespace Chunk

def toBytes (c : Chunk) (pack : Bytes → Bytes) : Except ImageError Bytes := do
  let packed := pack c.payload
  let _ ← Bytes.length32 packed.length
  let total := min (packed.length + 4) (twoTo 32 - 1)
  let size ← Bytes.length32 c.payload.length
  pure (c.tag ++ Bytes.u32 total ++ size ++ packed)

def header : ByteReader (Bytes × Nat) := do
  let tag ← ByteReader.take 4
  let length ← ByteReader.u32
  pure (tag, length)

def unpackBody (z : Codec) (body : Bytes) : Except ImageError Bytes :=
  match ByteReader.u32 body with
  | (.error e, _) => .error e
  | (.ok size, packed) => z.unblock size packed

/-- The next chunk and the rest, none where no complete header is left. A chunk cut short keeps the
bytes there are. -/
def read (z : Codec) (b : Bytes) : Except ImageError (Option (Chunk × Bytes)) :=
  match header b with
  | (.error _, _) => .ok none
  | (.ok (tag, length), rest) => do
    let payload ← unpackBody z (rest.take length)
    pure (some (⟨tag, payload⟩, rest.drop length))

end Chunk

end Apiary
