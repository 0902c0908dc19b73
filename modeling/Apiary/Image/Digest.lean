import Apiary.Image.Bytes
import Apiary.Net.Network

/-!
Digests of parameters: the bytes of all numbers in turn are mixed into one word.
-/

namespace Apiary

structure Digest where
  word : UInt64

namespace Digest

def start : Digest := ⟨0xcbf29ce484222325⟩

def addByte (d : Digest) (b : UInt8) : Digest := ⟨(d.word ^^^ b.toUInt64) * 0x100000001b3⟩

def addSingle (d : Digest) (x : Single) : Digest := (Bytes.f32 x).foldl addByte d

def addSingles (d : Digest) (xs : Array Single) : Digest := xs.foldl addSingle d

def ofLayers (layers : List Layer) : Digest :=
  layers.foldl (fun d l => (d.addSingles l.weights.data).addSingles l.bias.data) start

end Digest

end Apiary
