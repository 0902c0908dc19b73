import Apiary.Image.Chunk
import Apiary.Net.Network
import Apiary.Json.Printer

/-!
Model images: a magic word, a version and chunks. One chunk holds a network's numbers, another its memory
and goal as data text; chunks with other tags are passed over, and the last of each kind counts.
-/

namespace Apiary

namespace NetworkImage

def magic : Bytes := Bytes.ofText "GOOBER01"

def version : Nat := 1

def networkTag : Bytes := Bytes.ofText "NETW"

def memoryTag : Bytes := Bytes.ofText "LTM0"

def writeEntries (data : Array Single) : Except ImageError Bytes := do
  pure ((← Bytes.length32 data.size) ++ data.toList.flatMap Bytes.f32)

def writeLayer (l : Layer) : Except ImageError Bytes := do
  let inputs ← Bytes.length32 l.inputs
  let outputs ← Bytes.length32 l.outputs
  let weights ← writeEntries l.weights.data
  let bias ← writeEntries l.bias.data
  pure (inputs ++ outputs ++ weights ++ bias)

def writeLayers : List Layer → Except ImageError Bytes
  | [] => .ok []
  | l :: rest => do
    let first ← writeLayer l
    let others ← writeLayers rest
    pure (first ++ others)

def writeNetwork (n : Network) : Except ImageError Bytes := do
  let name ← Bytes.text n.name
  let count ← Bytes.length32 n.layers.length
  let layers ← writeLayers n.layers
  pure (name ++ Bytes.f32 n.plasticity ++ Bytes.f32 n.satisfaction
    ++ Bytes.u64 n.capacity.bits.toNat ++ Bytes.u64 n.lastExpansion
    ++ Bytes.u64 n.generator.state.toNat ++ count ++ layers)

def readEntries : ByteReader (Array Single) := do
  let n ← ByteReader.u32
  ByteReader.repeated ByteReader.f32 n #[]

def readLayer : ByteReader Layer := do
  let inputs ← ByteReader.u32
  let outputs ← ByteReader.u32
  let weights ← readEntries
  match Tensor.ofEntries [inputs, outputs] weights with
  | .error _ => ByteReader.fail .weightsMismatch
  | .ok weights =>
    let bias ← readEntries
    match Tensor.ofEntries [outputs] bias with
    | .error _ => ByteReader.fail .biasMismatch
    | .ok bias =>
      match Layer.ofParts weights bias with
      | .error _ => ByteReader.fail .malformedLayer
      | .ok layer => pure layer

def chains : List Layer → Bool
  | [] => true
  | [_] => true
  | l :: m :: rest => l.outputs = m.inputs && chains (m :: rest)

def readNetwork : ByteReader Network := do
  let name ← ByteReader.text
  let plasticity ← ByteReader.f32
  let satisfaction ← ByteReader.f32
  let capacity ← ByteReader.u64
  let lastExpansion ← ByteReader.u64
  let state ← ByteReader.u64
  let count ← ByteReader.u32
  if count = 0 then ByteReader.fail .noLayers
  else
    let layers ← ByteReader.repeated readLayer count #[]
    if chains layers.toList then
      pure { Network.ofLayers name layers.toList (Prng.ofSeed (UInt64.ofNat state)) with
        plasticity := plasticity
        satisfaction := satisfaction
        capacity := ⟨UInt64.ofNat capacity⟩
        lastExpansion := lastExpansion }
    else ByteReader.fail .brokenChain

def memoryJson (memory : List (String × Json)) : Json :=
  .arr (memory.map fun (key, value) => .arr [.str key, value])

def writeMemory (n : Network) : Except ImageError Bytes := do
  let memory ← Bytes.text (memoryJson n.memory).text
  let goal ← Bytes.text (n.goal.getD .null).text
  pure (memory ++ goal)

def memoryEntry? : Json → Option (String × Json)
  | .arr [.str key, value] => some (key, value)
  | _ => none

def memoryOfJson? : Json → Option (List (String × Json))
  | .arr items => items.mapM memoryEntry?
  | _ => none

def goalOfJson : Json → Option Json
  | .null => none
  | j => some j

def orFail {α : Type} (e : ImageError) : Option α → ByteReader α
  | some a => pure a
  | none => ByteReader.fail e

def readMemory (z : Codec) : ByteReader (List (String × Json) × Option Json) := do
  let memory ← ByteReader.text
  let memory ← orFail .badMemory ((z.ofText? memory).bind memoryOfJson?)
  let goal ← ByteReader.text
  let goal ← orFail .badMemory (z.ofText? goal)
  pure (memory, goalOfJson goal)

def withMemory (n : Network) (memory : List (String × Json)) (goal : Option Json) : Network :=
  { memory.foldl (fun n (key, value) => n.remember key value) n with goal := goal }

def write (n : Network) (pack : Bytes → Bytes) : Except ImageError Bytes := do
  let network ← Chunk.toBytes ⟨networkTag, ← writeNetwork n⟩ pack
  let memory ← Chunk.toBytes ⟨memoryTag, ← writeMemory n⟩ pack
  pure (magic ++ Bytes.u32 version ++ network ++ memory)

structure Contents where
  network : Option Network
  memory : Option Bytes

def Contents.add (c : Contents) (chunk : Chunk) : Except ImageError Contents :=
  if chunk.tag = networkTag then do
    let n ← (readNetwork chunk.payload).1
    pure { c with network := some n }
  else if chunk.tag = memoryTag then .ok { c with memory := some chunk.payload }
  else .ok c

def readContents (z : Codec) : Nat → Contents → Bytes → Except ImageError Contents
  | 0, c, _ => .ok c
  | n + 1, c, b => do
    match ← Chunk.read z b with
    | none => pure c
    | some (chunk, rest) =>
      let c ← c.add chunk
      readContents z n c rest

def Contents.finish (z : Codec) (c : Contents) : Except ImageError Network :=
  match c.network with
  | none => .error .missingNetwork
  | some n =>
    match c.memory with
    | none => .ok n
    | some b => do
      let (memory, goal) ← (readMemory z b).1
      pure (withMemory n memory goal)

def body : ByteReader Bytes := do
  let m ← ByteReader.take 8
  if m = magic then
    let v ← ByteReader.u32
    if v = version then fun b => (.ok b, []) else ByteReader.fail .badVersion
  else ByteReader.fail .badMagic

def read (z : Codec) (b : Bytes) : Except ImageError Network := do
  let chunks ← (body b).1
  let c ← readContents z (chunks.length + 1) ⟨none, none⟩ chunks
  c.finish z

end NetworkImage

end Apiary
