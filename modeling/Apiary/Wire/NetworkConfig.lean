import Apiary.Wire.Record
import Apiary.Net.Network

/-!
Network configurations as data.
-/

namespace Apiary.NetworkConfig

def ofJson? (j : Json) : Option NetworkConfig := do
  match ← j.record? ["in", "out", "hidden", "capacity", "plasticity"] with
  | [inputs, outputs, hidden, capacity, plasticity] =>
    let d : NetworkConfig := {}
    let inputs ← Json.withDefault? d.inputs (Json.word? 64) inputs
    let outputs ← Json.withDefault? d.outputs (Json.word? 64) outputs
    let hidden ← Json.withDefault? d.hidden (Json.word? 64) hidden
    let capacity ← Json.withDefault? d.capacity Json.double? capacity
    let plasticity ← Json.withDefault? d.plasticity Json.single? plasticity
    some ⟨inputs, outputs, hidden, capacity, plasticity⟩
  | _ => none

def toJson (c : NetworkConfig) : Json :=
  .obj [("in", .ofNat c.inputs), ("out", .ofNat c.outputs), ("hidden", .ofNat c.hidden),
    ("capacity", .float c.capacity), ("plasticity", .float (Single.widen c.plasticity))]

end Apiary.NetworkConfig
