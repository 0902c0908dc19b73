import Apiary.Service.Basic
import Apiary.Wire.Event

/-!
What clients see of a service, as data.
-/

namespace Apiary.ServiceStatus

def toJson (s : ServiceStatus) : Json :=
  .obj [("state", .str s.phase.name), ("run_id", .ofNat s.run),
    ("source", Json.ofOption (s.source.map .str)),
    ("pending", .arr (s.pending.map Prompt.toJson))]

end Apiary.ServiceStatus
