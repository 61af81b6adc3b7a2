import Crew.Json.Record
import Crew.Registry.Basic

/-!
# The written form of workers
-/

namespace Crew

open Json

namespace Health

def toJson (h : Health) : Json := .string h.name

def names : List (String × Health) := all.map fun h => (h.name, h)

def decoder : Decoder Health := Decoder.variant names

end Health

namespace WorkerSpec

def members (spec : WorkerSpec) : List (String × Json) :=
  [("worker_id", .string spec.workerId),
    ("capabilities", .array (spec.capabilities.map .string)),
    ("trust_weight", .real spec.trustWeight)]

def toJson (spec : WorkerSpec) : Json := .object spec.members

def shape : RecordShape where
  title := "struct WorkerSpec"
  fields := ["worker_id", "capabilities", "trust_weight"]

def read (m : Members) : Positioned WorkerSpec :=
  ofCapabilities <$> m.required "worker_id" .string <*>
    m.required "capabilities" Decoder.string.list <*> m.optional "trust_weight" .f64 1.0

def decoder : Decoder WorkerSpec := shape.decoder read

end WorkerSpec

def WorkerSnapshot.toJson (w : WorkerSnapshot) : Json :=
  .object (w.spec.members ++
    [("seq", .nat w.seq), ("load", .nat w.load), ("health", w.health.toJson),
      ("consecutive_failures", .nat w.failures)])

end Crew
