import Crew.Form.Dated
import Crew.Json.Tagged
import Crew.Resolution

/-!
# The written form of results

How outcomes, results, candidates and what becomes of them are written as JSON and read again. The
members of a record stand in the order of its declaration.
-/

namespace Crew

open Json

namespace Outcome

def toJson : Outcome → Json
  | .success payload => .object [("kind", .string "success"), ("value", payload)]
  | .failure message => .object [("kind", .string "failure"), ("value", .string message)]
  | .timedOut => .object [("kind", .string "timed_out")]

def alternatives : List (String × Alternative Outcome) :=
  [("success", { content := fun ctx x => (Decoder.json ctx x).map .success }),
    ("failure", { content := fun ctx x => (Decoder.string ctx x).map .failure }),
    ("timed_out",
      { content := Decoder.noContent "unit variant Outcome::TimedOut" .timedOut,
        bare := some .timedOut })]

def decoder : Decoder Outcome :=
  Decoder.adjacent ⟨"adjacently tagged enum Outcome", "kind", "value"⟩ alternatives

end Outcome

namespace TaskResult

/-- The members of a result; `stamp` is the member that says when it was made, if it is kept. -/
def members (r : TaskResult) (stamp : Option Stamp) : List (String × Json) :=
  [("task_id", .string r.taskId), ("worker_id", .string r.workerId), ("attempt", .nat r.attempt),
    ("outcome", r.outcome.toJson)] ++ Json.memberIf "produced_at" (stamp.map (·.toJson)) ++
    [("duration_ms", .nat r.duration)]

def toJson (r : TaskResult) : Json := .object (r.members none)

def shape : RecordShape where
  title := "struct TaskResult"
  fields := ["task_id", "worker_id", "attempt", "outcome", "produced_at", "duration_ms"]

def read (m : Members) : Positioned (Dated TaskResult) :=
  (fun taskId workerId attempt outcome stamp duration =>
    ⟨{ taskId, workerId, attempt, outcome, duration }, stamp⟩) <$>
    m.required "task_id" .string <*> m.required "worker_id" .string <*>
    m.required "attempt" .u32 <*> m.required "outcome" Outcome.decoder <*>
    m.required "produced_at" Stamp.decoder <*> m.required "duration_ms" .u64

def decoder : Decoder (Dated TaskResult) := shape.decoder read

end TaskResult

def Dated.resultToJson (r : Dated TaskResult) : Json := .object (r.value.members (some r.stamp))

namespace ResolutionStrategy

def toJson (s : ResolutionStrategy) : Json := .string s.name

def names : List (String × ResolutionStrategy) := all.map fun s => (s.name, s)

def decoder : Decoder ResolutionStrategy := Decoder.variant names

end ResolutionStrategy

namespace Candidate

def toJson (c : Candidate) : Json :=
  .object [("worker_id", .string c.workerId), ("payload", c.payload),
    ("trust_weight", .real c.trustWeight)]

def shape : RecordShape where
  title := "struct Candidate"
  fields := ["worker_id", "payload", "trust_weight"]

def read (m : Members) : Positioned Candidate :=
  Candidate.mk <$> m.required "worker_id" .string <*> m.required "payload" .json <*>
    m.required "trust_weight" .f64

def decoder : Decoder Candidate := shape.decoder read

end Candidate

namespace Conflict

def toJson (c : Conflict) : Json :=
  .object [("task_id", .string c.taskId), ("strategy", c.strategy.toJson),
    ("accepted", c.accepted.toJson), ("discarded", .array (c.discarded.map (·.toJson)))]

def shape : RecordShape where
  title := "struct Conflict"
  fields := ["task_id", "strategy", "accepted", "discarded"]

def read (m : Members) : Positioned Conflict :=
  Conflict.mk <$> m.required "task_id" .string <*>
    m.required "strategy" ResolutionStrategy.decoder <*>
    m.required "accepted" Candidate.decoder <*> m.required "discarded" Candidate.decoder.list

def decoder : Decoder Conflict := shape.decoder read

end Conflict

namespace CanonicalResult

def toJson (c : CanonicalResult) : Json :=
  .object [("task_id", .string c.taskId), ("payload", c.payload),
    ("worker_id", .string c.workerId), ("strategy", c.strategy.toJson),
    ("conflict", Json.ofOption (·.toJson) c.conflict)]

def shape : RecordShape where
  title := "struct CanonicalResult"
  fields := ["task_id", "payload", "worker_id", "strategy", "conflict"]

def read (m : Members) : Positioned CanonicalResult :=
  CanonicalResult.mk <$> m.required "task_id" .string <*> m.required "payload" .json <*>
    m.required "worker_id" .string <*> m.required "strategy" ResolutionStrategy.decoder <*>
    m.nullable "conflict" Conflict.decoder

def decoder : Decoder CanonicalResult := shape.decoder read

end CanonicalResult

end Crew
