import Crew.Form.Event
import Crew.Form.Result
import Crew.Report

/-!
# The written form of reports

What a report says nothing about is left out of its entries.
-/

namespace Crew

open Json

namespace SkipReason

def toJson : SkipReason → Json
  | .dependencyFailed dependency =>
    .object [("kind", .string "upstream_failure"), ("dependency", .string dependency)]
  | .cancelled => .object [("kind", .string "cancelled")]

def failureShape : RecordShape where
  title := "struct variant SkipReason::UpstreamFailure"
  fields := ["dependency"]

def decoder : Decoder SkipReason :=
  Decoder.tagged "internally tagged enum SkipReason" "kind"
    [("upstream_failure",
      failureShape.decoder fun m => dependencyFailed <$> m.required "dependency" .string),
      ("cancelled", Decoder.noFields .cancelled)]

end SkipReason

namespace TaskReport

def toJson (r : TaskReport) : Json :=
  .object ([("task_id", .string r.taskId), ("status", r.status.toJson)] ++
    Json.memberIf "payload" r.payload ++
    Json.memberIf "error" (r.error.map .string) ++
    Json.memberIf "skip_reason" (r.skipReason.map (·.toJson)) ++
    [("attempts", .nat r.attempts)] ++
    Json.memberIf "worker_id" (r.workerId.map .string) ++
    Json.memberIf "resolution" (r.resolution.map (·.toJson)) ++
    Json.memberIf "conflict" (r.conflict.map (·.toJson)))

def shape : RecordShape where
  title := "struct TaskReport"
  fields := ["task_id", "status", "payload", "error", "skip_reason", "attempts", "worker_id",
    "resolution", "conflict"]

def read (m : Members) : Positioned TaskReport :=
  TaskReport.mk <$> m.required "task_id" .string <*> m.required "status" TaskStatus.decoder <*>
    m.optional "payload" Decoder.json.option none <*>
    m.optional "error" Decoder.string.option none <*>
    m.optional "skip_reason" SkipReason.decoder.option none <*>
    m.required "attempts" .u32 <*>
    m.optional "worker_id" Decoder.string.option none <*>
    m.optional "resolution" ResolutionStrategy.decoder.option none <*>
    m.optional "conflict" Conflict.decoder.option none

def decoder : Decoder TaskReport := shape.decoder read

end TaskReport

namespace ReportSummary

def countsToJson (counts : List (ResolutionStrategy × Nat)) : Json :=
  .object (counts.map fun (s, n) => (s.name, .nat n))

/-- The last count of each strategy, in the order of the strategies. -/
def arrange (rows : List (ResolutionStrategy × Nat)) : List (ResolutionStrategy × Nat) :=
  ResolutionStrategy.all.filterMap fun s => (rows.reverse.lookup s).map fun n => (s, n)

def countsDecoder : Decoder (List (ResolutionStrategy × Nat)) := fun ctx x =>
  (Decoder.map (Decoder.named ResolutionStrategy.names) Decoder.usize ctx x).map arrange

def toJson (s : ReportSummary) : Json :=
  .object [("total_tasks", .nat s.totalTasks), ("succeeded", .nat s.succeeded),
    ("permanently_failed", .nat s.permanentlyFailed), ("skipped", .nat s.skipped),
    ("total_attempts", .nat s.totalAttempts), ("total_retries", .nat s.totalRetries),
    ("conflicts", .nat s.conflicts), ("resolutions", countsToJson s.resolutions),
    ("average_task_ms", .nat s.averageTask), ("peak_in_flight", .nat s.peakInFlight),
    ("duration_ms", .nat s.duration)]

def shape : RecordShape where
  title := "struct ReportSummary"
  fields := ["total_tasks", "succeeded", "permanently_failed", "skipped", "total_attempts",
    "total_retries", "conflicts", "resolutions", "average_task_ms", "peak_in_flight",
    "duration_ms"]

def read (m : Members) : Positioned ReportSummary :=
  ReportSummary.mk <$> m.required "total_tasks" .usize <*> m.required "succeeded" .usize <*>
    m.required "permanently_failed" .usize <*> m.required "skipped" .usize <*>
    m.required "total_attempts" .u64 <*> m.required "total_retries" .u64 <*>
    m.required "conflicts" .usize <*> m.optional "resolutions" countsDecoder [] <*>
    m.optional "average_task_ms" .u64 0 <*> m.required "peak_in_flight" .usize <*>
    m.required "duration_ms" .u64

def decoder : Decoder ReportSummary := shape.decoder read

end ReportSummary

namespace Report

/-- The members of a report; the run's id is the first of them, if it is kept. -/
def members (r : Report) (runId : Option String) : List (String × Json) :=
  Json.memberIf "run_id" (runId.map .string) ++
    [("entries", .array (r.entries.map (·.toJson))), ("summary", r.summary.toJson),
      ("cancelled", .bool r.cancelled)]

def toJson (r : Report) : Json := .object (r.members (some r.runId))

def shape : RecordShape where
  title := "struct SwarmReport"
  fields := ["run_id", "entries", "summary", "cancelled"]

def read (m : Members) : Positioned Report :=
  Report.mk <$> m.required "run_id" .string <*> m.required "entries" TaskReport.decoder.list <*>
    m.required "summary" ReportSummary.decoder <*> m.required "cancelled" .bool

def decoder : Decoder Report := shape.decoder read

end Report

end Crew
