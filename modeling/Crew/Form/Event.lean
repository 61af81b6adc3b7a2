import Crew.Event.Basic
import Crew.Form.Dated
import Crew.Json.Tagged

/-!
# The written form of events

An event is written with its kind as a tag, the run it belongs to if there is one, its own fields
and its timestamp.
-/

namespace Crew

open Json

namespace TaskStatus

def toJson (s : TaskStatus) : Json := .string s.name

def names : List (String × TaskStatus) := all.map fun s => (s.name, s)

def decoder : Decoder TaskStatus := Decoder.variant names

end TaskStatus

namespace Event

def runId? : Event → Option String
  | .runStarted runId .. | .taskDispatched runId .. | .taskRetryScheduled runId ..
  | .taskResolved runId .. | .scaleUpRequested runId .. | .scaleDownRequested runId ..
  | .runFinished runId .. => some runId
  | .circuitOpened .. | .circuitClosed .. => none

def details : Event → List (String × Json)
  | .runStarted _ totalTasks slots => [("total_tasks", .nat totalTasks), ("slots", .nat slots)]
  | .taskDispatched _ taskId workerId attempt =>
    [("task_id", .string taskId), ("worker_id", .string workerId), ("attempt", .nat attempt)]
  | .taskRetryScheduled _ taskId attempt delay error =>
    [("task_id", .string taskId), ("attempt", .nat attempt), ("delay_ms", .nat delay),
      ("error", .string error)]
  | .taskResolved _ taskId status attempts =>
    [("task_id", .string taskId), ("status", status.toJson), ("attempts", .nat attempts)]
  | .scaleUpRequested _ ratio ready healthy | .scaleDownRequested _ ratio ready healthy =>
    [("ratio", .real ratio), ("ready_tasks", .nat ready), ("healthy_workers", .nat healthy)]
  | .circuitOpened workerId failures =>
    [("worker_id", .string workerId), ("consecutive_failures", .nat failures)]
  | .circuitClosed workerId => [("worker_id", .string workerId)]
  | .runFinished _ duration cancelled =>
    [("duration_ms", .nat duration), ("cancelled", .bool cancelled)]

def tag (e : Event) : String × Json := ("type", .string e.kind)

def toJson (e : Event) : Json := .object (e.tag :: e.details)

def alternative (kind title : String) (fields : List String)
    (read : Members → Positioned Event) : String × Decoder (Dated Event) :=
  let shape : RecordShape :=
    { title := "struct variant SwarmEvent::" ++ title, fields := fields ++ ["timestamp"] }
  (kind, shape.decoder fun m =>
    (fun e stamp => ⟨e, stamp⟩) <$> read m <*> m.required "timestamp" Stamp.decoder)

def alternatives : List (String × Decoder (Dated Event)) :=
  [alternative "run_started" "RunStarted" ["run_id", "total_tasks", "slots"] fun m =>
      runStarted <$> m.required "run_id" .string <*> m.required "total_tasks" .usize <*>
        m.required "slots" .usize,
    alternative "task_dispatched" "TaskDispatched" ["run_id", "task_id", "worker_id", "attempt"]
      fun m =>
        taskDispatched <$> m.required "run_id" .string <*> m.required "task_id" .string <*>
          m.required "worker_id" .string <*> m.required "attempt" .u32,
    alternative "task_retry_scheduled" "TaskRetryScheduled"
      ["run_id", "task_id", "attempt", "delay_ms", "error"] fun m =>
        taskRetryScheduled <$> m.required "run_id" .string <*> m.required "task_id" .string <*>
          m.required "attempt" .u32 <*> m.required "delay_ms" .u64 <*>
          m.required "error" .string,
    alternative "task_resolved" "TaskResolved" ["run_id", "task_id", "status", "attempts"] fun m =>
      taskResolved <$> m.required "run_id" .string <*> m.required "task_id" .string <*>
        m.required "status" TaskStatus.decoder <*> m.required "attempts" .u32,
    alternative "scale_up_requested" "ScaleUpRequested"
      ["run_id", "ratio", "ready_tasks", "healthy_workers"] fun m =>
        scaleUpRequested <$> m.required "run_id" .string <*> m.required "ratio" .f64 <*>
          m.required "ready_tasks" .usize <*> m.required "healthy_workers" .usize,
    alternative "scale_down_requested" "ScaleDownRequested"
      ["run_id", "ratio", "ready_tasks", "healthy_workers"] fun m =>
        scaleDownRequested <$> m.required "run_id" .string <*> m.required "ratio" .f64 <*>
          m.required "ready_tasks" .usize <*> m.required "healthy_workers" .usize,
    alternative "circuit_opened" "CircuitOpened" ["worker_id", "consecutive_failures"] fun m =>
      circuitOpened <$> m.required "worker_id" .string <*>
        m.required "consecutive_failures" .u32,
    alternative "circuit_closed" "CircuitClosed" ["worker_id"] fun m =>
      circuitClosed <$> m.required "worker_id" .string,
    alternative "run_finished" "RunFinished" ["run_id", "duration_ms", "cancelled"] fun m =>
      runFinished <$> m.required "run_id" .string <*> m.required "duration_ms" .u64 <*>
        m.required "cancelled" .bool]

def decoder : Decoder (Dated Event) :=
  Decoder.tagged "internally tagged enum SwarmEvent" "type" alternatives

end Event

def Dated.eventToJson (e : Dated Event) : Json :=
  .object (e.value.tag :: Json.memberIf "run_id" (e.value.runId?.map .string) ++
    e.value.details ++ [("timestamp", e.stamp.toJson)])

end Crew
