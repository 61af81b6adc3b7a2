import Crew.Event.Basic
import Crew.Session.Basic

/-!
# Reports

What a session amounts to: an entry for every task in the order of submission, and their summary.
-/

namespace Crew

structure TaskReport where
  taskId : String
  status : TaskStatus
  payload : Option Json := none
  error : Option String := none
  skipReason : Option SkipReason := none
  attempts : Nat
  workerId : Option String := none
  resolution : Option ResolutionStrategy := none
  conflict : Option Conflict := none
  deriving DecidableEq, Repr

/-- `resolutions` counts the resolved tasks by strategy, in the order of the strategies and without
those that were not used. `averageTask` is the mean duration of all results. -/
structure ReportSummary where
  totalTasks : Nat := 0
  succeeded : Nat := 0
  permanentlyFailed : Nat := 0
  skipped : Nat := 0
  totalAttempts : Nat := 0
  totalRetries : Nat := 0
  conflicts : Nat := 0
  resolutions : List (ResolutionStrategy × Nat) := []
  averageTask : Nat := 0
  peakInFlight : Nat := 0
  duration : Nat := 0
  deriving DecidableEq, Repr

structure Report where
  runId : String
  entries : List TaskReport
  summary : ReportSummary
  cancelled : Bool
  deriving DecidableEq, Repr

namespace TaskReport

/-- A task that was neither completed nor given up counts as skipped. -/
def statusOf : TaskState → TaskStatus
  | .succeeded => .success
  | .permanentlyFailed => .permanentlyFailed
  | _ => .skipped

def ofProgress (id : String) (p : Progress) : TaskReport :=
  let status := statusOf p.state
  { taskId := id
    status
    payload := p.canonical.map (·.payload)
    error := if status = .success then none else p.error
    skipReason := p.skipReason
    attempts := p.attempts
    workerId := p.canonical.map (·.workerId)
    resolution := p.canonical.map (·.strategy)
    conflict := p.canonical.bind (·.conflict) }

end TaskReport

namespace Report

/-- The sum of the durations, unless it overflows a word of 64 bits on the way. -/
def totalDuration (results : List TaskResult) : Option Nat :=
  results.foldlM (fun sum r =>
    if sum + r.duration < Nat.pow 2 64 then some (sum + r.duration) else none) 0

def averageDuration (results : List TaskResult) : Option Nat :=
  (totalDuration results).map (· / results.length)

def countStatus (entries : List TaskReport) (status : TaskStatus) : Nat :=
  (entries.filter (·.status = status)).length

def countResolutions (entries : List TaskReport) : List (ResolutionStrategy × Nat) :=
  (ResolutionStrategy.all.map fun strategy =>
    (strategy, (entries.filter (·.resolution = some strategy)).length)).filter (·.2 ≠ 0)

/-- What the report of a session says, if there is one (`aggregate`). -/
def ofSession (s : Session) : Report :=
  let rows := s.graph.ids.filterMap fun id => (s.progress? id).map fun p => (id, p)
  let entries := rows.map fun (id, p) => TaskReport.ofProgress id p
  { runId := s.runId
    entries
    cancelled := s.cancelled
    summary := {
      totalTasks := s.graph.size
      succeeded := countStatus entries .success
      permanentlyFailed := countStatus entries .permanentlyFailed
      skipped := countStatus entries .skipped
      totalAttempts := rows.foldl (fun sum row => sum + row.2.attempts) 0
      totalRetries := rows.foldl (fun sum row => sum + row.2.retriesUsed) 0
      conflicts := (entries.filter (·.conflict.isSome)).length
      resolutions := countResolutions entries
      averageTask := (averageDuration s.results).getD 0
      peakInFlight := s.peakInFlight
      duration := s.duration } }

/-- The report of a session. There is none where the durations of its results overflow. -/
def aggregate (s : Session) : Option Report :=
  (averageDuration s.results).map fun _ => ofSession s

def entry? (r : Report) (taskId : String) : Option TaskReport :=
  r.entries.find? (·.taskId = taskId)

def allSucceeded (r : Report) : Bool :=
  !r.cancelled && r.summary.succeeded == r.summary.totalTasks

def conflicts (r : Report) : List Conflict := r.entries.filterMap (·.conflict)

end Report

end Crew
