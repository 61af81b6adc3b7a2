/-!
# Events

What a run announces, in the order in which it happens. Events of a run carry its id; events of a
breaker carry the worker only.
-/

namespace Crew

inductive TaskStatus where
  | success
  | permanentlyFailed
  | skipped
  deriving DecidableEq, Repr

namespace TaskStatus

def name : TaskStatus → String
  | .success => "success"
  | .permanentlyFailed => "permanently_failed"
  | .skipped => "skipped"

def all : List TaskStatus := [.success, .permanentlyFailed, .skipped]

end TaskStatus

inductive Event where
  | runStarted (runId : String) (totalTasks slots : Nat)
  | taskDispatched (runId taskId workerId : String) (attempt : Nat)
  | taskRetryScheduled (runId taskId : String) (attempt delay : Nat) (error : String)
  | taskResolved (runId taskId : String) (status : TaskStatus) (attempts : Nat)
  | scaleUpRequested (runId : String) (ratio : Float) (readyTasks healthyWorkers : Nat)
  | scaleDownRequested (runId : String) (ratio : Float) (readyTasks healthyWorkers : Nat)
  | circuitOpened (workerId : String) (consecutiveFailures : Nat)
  | circuitClosed (workerId : String)
  | runFinished (runId : String) (duration : Nat) (cancelled : Bool)
  deriving DecidableEq, Repr

namespace Event

def kind : Event → String
  | .runStarted .. => "run_started"
  | .taskDispatched .. => "task_dispatched"
  | .taskRetryScheduled .. => "task_retry_scheduled"
  | .taskResolved .. => "task_resolved"
  | .scaleUpRequested .. => "scale_up_requested"
  | .scaleDownRequested .. => "scale_down_requested"
  | .circuitOpened .. => "circuit_opened"
  | .circuitClosed .. => "circuit_closed"
  | .runFinished .. => "run_finished"

def taskId? : Event → Option String
  | .taskDispatched _ taskId _ _ | .taskRetryScheduled _ taskId _ _ _
  | .taskResolved _ taskId _ _ => some taskId
  | _ => none

end Event

end Crew
