import Crew.Call
import Crew.Report
import Crew.Scaling

/-!
# Runs

A run drives one session against a registry, which it may share with other runs. This module holds
what a run is made of and what it announces; passes over the ready tasks are in `Run.Dispatch`, the
ends of calls in `Run.Complete`.
-/

namespace Crew

structure Policy where
  execution : ExecutionConfig
  retry : RetryStrategy
  resolver : Resolver

/-- `calls` are in the order of their dispatch. -/
structure Run where
  policy : Policy
  session : Session
  slots : Slots
  calls : List Call := []
  detector : ScalingDetector

namespace Run

/-- The longest wait there is, one day. -/
def waitLimit : Nat := 24 * 60 * 60 * 1000

def deadline (now wait : Nat) : Nat := now + min wait waitLimit

def withSession (run : Run) (session : Session) : Run := { run with session }

def announceEnd (run : Run) (reg : Registry) (taskId : String) (status : TaskStatus) : Registry :=
  let attempts := ((run.session.progress? taskId).map (·.attempts)).getD 0
  reg.emit (.taskResolved run.session.runId taskId status attempts)

def propagateFailures (run : Run) (reg : Registry) : Run × Registry :=
  let (session, skipped) := run.session.propagateFailures
  let run := run.withSession session
  (run, skipped.foldl (fun reg (id, _) => run.announceEnd reg id .skipped) reg)

def wakeAt (run : Run) (now : Nat) : Nat :=
  let poll := deadline now run.policy.execution.poll
  match run.session.nextExpiry with
  | some expiry => min poll expiry
  | none => poll

end Run

end Crew
