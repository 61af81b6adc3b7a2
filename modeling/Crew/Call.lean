import Crew.Concurrency
import Crew.Registry.Basic
import Crew.Session.Progress

/-!
# Calls

A call is an assignment under way: it holds a slot of its run and counts against the load of its
worker. However it ends, both are given back. Its outcome reaches the worker's breaker only if the
run still goes on and the worker is still registered as it was when the call was made.
-/

namespace Crew

inductive Answer where
  | success (payload : Json)
  | failure (message : String)
  | panic
  deriving DecidableEq, Repr

def Answer.outcome (workerId : String) : Answer → Outcome
  | .success payload => .success payload
  | .failure message => .failure (CallError.failed workerId message).message
  | .panic => .failure (CallError.panicked workerId).message

structure Call where
  assignment : Assignment
  lease : Lease
  payload : Json
  timeout : Nat
  deriving DecidableEq, Repr

/-- How a call ended for its run. `revoked` calls lost their worker, `abandoned` ones their run. -/
inductive Completion where
  | finished (result : TaskResult)
  | revoked
  | abandoned
  deriving DecidableEq, Repr

def Completion.result? : Completion → Option TaskResult
  | .finished result => some result
  | .revoked | .abandoned => none

namespace Call

def deadline (call : Call) : Nat := call.assignment.startedAt + call.timeout

def result (call : Call) (outcome : Outcome) (now : Nat) : TaskResult :=
  let a := call.assignment
  { taskId := a.taskId, workerId := a.workerId, attempt := a.attempt, outcome,
    duration := now - a.startedAt }

def release (call : Call) (reg : Registry) (slots : Slots) : Registry × Slots :=
  (reg.release call.lease, slots.release)

/-- End a call with an outcome. Cancellation comes before revocation, and both before the
outcome. -/
def conclude (call : Call) (cancelled : Bool) (outcome : Outcome) (now : Nat) (reg : Registry)
    (slots : Slots) : Completion × Registry × Slots :=
  if cancelled then (.abandoned, call.release reg slots)
  else if reg.isRevoked call.lease then (.revoked, call.release reg slots)
  else
    let reg := (reg.reportOutcome call.assignment.workerId outcome.isSuccess now).1
    (.finished (call.result outcome now), call.release reg slots)

/-- Whether anybody has begun to wait for a call. -/
inductive Stage where
  | prepared
  | underway
  deriving DecidableEq, Repr

/-- Drop a call without waiting for its end. Only who waits for a call takes charge of its load;
before that only the slot comes back. -/
def drop (call : Call) (stage : Stage) (reg : Registry) (slots : Slots) : Registry × Slots :=
  match stage with
  | .prepared => (reg, slots.release)
  | .underway => call.release reg slots

end Call

end Crew
