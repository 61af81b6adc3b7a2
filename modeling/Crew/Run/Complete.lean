import Crew.Run.Basic

/-!
# The ends of calls

When the last call of an attempt is back, the attempt is resolved: a canonical result ends the
task, and an attempt without one is tried again after a while or fails the task.
-/

namespace Crew.Run

def attemptError (results : List TaskResult) : String :=
  String.intercalate "; " (results.filterMap (·.error?))

/-- Settle an attempt all of whose calls are back. -/
def closeAttempt (run : Run) (reg : Registry) (taskId : String) (results : List TaskResult)
    (now : Nat) : Run × Registry :=
  match run.policy.resolver.resolve taskId results run.session.trust with
  | some canonical =>
    let run := run.withSession (run.session.succeed taskId canonical)
    (run, run.announceEnd reg taskId .success)
  | none =>
    match run.session.graph.get? taskId with
    | none => (run, reg)
    | some task =>
      let error := attemptError results
      let failedWorker := results.getLast?.map (·.workerId)
      let attempts := ((run.session.progress? taskId).map (·.attempts)).getD 0
      let used := ((run.session.progress? taskId).map (·.retriesUsed)).getD 0
      match run.policy.retry.decide used task.maxRetries error with
      | some delay =>
        let session := run.session.backOff taskId (deadline now delay) failedWorker error
        (run.withSession session,
          reg.emit (.taskRetryScheduled session.runId taskId (attempts + 1) delay error))
      | none =>
        let run := run.withSession (run.session.fail taskId error)
        (run, run.announceEnd reg taskId .permanentlyFailed)

def account (run : Run) (reg : Registry) (assignmentId : Nat) (completion : Completion)
    (now : Nat) : Run × Registry :=
  match run.session.settle assignmentId completion.result? now with
  | (session, .closed taskId results) =>
    (run.withSession session).closeAttempt reg taskId results now
  | (session, _) => (run.withSession session, reg)

/-- A call ends with an outcome, unless its worker has left or the run was cancelled meanwhile. -/
def complete (run : Run) (reg : Registry) (assignmentId : Nat) (cancelled : Bool)
    (outcome : Outcome) (now : Nat) : Run × Registry :=
  match run.calls.find? (·.assignment.id = assignmentId) with
  | none => (run, reg)
  | some call =>
    let (completion, reg, slots) := call.conclude cancelled outcome now reg run.slots
    let calls := run.calls.filter (·.assignment.id ≠ assignmentId)
    account { run with calls, slots } reg assignmentId completion now

/-- Cancel a run: its calls are abandoned and what has not ended is skipped. -/
def cancel (run : Run) (reg : Registry) : Run × Registry :=
  let (reg, slots) := run.calls.foldl (fun (reg, slots) call => call.release reg slots)
    (reg, run.slots)
  ({ run with session := run.session.cancel, calls := [], slots }, reg)

end Crew.Run
