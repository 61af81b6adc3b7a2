import Crew.Run.Basic

/-!
# Dispatch

One pass over the ready tasks sends out as many of them as workers and slots allow, and counts
those that are left without a worker. A task whose capability no registered worker serves is given
up after a while.
-/

namespace Crew

structure UnavailableError where
  capability : String
  waited : Nat
  deriving DecidableEq, Repr

def UnavailableError.message (e : UnavailableError) : String :=
  "no eligible worker for capability '" ++ e.capability ++ "' after waiting " ++
    toString e.waited ++ "ms"

namespace Policy

def redundancyFor (policy : Policy) (task : Task) : Nat :=
  let n := match task.redundancy with
    | some n => n
    | none => if task.priority = .critical then policy.execution.criticalRedundancy else 1
  max n 1

/-- The workers for the next attempt: the preferred ones first, the one that failed last behind
all others. -/
def choose (policy : Policy) (task : Task) (lastFailed : Option String)
    (candidates : List WorkerSnapshot) : List WorkerSnapshot :=
  let ordered :=
    if policy.execution.retryOnDifferentWorker && 1 < candidates.length then
      match lastFailed with
      | some failed =>
        candidates.filter (·.spec.workerId ≠ failed) ++
          candidates.filter (·.spec.workerId = failed)
      | none => candidates
    else candidates
  ordered.take (policy.redundancyFor task)

end Policy

namespace Run

/-- Make the calls of one attempt until the workers or the slots run out; also how many. -/
def sendOut (task : Task) (attempt now : Nat) :
    List WorkerSnapshot → Run → Registry → Run × Registry × Nat
  | [], run, reg => (run, reg, 0)
  | worker :: rest, run, reg =>
    match run.slots.reserve with
    | none => (run, reg, 0)
    | some slots =>
      let workerId := worker.spec.workerId
      match reg.grant workerId with
      | (_, none) => sendOut task attempt now rest run reg
      | (reg, some lease) =>
        let (session, assignment) := run.session.recordDispatch task.id workerId attempt now
        let reg := reg.emit (.taskDispatched session.runId task.id workerId attempt)
        let call : Call := ⟨assignment, lease, task.payload, task.timeout⟩
        let (run, reg, sent) :=
          sendOut task attempt now rest { run with session, slots, calls := run.calls ++ [call] } reg
        (run, reg, sent + 1)

def checkUnavailable (run : Run) (reg : Registry) (task : Task) (now : Nat) :
    Run × Registry × Bool :=
  match run.session.markWaiting task.id now with
  | (session, none) => (run.withSession session, reg, false)
  | (session, some since) =>
    let waited := now - since
    if waited < run.policy.execution.unavailableTimeout then (run.withSession session, reg, false)
    else
      let error : UnavailableError := ⟨task.capability, waited⟩
      let run := run.withSession (session.fail task.id error.message)
      (run, run.announceEnd reg task.id .permanentlyFailed, true)

def dispatchTask (run : Run) (reg : Registry) (task : Task) (now : Nat) : Run × Registry × Bool :=
  match reg.selectFor task.capability now with
  | (reg, []) =>
    if reg.covers task.capability then
      (run.withSession (run.session.clearWaiting task.id), reg, true)
    else
      let (run, reg, failed) := run.checkUnavailable reg task now
      (run, reg, !failed)
  | (reg, candidates) =>
    let run := run.withSession (run.session.clearWaiting task.id)
    if run.slots.free = 0 then (run, reg, true)
    else
      let lastFailed := (run.session.progress? task.id).bind (·.lastFailedWorker)
      let workers := run.policy.choose task lastFailed candidates
      match run.session.beginAttempt task.id with
      | (_, none) => (run, reg, false)
      | (session, some attempt) =>
        let (run, reg, sent) := sendOut task attempt now workers (run.withSession session) reg
        if sent = 0 then (run.withSession (run.session.abortAttempt task.id), reg, true)
        else (run, reg, false)

def dispatchAll (now : Nat) : List Task → Run → Registry → Run × Registry × Nat
  | [], run, reg => (run, reg, 0)
  | task :: rest, run, reg =>
    let (run, reg, waits) := run.dispatchTask reg task now
    let (run, reg, left) := dispatchAll now rest run reg
    (run, reg, if waits then left + 1 else left)

/-- Send out the ready tasks. The trust table is brought up to date whenever there are any. -/
def dispatchReady (run : Run) (reg : Registry) (now : Nat) : Run × Registry × Nat :=
  match run.session.readyTasks with
  | [] => (run, reg, 0)
  | ready => dispatchAll now ready (run.withSession (run.session.refreshTrust reg.trustTable)) reg

def observeScaling (run : Run) (reg : Registry) (waiting now : Nat) : Run × Registry :=
  let (reg, healthy) := reg.healthyCount now
  let (detector, signal) := run.detector.observe waiting healthy now
  let run := { run with detector }
  let runId := run.session.runId
  match signal with
  | none => (run, reg)
  | some (.up ratio) => (run, reg.emit (.scaleUpRequested runId ratio waiting healthy))
  | some (.down ratio) => (run, reg.emit (.scaleDownRequested runId ratio waiting healthy))

/-- One pass: skip what cannot be run, end the backoffs that have expired, send out what is ready,
and skip what has failed meanwhile. -/
def pass (run : Run) (reg : Registry) (now : Nat) : Run × Registry :=
  let (run, reg) := run.propagateFailures reg
  let run := run.withSession (run.session.releaseBackoffs now).1
  let (run, reg, waiting) := run.dispatchReady reg now
  let (run, reg) := run.propagateFailures reg
  run.observeScaling reg waiting now

end Run

end Crew
