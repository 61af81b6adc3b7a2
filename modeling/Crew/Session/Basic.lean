import Crew.Graph.Layers
import Crew.Session.Progress

/-!
# Sessions

The books of one run: the progress of every task, the calls in flight and the results that came
back. A session knows no workers and no clock; whoever drives it says what happened and when.
-/

namespace Crew

/-- What the end of a call means for its task. A call that the session does not know is stale.
`requeued` tasks lost every call of their attempt to departed workers. -/
inductive Settled where
  | stale
  | waiting
  | requeued (taskId : String)
  | closed (taskId : String) (results : List TaskResult)
  deriving DecidableEq, Repr

/-- `order` lists the tasks so that each stands behind its dependencies. `lastAssignment` is the
number of the latest call, `results` hold all results in the order of arrival. -/
structure Session where
  runId : String
  graph : TaskGraph
  order : List String
  trust : TrustTable
  progress : Table String Progress
  inFlight : List Assignment := []
  results : List TaskResult := []
  lastAssignment : Nat := 0
  firstDispatch : Option Nat := none
  lastCompletion : Option Nat := none
  peakInFlight : Nat := 0
  cancelled : Bool := false
  deriving DecidableEq, Repr

namespace Session

def start (runId : String) (graph : TaskGraph) (trust : TrustTable) : Session where
  runId := runId
  graph := graph
  order := graph.order
  trust := trust
  progress := ⟨graph.ids.map fun id => (id, {})⟩

def progress? (s : Session) (id : String) : Option Progress := s.progress.get? id

def state? (s : Session) (id : String) : Option TaskState := (s.progress? id).map (·.state)

def update (s : Session) (id : String) (f : Progress → Progress) : Session :=
  { s with progress := s.progress.modify id f }

theorem progress?_update (s : Session) (id other : String) (f : Progress → Progress) :
    (s.update id f).progress? other =
      if other = id then (s.progress? other).map f else s.progress? other :=
  s.progress.get?_modify id other f

def isFinished (s : Session) : Bool := s.progress.values.all (·.state.isTerminal)

/-- From the first call to the last result. -/
def duration (s : Session) : Nat :=
  match s.firstDispatch, s.lastCompletion with
  | some first, some last => last - first
  | _, _ => 0

/-- Bring the trust table up to date. Workers that have left meanwhile keep their entries. -/
def refreshTrust (s : Session) (latest : TrustTable) : Session :=
  { s with trust := s.trust.merge latest }

def isReady (s : Session) (task : Task) : Bool :=
  s.state? task.id = some .pending &&
    task.dependencies.all fun dep => s.state? dep = some .succeeded

def readyTasks (s : Session) : List Task := (s.graph.tasks.filter s.isReady).mergeSort Task.precedes

def failedDependency? (s : Session) (id : String) : Option String :=
  (s.graph.dependencies id).find? fun dep =>
    s.state? dep = some .permanentlyFailed || s.state? dep = some .skipped

def skipDownstream (s : Session) : List String → Session × List (String × String)
  | [] => (s, [])
  | id :: rest =>
    if s.state? id = some .pending then
      match s.failedDependency? id with
      | some dep =>
        let (s, skipped) := skipDownstream (s.update id (·.skip dep)) rest
        (s, (id, dep) :: skipped)
      | none => skipDownstream s rest
    else skipDownstream s rest

/-- Skip every task that can no longer be run, each with the dependency that is to blame. -/
def propagateFailures (s : Session) : Session × List (String × String) :=
  s.skipDownstream s.order

def isExpired (now : Nat) (p : Progress) : Bool :=
  match p.state with
  | .backoff expiry => expiry ≤ now
  | _ => false

def releaseBackoffs (s : Session) (now : Nat) : Session × List String :=
  ({ s with progress := s.progress.map (·.release now) },
    TaskGraph.ascending ((s.progress.rows.filter (isExpired now ·.2)).map (·.1)))

def nextExpiry (s : Session) : Option Nat :=
  (s.progress.values.filterMap fun p =>
    match p.state with
    | .backoff expiry => some expiry
    | _ => none).min?

def markWaiting (s : Session) (id : String) (now : Nat) : Session × Option Nat :=
  match s.progress? id with
  | none => (s, none)
  | some p =>
    let since := p.pendingSince.getD now
    (s.update id fun p => { p with pendingSince := some since }, some since)

def clearWaiting (s : Session) (id : String) : Session :=
  s.update id fun p => { p with pendingSince := none }

def beginAttempt (s : Session) (id : String) : Session × Option Nat :=
  (s.update id (·.begin), (s.progress? id).map (·.attempts + 1))

def abortAttempt (s : Session) (id : String) : Session := s.update id (·.abort)

def recordDispatch (s : Session) (taskId workerId : String) (attempt now : Nat) :
    Session × Assignment :=
  let assignment : Assignment := ⟨s.lastAssignment + 1, taskId, workerId, attempt, now⟩
  let s := s.update taskId fun p => { p with outstanding := p.outstanding + 1 }
  let inFlight := s.inFlight ++ [assignment]
  ({ s with
      lastAssignment := assignment.id
      inFlight
      peakInFlight := max s.peakInFlight inFlight.length
      firstDispatch := some (s.firstDispatch.getD now) }, assignment)

/-- A call has ended, with a result or with its worker gone. -/
def settle (s : Session) (assignmentId : Nat) (result : Option TaskResult) (now : Nat) :
    Session × Settled :=
  match s.inFlight.find? (·.id = assignmentId) with
  | none => (s, .stale)
  | some assignment =>
    let id := assignment.taskId
    let s := { s with inFlight := s.inFlight.filter (·.id ≠ assignmentId) }
    match s.progress? id with
    | none => (s, .stale)
    | some p =>
      let p := p.account result
      let s := { s with
        results := s.results ++ result.toList
        lastCompletion := if result.isSome then some now else s.lastCompletion }
      if 0 < p.outstanding then (s.update id fun _ => p, .waiting)
      else if p.batch.isEmpty then (s.update id fun _ => p.requeue, .requeued id)
      else (s.update id fun _ => { p with batch := [] }, .closed id p.batch)

def succeed (s : Session) (id : String) (canonical : CanonicalResult) : Session :=
  s.update id (·.succeed canonical)

def backOff (s : Session) (id : String) (expiry : Nat) (worker : Option String) (error : String) :
    Session :=
  s.update id (·.backOff expiry worker error)

def fail (s : Session) (id : String) (error : String) : Session := s.update id (·.fail error)

/-- Stop the run: what has not ended is skipped, and calls in flight are forgotten. -/
def cancel (s : Session) : Session :=
  { s with cancelled := true, inFlight := [], progress := s.progress.map (·.cancel) }

end Session

end Crew
