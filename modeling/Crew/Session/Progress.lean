import Crew.Resolution

/-!
# Progress of a task

Where a task of a run stands, what it has cost so far, and what it ended with.
-/

namespace Crew

inductive TaskState where
  | pending
  | running
  | backoff (expiry : Nat)
  | succeeded
  | permanentlyFailed
  | skipped
  deriving DecidableEq, Repr, Inhabited

def TaskState.isTerminal : TaskState → Bool
  | .succeeded | .permanentlyFailed | .skipped => true
  | .pending | .running | .backoff _ => false

inductive SkipReason where
  | dependencyFailed (dependency : String)
  | cancelled
  deriving DecidableEq, Repr

def SkipReason.skippedMessage (taskId dependency : String) : String :=
  "task '" ++ taskId ++ "' skipped: dependency '" ++ dependency ++ "' did not succeed"

structure Assignment where
  id : Nat
  taskId : String
  workerId : String
  attempt : Nat
  startedAt : Nat
  deriving DecidableEq, Repr

/-- `attempts` counts those begun, the current one among them. `outstanding` and `batch` are the
calls of the current attempt that still run and the results of the others. `pendingSince` is set
while a ready task waits for a worker. -/
structure Progress where
  state : TaskState := .pending
  attempts : Nat := 0
  retriesUsed : Nat := 0
  outstanding : Nat := 0
  batch : List TaskResult := []
  lastFailedWorker : Option String := none
  pendingSince : Option Nat := none
  canonical : Option CanonicalResult := none
  error : Option String := none
  skipReason : Option SkipReason := none
  deriving DecidableEq, Repr, Inhabited

namespace Progress

def begin (p : Progress) : Progress :=
  { p with state := .running, attempts := p.attempts + 1, outstanding := 0, batch := [],
           pendingSince := none }

/-- Take back an attempt of which nothing was sent out. -/
def abort (p : Progress) : Progress :=
  if p.state = .running ∧ p.outstanding = 0 then
    { p with state := .pending, attempts := p.attempts - 1 }
  else p

def account (p : Progress) (result : Option TaskResult) : Progress :=
  { p with outstanding := p.outstanding - 1, batch := p.batch ++ result.toList }

/-- The attempt came to nothing and does not count. -/
def requeue (p : Progress) : Progress :=
  { p with state := .pending, attempts := p.attempts - 1 }

def succeed (p : Progress) (canonical : CanonicalResult) : Progress :=
  { p with state := .succeeded, error := none, canonical := some canonical }

def backOff (p : Progress) (expiry : Nat) (worker : Option String) (error : String) : Progress :=
  { p with state := .backoff expiry, retriesUsed := p.retriesUsed + 1,
           lastFailedWorker := worker, error := some error }

def fail (p : Progress) (error : String) : Progress :=
  { p with state := .permanentlyFailed, pendingSince := none, error := some error }

def skip (p : Progress) (dependency : String) : Progress :=
  { p with state := .skipped, pendingSince := none,
           skipReason := some (.dependencyFailed dependency) }

/-- An ended task stays as it is. -/
def cancel (p : Progress) : Progress :=
  if p.state.isTerminal then p
  else { p with state := .skipped, outstanding := 0, skipReason := some .cancelled }

def release (p : Progress) (now : Nat) : Progress :=
  match p.state with
  | .backoff expiry => if expiry ≤ now then { p with state := .pending } else p
  | _ => p

end Progress

end Crew
