import Crew.Json.Value

/-!
# Results of attempts

One worker's answer to one attempt of a task. A worker answers, fails, panics or is not waited for
any longer; a panic is reported as a failure.
-/

namespace Crew

inductive Outcome where
  | success (payload : Json)
  | failure (message : String)
  | timedOut
  deriving DecidableEq, Repr

namespace Outcome

def isSuccess : Outcome → Bool
  | .success _ => true
  | _ => false

def payload? : Outcome → Option Json
  | .success payload => some payload
  | _ => none

end Outcome

/-- `attempt` counts from one, `duration` is in milliseconds. -/
structure TaskResult where
  taskId : String
  workerId : String
  attempt : Nat
  outcome : Outcome
  duration : Nat
  deriving DecidableEq, Repr

def TaskResult.error? (result : TaskResult) : Option String :=
  match result.outcome with
  | .success _ => none
  | .failure message => some message
  | .timedOut => some ("worker '" ++ result.workerId ++ "' timed out")

inductive CallError where
  | failed (workerId message : String)
  | timedOut (workerId : String) (timeout : Nat)
  | panicked (workerId : String)
  deriving DecidableEq, Repr

def CallError.message : CallError → String
  | .failed workerId message => "worker '" ++ workerId ++ "' failed: " ++ message
  | .timedOut workerId timeout =>
    "worker '" ++ workerId ++ "' timed out after " ++ toString timeout ++ "ms"
  | .panicked workerId => "worker '" ++ workerId ++ "' panicked"

end Crew
