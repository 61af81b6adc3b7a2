import Crew.Graph.Build
import Crew.Run.Complete
import Crew.Run.Dispatch

/-!
# Coordinators

A coordinator knows the configuration and the strategies of its runs. It starts a run only if some
task of the graph has a worker.
-/

namespace Crew

inductive SetupError where
  | strategy (e : StrategyError)
  | pointer (e : PointerError)
  deriving DecidableEq, Repr

def SetupError.message : SetupError → String
  | .strategy e => e.message
  | .pointer e => e.message

/-- Why a run does not start, or ends without a report. -/
inductive FatalError where
  | invalidGraph (e : GraphError)
  | noViableWorkers (capabilities : List String)
  | tooManySlots (slots : Nat)
  | durationOverflow
  deriving DecidableEq, Repr

def FatalError.message : FatalError → String
  | .invalidGraph e => "invalid task graph: " ++ e.message
  | .noViableWorkers capabilities =>
    "no registered worker serves any of the capabilities: " ++
      String.intercalate ", " capabilities
  | .tooManySlots slots => "no pool has " ++ toString slots ++ " slots"
  | .durationOverflow => "the durations of the calls are too long to be added"

structure Coordinator where
  config : Config
  retry : RetryStrategy
  concurrency : Option ConcurrencyStrategy := none
  resolver : Resolver := {}

namespace Coordinator

/-- Waits that double, a share of slots for each worker, and no classifier. -/
def plain (config : Config) : Coordinator where
  config := config
  retry := .exponential config.retry.baseDelay config.retry.maxDelay

def ofConfig (config : Config) (voteBy : Option String) : Except SetupError Coordinator := do
  let retry ← (RetryStrategy.ofConfig config.retry).mapError .strategy
  let concurrency ← (ConcurrencyStrategy.ofConfig config.concurrency).mapError .strategy
  match voteBy with
  | none => return { config, retry, concurrency }
  | some text =>
    let pointer ← (JsonPointer.ofString text).mapError .pointer
    return { config, retry, concurrency, resolver := ⟨some (.ofPointer pointer)⟩ }

/-- Some worker must serve some task, unless there is nothing to do. -/
def checkViable (graph : TaskGraph) (reg : Registry) : Except FatalError Unit :=
  if graph.tasks.isEmpty || graph.capabilities.any reg.covers then .ok ()
  else .error (.noViableWorkers graph.capabilities)

/-- An explicit cap comes first, then the strategy, then a share for each healthy worker. -/
def slotCount (c : Coordinator) (reg : Registry) (totalTasks now : Nat) : Registry × Nat :=
  match c.config.execution.maxConcurrency with
  | some cap => (reg, max cap 1)
  | none =>
    let (reg, healthyWorkers) := reg.healthyCount now
    let context : ConcurrencyContext :=
      { healthyWorkers, registeredWorkers := reg.workers.length,
        perWorkerConcurrency := c.config.execution.perWorkerConcurrency, totalTasks }
    match c.concurrency with
    | some strategy => (reg, max (strategy.slots context) 1)
    | none => (reg, context.defaultSlots)

def policy (c : Coordinator) : Policy := ⟨c.config.execution, c.retry, c.resolver⟩

def start (c : Coordinator) (runId : String) (graph : TaskGraph) (reg : Registry) (now : Nat) :
    Except FatalError (Run × Registry) := do
  checkViable graph reg
  let (reg, count) := c.slotCount reg graph.size now
  match Slots.ofCapacity count with
  | none => .error (.tooManySlots count)
  | some slots =>
    let reg := reg.emit (.runStarted runId graph.size count)
    return ({ policy := c.policy, session := .start runId graph reg.trustTable, slots,
              detector := ⟨c.config.scaling, .inside⟩ }, reg)

def finish (run : Run) (reg : Registry) (started now : Nat) : Report × Registry :=
  let report := Report.ofSession run.session
  (report, reg.emit (.runFinished report.runId (now - started) report.cancelled))

/-- The end of a run is announced once its report is made. -/
def conclude (run : Run) (reg : Registry) (started now : Nat) :
    Except FatalError (Report × Registry) :=
  match Report.aggregate run.session with
  | none => .error .durationOverflow
  | some _ => .ok (finish run reg started now)

end Coordinator

end Crew
