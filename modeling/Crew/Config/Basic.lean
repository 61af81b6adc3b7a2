import Crew.Decimal.Layout

/-!
# Configuration

How a crew is run: seven sections, each of whose settings has a default. A configuration is used
only if its settings fit together; `check` names the first that does not.
-/

namespace Crew

/-- `level` is a filter for messages; without a directory log files go to a temporary one. -/
structure LoggingConfig where
  enabled : Bool := true
  console : Bool := true
  file : Bool := false
  level : String := "info"
  directory : Option String := none
  deriving DecidableEq, Repr, Inhabited

/-- `maxConcurrency` caps the calls in flight. A ready task whose capability nobody serves waits
for `unavailableTimeout`; critical tasks go to `criticalRedundancy` workers. -/
structure ExecutionConfig where
  maxConcurrency : Option Nat := none
  perWorkerConcurrency : Nat := 1
  pollInterval : Nat := 25
  unavailableTimeout : Nat := 30000
  criticalRedundancy : Nat := 1
  retryOnDifferentWorker : Bool := true
  deriving DecidableEq, Repr, Inhabited

structure RetryConfig where
  strategy : String := "exponential-backoff"
  baseDelay : Nat := 100
  maxDelay : Nat := 5000
  deriving DecidableEq, Repr, Inhabited

structure ConcurrencyConfig where
  strategy : String := "per-worker"
  fixed : Nat := 0
  minConcurrency : Nat := 1
  maxConcurrency : Nat := 32
  deriving DecidableEq, Repr, Inhabited

structure CircuitConfig where
  failureThreshold : Nat := 3
  cooldown : Nat := 30000
  deriving DecidableEq, Repr, Inhabited

/-- The watermarks are ready tasks without a worker per healthy worker. -/
structure ScalingConfig where
  enabled : Bool := true
  highWatermark : Float := 2.0
  lowWatermark : Float := 0.25
  debounce : Nat := 1000
  deriving DecidableEq, Repr, Inhabited

structure EventsConfig where
  channelCapacity : Nat := 1024
  deriving DecidableEq, Repr, Inhabited

structure Config where
  logging : LoggingConfig := {}
  execution : ExecutionConfig := {}
  retry : RetryConfig := {}
  concurrency : ConcurrencyConfig := {}
  circuit : CircuitConfig := {}
  scaling : ScalingConfig := {}
  events : EventsConfig := {}
  deriving DecidableEq, Repr, Inhabited

/-- A run looks at its tasks at least once a millisecond. -/
def ExecutionConfig.poll (c : ExecutionConfig) : Nat := max c.pollInterval 1

inductive ConfigError where
  | tooSmall (setting : String)
  | tooLarge (setting : String) (limit : Nat)
  | delaysOutOfOrder
  | watermarksOutOfOrder (low high : Float)
  deriving DecidableEq, Repr

def ConfigError.reason : ConfigError → String
  | .tooSmall setting => setting ++ " must be >= 1"
  | .tooLarge setting limit => setting ++ " must be <= " ++ toString limit
  | .delaysOutOfOrder => "retry.max_delay_ms must be >= retry.base_delay_ms"
  | .watermarksOutOfOrder low high =>
    "scaling watermarks out of order (low=" ++ NumberLayout.plain.render low ++ ", high=" ++
      NumberLayout.plain.render high ++ ")"

def ConfigError.refusal (reason : String) : String := "invalid config: " ++ reason

def ConfigError.fileRefusal (reason : String) : String := "config io error: " ++ reason

def ConfigError.message (e : ConfigError) : String := refusal e.reason

namespace Config

def pollLimit : Nat := 60000

/-- One day. -/
def delayLimit : Nat := 24 * 60 * 60 * 1000

def rules (c : Config) : List (Bool × ConfigError) :=
  [(c.execution.perWorkerConcurrency ≠ 0, .tooSmall "execution.per_worker_concurrency"),
    (c.execution.maxConcurrency ≠ some 0, .tooSmall "execution.max_concurrency"),
    (c.execution.criticalRedundancy ≠ 0, .tooSmall "execution.critical_redundancy"),
    (c.execution.pollInterval ≤ pollLimit, .tooLarge "execution.poll_interval_ms" pollLimit),
    (c.retry.maxDelay ≤ delayLimit, .tooLarge "retry.max_delay_ms" delayLimit),
    (c.circuit.failureThreshold ≠ 0, .tooSmall "circuit.failure_threshold"),
    (c.retry.baseDelay ≤ c.retry.maxDelay, .delaysOutOfOrder),
    (0.0 ≤ c.scaling.lowWatermark && c.scaling.lowWatermark ≤ c.scaling.highWatermark,
      .watermarksOutOfOrder c.scaling.lowWatermark c.scaling.highWatermark),
    (c.events.channelCapacity ≠ 0, .tooSmall "events.channel_capacity")]

def check (c : Config) : Except ConfigError Unit :=
  match c.rules.find? (!·.1) with
  | some (_, error) => .error error
  | none => .ok ()

end Config

end Crew
