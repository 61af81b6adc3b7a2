import Crew.Config.Basic

/-!
# Retries

How long a task waits before it is tried again. The wait may double with every retry, grow by the
same amount, or stay as it is; retries are counted from zero. Products are cut off at 64 bits.
-/

namespace Crew

def wordMax : Nat := UInt64.size - 1

def saturatingMul (a b : Nat) : Nat := min (a * b) wordMax

inductive RetryStrategy where
  | exponential (base limit : Nat)
  | linear (base limit : Nat)
  | fixed (base : Nat)
  deriving DecidableEq, Repr

inductive StrategyError where
  | unknownRetry (name : String)
  | unknownConcurrency (name : String)
  | noFixedSlots
  deriving DecidableEq, Repr

def StrategyError.message : StrategyError → String
  | .unknownRetry name => "unknown retry strategy: " ++ name
  | .unknownConcurrency name => "unknown concurrency strategy: " ++ name
  | .noFixedSlots => "concurrency.fixed must be >= 1 with the fixed strategy"

namespace RetryStrategy

def name : RetryStrategy → String
  | .exponential .. => "exponential-backoff"
  | .linear .. => "linear"
  | .fixed _ => "fixed"

def ofConfig (c : RetryConfig) : Except StrategyError RetryStrategy :=
  match c.strategy with
  | "exponential-backoff" | "exponential" => .ok (.exponential c.baseDelay c.maxDelay)
  | "linear" => .ok (.linear c.baseDelay c.maxDelay)
  | "fixed" => .ok (.fixed c.baseDelay)
  | other => .error (.unknownRetry other)

/-- The wait before the given retry; from the thirty-first on it no longer doubles. -/
def delay (strategy : RetryStrategy) (retry : Nat) : Nat :=
  match strategy with
  | .exponential base limit => min (saturatingMul base (Nat.pow 2 (min retry 30))) limit
  | .linear base limit => min (saturatingMul base (min (retry + 1) (UInt32.size - 1))) limit
  | .fixed base => base

/-- No error rules a retry out. -/
def isFatal (_strategy : RetryStrategy) (_error : String) : Bool := false

def shouldRetry (strategy : RetryStrategy) (used limit : Nat) (error : String) : Bool :=
  used < limit && !strategy.isFatal error

def decide (strategy : RetryStrategy) (used limit : Nat) (error : String) : Option Nat :=
  if strategy.shouldRetry used limit error then some (strategy.delay used) else none

end RetryStrategy

end Crew
