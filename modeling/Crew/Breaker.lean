import Crew.Task

/-!
# Circuit breakers

A worker's breaker opens after so many failures in a row. An open breaker keeps work away until
its cooldown has passed; then it is half open, and the next outcome closes it or opens it again.
What is reported while it is open comes from before and decides nothing.
-/

namespace Crew

inductive Health where
  | healthy
  | degraded
  | circuitOpen
  deriving DecidableEq, Repr, Inhabited

namespace Health

def rank : Health → Nat
  | .healthy => 0
  | .degraded => 1
  | .circuitOpen => 2

def name : Health → String
  | .healthy => "healthy"
  | .degraded => "degraded"
  | .circuitOpen => "circuit_open"

def all : List Health := [.healthy, .degraded, .circuitOpen]

end Health

/-- `openedAt` is the time of the last opening while the breaker is not closed. -/
structure Breaker where
  health : Health := .healthy
  failures : Nat := 0
  openedAt : Option Nat := none
  deriving DecidableEq, Repr, Inhabited

inductive BreakerTransition where
  | opened
  | halfOpened
  | closed
  deriving DecidableEq, Repr

structure BreakerRules where
  threshold : Nat
  cooldown : Nat
  deriving DecidableEq, Repr, Inhabited

namespace BreakerRules

/-- A threshold of zero counts as one. -/
def ofLimits (threshold cooldown : Nat) : BreakerRules := ⟨max threshold 1, cooldown⟩

def onFailure (rules : BreakerRules) (b : Breaker) (now : Nat) :
    Breaker × Option BreakerTransition :=
  let b := { b with failures := min (b.failures + 1) Task.counterLimit }
  let opened : Breaker × Option BreakerTransition :=
    ({ b with health := .circuitOpen, openedAt := some now }, some .opened)
  match b.health with
  | .healthy => if rules.threshold ≤ b.failures then opened else (b, none)
  | .degraded => opened
  | .circuitOpen => (b, none)

def onSuccess (_rules : BreakerRules) (b : Breaker) : Breaker × Option BreakerTransition :=
  match b.health with
  | .degraded => ({ health := .healthy, failures := 0, openedAt := none }, some .closed)
  | .healthy | .circuitOpen => ({ b with failures := 0 }, none)

/-- Half-open the breaker once its cooldown has passed. Time that runs backwards does not count. -/
def refresh (rules : BreakerRules) (b : Breaker) (now : Nat) :
    Breaker × Option BreakerTransition :=
  match b.health, b.openedAt with
  | .circuitOpen, some openedAt =>
    if rules.cooldown ≤ now - openedAt then ({ b with health := .degraded }, some .halfOpened)
    else (b, none)
  | _, _ => (b, none)

end BreakerRules

end Crew
