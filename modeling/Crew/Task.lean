import Crew.Json.Value

/-!
# Tasks

A task is one unit of work: which workers can do it, what they are given, which tasks have to
succeed before it, and how patient one is with it.
-/

namespace Crew

inductive Priority where
  | low
  | medium
  | high
  | critical
  deriving DecidableEq, Repr, Inhabited

namespace Priority

def rank : Priority → Nat
  | .low => 0
  | .medium => 1
  | .high => 2
  | .critical => 3

def name : Priority → String
  | .low => "low"
  | .medium => "medium"
  | .high => "high"
  | .critical => "critical"

def all : List Priority := [.low, .medium, .high, .critical]

theorem rank_injective {p q : Priority} (h : p.rank = q.rank) : p = q := by
  cases p <;> cases q <;> simp_all [rank]

end Priority

/-- Times are whole milliseconds. `maxRetries` counts the retries after the first attempt;
`redundancy` is the number of workers one attempt goes to, and without it the run decides. -/
structure Task where
  id : String
  capability : String
  payload : Json := .null
  dependencies : List String := []
  priority : Priority := .medium
  maxRetries : Nat := 0
  timeout : Nat := 30000
  redundancy : Option Nat := none
  deriving DecidableEq, Repr, Inhabited

namespace Task

def counterLimit : Nat := UInt32.size - 1

/-- All attempts a task may have, as far as 32 bits can count them. -/
def maxAttempts (task : Task) : Nat := min (task.maxRetries + 1) counterLimit

/-- No attempt goes to fewer than one worker. -/
def withRedundancy (task : Task) (n : Nat) : Task := { task with redundancy := some (max n 1) }

/-- The order of dispatch: higher priority first, then by id. -/
def precedes (a b : Task) : Bool :=
  b.priority.rank < a.priority.rank ||
    (a.priority.rank == b.priority.rank && !decide (b.id < a.id))

end Task

end Crew
