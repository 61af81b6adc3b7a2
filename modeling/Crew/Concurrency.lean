import Crew.Retry

/-!
# Slots

How many calls a run keeps in flight, and the pool of slots that holds it to that number.
-/

namespace Crew

structure ConcurrencyContext where
  healthyWorkers : Nat
  registeredWorkers : Nat
  perWorkerConcurrency : Nat
  totalTasks : Nat
  deriving DecidableEq, Repr

/-- A share for each healthy worker, and never no slot at all. -/
def ConcurrencyContext.defaultSlots (c : ConcurrencyContext) : Nat :=
  max (saturatingMul c.healthyWorkers c.perWorkerConcurrency) 1

inductive ConcurrencyStrategy where
  | fixed (slots : Nat)
  | bounded (least most : Nat)
  deriving DecidableEq, Repr

namespace ConcurrencyStrategy

def name : ConcurrencyStrategy → String
  | .fixed _ => "fixed"
  | .bounded .. => "bounded"

/-- Nothing means a share for each worker. -/
def ofConfig (c : ConcurrencyConfig) : Except StrategyError (Option ConcurrencyStrategy) :=
  match c.strategy with
  | "per-worker" => .ok none
  | "fixed" => if c.fixed = 0 then .error .noFixedSlots else .ok (some (.fixed c.fixed))
  | "bounded" => .ok (some (.bounded c.minConcurrency c.maxConcurrency))
  | other => .error (.unknownConcurrency other)

/-- Bounded sizing never exceeds the number of tasks. -/
def slots (strategy : ConcurrencyStrategy) (c : ConcurrencyContext) : Nat :=
  match strategy with
  | .fixed slots => max slots 1
  | .bounded least most =>
    let least := max least 1
    let most := max most least
    min (max least (min c.defaultSlots most)) (max c.totalTasks 1)

end ConcurrencyStrategy

/-- `free` slots of `capacity` are not taken. -/
structure Slots where
  capacity : Nat
  free : Nat
  deriving DecidableEq, Repr

namespace Slots

/-- The largest pool there is. -/
def limit : Nat := Nat.pow 2 61 - 1

/-- A pool has at least one slot; one beyond the limit cannot be made. -/
def ofCapacity (capacity : Nat) : Option Slots :=
  let capacity := max capacity 1
  if capacity ≤ limit then some ⟨capacity, capacity⟩ else none

def reserve (s : Slots) : Option Slots :=
  if s.free = 0 then none else some { s with free := s.free - 1 }

def release (s : Slots) : Slots := { s with free := s.free + 1 }

theorem release_of_reserve {s t : Slots} (h : s.reserve = some t) : t.release = s := by
  unfold reserve at h
  split at h
  · simp at h
  next hf =>
    obtain rfl := Option.some.inj h
    simp only [release, Nat.sub_add_cancel (Nat.pos_of_ne_zero hf)]

end Slots

end Crew
