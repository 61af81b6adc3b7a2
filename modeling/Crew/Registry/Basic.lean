import Crew.Breaker
import Crew.Event.Basic
import Crew.Graph.Basic
import Crew.Text.Quoted
import Crew.Trust

/-!
# The registry of workers

Which workers are there, what they serve, how loaded and how healthy they are. A registration has
a number that is never given again; a worker that registers anew while it is registered keeps its
number, load and health. Work on a worker is done under a lease, which is revoked when its
registration is removed.

The registry also holds the journal: everything announced so far, by it and by the runs on it.
-/

namespace Crew

/-- The description of a worker. Capabilities are distinct and ascending. -/
structure WorkerSpec where
  workerId : String
  capabilities : List String
  trustWeight : Float := 1.0
  deriving DecidableEq, Repr

namespace WorkerSpec

def ofCapabilities (workerId : String) (capabilities : List String) (trustWeight : Float) :
    WorkerSpec :=
  ⟨workerId, TaskGraph.ascending capabilities, trustWeight⟩

def serves (spec : WorkerSpec) (capability : String) : Bool := spec.capabilities.contains capability

end WorkerSpec

/-- `executor` names what answers the calls to the worker. -/
structure Registration where
  spec : WorkerSpec
  seq : Nat
  executor : Nat
  breaker : Breaker := {}
  load : Nat := 0
  deriving DecidableEq, Repr

structure WorkerSnapshot where
  spec : WorkerSpec
  seq : Nat
  load : Nat
  health : Health
  failures : Nat
  deriving DecidableEq, Repr

namespace Registration

def workerId (r : Registration) : String := r.spec.workerId

def snapshot (r : Registration) : WorkerSnapshot :=
  { spec := r.spec, seq := r.seq, load := r.load, health := r.breaker.health,
    failures := r.breaker.failures }

/-- Whether the worker may take work now: a half-open breaker lets one trial through. -/
def isEligible (r : Registration) : Bool :=
  match r.breaker.health with
  | .healthy => true
  | .degraded => r.load == 0
  | .circuitOpen => false

end Registration

structure Lease where
  workerId : String
  seq : Nat
  executor : Nat
  deriving DecidableEq, Repr

/-- Registrations stand in the order of their numbers. -/
structure Registry where
  rules : BreakerRules
  workers : List Registration := []
  nextSeq : Nat := 0
  journal : List Event := []
  deriving DecidableEq, Repr

namespace Registry

def find? (reg : Registry) (workerId : String) : Option Registration :=
  reg.workers.find? (·.workerId = workerId)

def modify (reg : Registry) (workerId : String) (f : Registration → Registration) : Registry :=
  { reg with workers := reg.workers.map fun r => if r.workerId = workerId then f r else r }

def emit (reg : Registry) (e : Event) : Registry := { reg with journal := reg.journal ++ [e] }

/-- Add a worker, or replace description and executor of a registered one. -/
def register (reg : Registry) (spec : WorkerSpec) (executor : Nat) : Registry :=
  if (reg.find? spec.workerId).isSome then
    reg.modify spec.workerId fun r => { r with spec, executor }
  else
    { reg with
      workers := reg.workers ++ [{ spec, seq := reg.nextSeq, executor }]
      nextSeq := reg.nextSeq + 1 }

def deregister (reg : Registry) (workerId : String) : Registry × Option Nat :=
  match reg.find? workerId with
  | none => (reg, none)
  | some r => ({ reg with workers := reg.workers.filter (·.workerId ≠ workerId) }, some r.load)

/-- Half-open the breakers of the workers in `which` whose cooldown has passed. -/
def refresh (reg : Registry) (now : Nat) (which : Registration → Bool) : Registry :=
  { reg with workers := reg.workers.map fun r =>
      if which r then { r with breaker := (reg.rules.refresh r.breaker now).1 } else r }

/-- The order of choice: less loaded first, then healthier, then earlier registered. -/
def preferred (a b : WorkerSnapshot) : Bool :=
  a.load < b.load ||
    (a.load == b.load && (a.health.rank < b.health.rank ||
      (a.health.rank == b.health.rank && a.seq ≤ b.seq)))

def selectFor (reg : Registry) (capability : String) (now : Nat) :
    Registry × List WorkerSnapshot :=
  let reg := reg.refresh now (·.spec.serves capability)
  (reg, ((reg.workers.filter fun r => r.spec.serves capability && r.isEligible).map
    (·.snapshot)).mergeSort preferred)

def reportOutcome (reg : Registry) (workerId : String) (success : Bool) (now : Nat) :
    Registry × Option Health :=
  match reg.find? workerId with
  | none => (reg, none)
  | some r =>
    let (breaker, transition) :=
      if success then reg.rules.onSuccess r.breaker else reg.rules.onFailure r.breaker now
    let reg := reg.modify workerId fun r => { r with breaker }
    let reg := match transition with
      | some .opened => reg.emit (.circuitOpened workerId breaker.failures)
      | some .closed => reg.emit (.circuitClosed workerId)
      | some .halfOpened | none => reg
    (reg, some breaker.health)

def grant (reg : Registry) (workerId : String) : Registry × Option Lease :=
  match reg.find? workerId with
  | none => (reg, none)
  | some r =>
    (reg.modify workerId fun r => { r with load := r.load + 1 },
      some ⟨workerId, r.seq, r.executor⟩)

/-- Release the load of a lease. A lease of an earlier registration releases nothing. -/
def release (reg : Registry) (lease : Lease) : Registry :=
  reg.modify lease.workerId fun r =>
    if r.seq = lease.seq then { r with load := r.load - 1 } else r

def isRevoked (reg : Registry) (lease : Lease) : Bool :=
  (reg.find? lease.workerId).map (·.seq) ≠ some lease.seq

def covers (reg : Registry) (capability : String) : Bool :=
  reg.workers.any (·.spec.serves capability)

def healthyCount (reg : Registry) (now : Nat) : Registry × Nat :=
  let reg := reg.refresh now fun _ => true
  (reg, (reg.workers.filter (·.breaker.health ≠ .circuitOpen)).length)

def snapshot (reg : Registry) : List WorkerSnapshot := reg.workers.map (·.snapshot)

def trustTable (reg : Registry) : TrustTable :=
  ⟨reg.workers.map fun r => (r.workerId, ⟨r.seq, r.spec.trustWeight⟩)⟩

end Registry

def Lease.describe (lease : Lease) (revoked : Bool) : String :=
  "WorkerLease \x7b worker_id: " ++ Text.quoted lease.workerId ++ ", seq: " ++
    toString lease.seq ++ ", revoked: " ++ (if revoked then "true" else "false") ++ " \x7d"

end Crew
