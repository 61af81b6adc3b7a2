import Crew.Rehearsal.Cast

/-!
# Benches

On a bench calls are made one at a time, against a registry, a pool of slots and a clock that all of
them share. Alarms that were set for a call stay set when it has ended.
-/

namespace Crew

inductive Alarm where
  | deregister (workerId : String)
  | cancel
  deriving DecidableEq, Repr

structure Trial where
  taskId : String
  workerId : String
  assignmentId : Nat
  attempt : Nat
  payload : Json
  timeout : Nat
  deregisterAfter : Option Nat := none
  cancelAfter : Option Nat := none
  deriving DecidableEq, Repr

/-- What came of a trial: there was no worker or no slot for it, or the call ended. `load` and
`free` are the worker's load and the free slots once the call was prepared. -/
inductive TrialResult where
  | notStarted (lease slot : Bool)
  | ended (completion : Completion) (load free elapsed : Nat)
  deriving DecidableEq, Repr

/-- `held` are the numbers of the slots that were taken by hand. -/
structure Bench where
  registry : Registry
  cast : Cast
  slots : Slots
  retry : RetryStrategy
  now : Nat := 0
  cancelled : Bool := false
  alarms : List (Nat × Alarm) := []
  held : List Nat := []
  nextHold : Nat := 0
  deriving DecidableEq, Repr

namespace Bench

def reserve (b : Bench) : Bench × Option Nat :=
  match b.slots.reserve with
  | none => (b, none)
  | some slots =>
    ({ b with slots, held := b.held ++ [b.nextHold], nextHold := b.nextHold + 1 },
      some b.nextHold)

def giveBack (b : Bench) (hold : Nat) : Bench :=
  if hold ∈ b.held then
    { b with slots := b.slots.release, held := b.held.filter (· ≠ hold) }
  else b

def goOff (b : Bench) : Alarm → Bench
  | .deregister workerId => { b with registry := (b.registry.deregister workerId).1 }
  | .cancel => { b with cancelled := true }

def nextAlarm? (b : Bench) (limit : Nat) : Option ((Nat × Alarm) × List (Nat × Alarm)) :=
  match b.alarms.mergeSort (fun x y => x.1 ≤ y.1) with
  | alarm :: rest => if alarm.1 ≤ limit then some (alarm, rest) else none
  | [] => none

/-- Let alarms go off, one after the other, until `halts` holds or none is left up to a time. -/
def ring (halts : Bench → Bool) (limit : Nat) : Nat → Bench → Bench
  | 0, b => b
  | fuel + 1, b =>
    if halts b then b
    else
      match b.nextAlarm? limit with
      | none => b
      | some (alarm, rest) =>
        ring halts limit fuel ({ b with now := max b.now alarm.1, alarms := rest }.goOff alarm.2)

def ringAll (b : Bench) (halts : Bench → Bool) (limit : Nat) : Bench :=
  ring halts limit b.alarms.length b

def advance (b : Bench) (time : Nat) : Bench :=
  { b.ringAll (fun _ => false) (b.now + time) with now := b.now + time }

def setAlarm (b : Bench) (after : Option Nat) (alarm : Alarm) : Bench :=
  match after with
  | none => b
  | some after => { b with alarms := b.alarms ++ [(b.now + after, alarm)] }

/-- How a call ends if nothing comes between, when, and up to when something can. A call that takes
as long as its timeout has timed out. -/
def foresee (call : Call) (performance : Performance) : Nat × Outcome × Nat :=
  let ends := call.assignment.startedAt + performance.delay
  if call.deadline ≤ ends then (call.deadline, .timedOut, call.deadline - 1)
  else (ends, performance.answer.outcome call.lease.workerId, ends)

def carry (b : Bench) (call : Call) : Bench × Completion :=
  if b.cancelled then
    let (completion, registry, slots) := call.conclude true .timedOut b.now b.registry b.slots
    ({ b with registry, slots }, completion)
  else
    let (cast, performance) := b.cast.play call.lease call.payload
    let (ends, outcome, limit) := foresee call performance
    let isOver (b : Bench) : Bool := b.cancelled || b.registry.isRevoked call.lease
    let b := ({ b with cast } : Bench).ringAll isOver limit
    let b := if isOver b then b else { b with now := ends }
    let (completion, registry, slots) :=
      call.conclude b.cancelled outcome b.now b.registry b.slots
    ({ b with registry, slots }, completion)

def tryOut (b : Bench) (t : Trial) : Bench × TrialResult :=
  match b.registry.grant t.workerId, b.slots.reserve with
  | (registry, some lease), some slots =>
    let load := ((registry.find? t.workerId).map (·.load)).getD 0
    let started := b.now
    let call : Call :=
      { assignment := ⟨t.assignmentId, t.taskId, t.workerId, t.attempt, started⟩, lease,
        payload := t.payload, timeout := t.timeout }
    let b : Bench := { b with registry, slots }
    let b := (b.setAlarm t.deregisterAfter (.deregister t.workerId)).setAlarm t.cancelAfter .cancel
    let (b, completion) := b.carry call
    (b, .ended completion load slots.free (b.now - started))
  | (_, lease), slot => (b, .notStarted lease.isSome slot.isSome)

end Bench

end Crew
