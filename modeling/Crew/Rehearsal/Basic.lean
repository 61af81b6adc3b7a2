import Crew.Coordinator
import Crew.Rehearsal.Cast

/-!
# Rehearsals

A rehearsal drives one run on a clock of its own, which stands still while anything can be done and
then jumps to the next instant at which something happens. At one instant the order is: outcomes
that are known are taken one by one, each followed by a pass over the tasks; then comes a due pass;
then calls that end now tell their outcomes; then calls that were sent out are begun.
-/

namespace Crew

inductive Action where
  | cancel
  | deregister (workerId : String)
  | register (spec : WorkerSpec) (player : Player)
  deriving DecidableEq, Repr

structure NotedCall where
  time : Nat
  workerId : String
  payload : Json
  deriving DecidableEq, Repr

structure OpenCall where
  assignmentId : Nat
  ends : Nat
  outcome : Outcome
  deriving DecidableEq, Repr

/-- What to do next. A run that has nothing left to do looks at the token once more before it has
ended. -/
inductive Phase where
  | pass
  | wait
  | leave
  | ended
  deriving DecidableEq, Repr

/-- `unbegun` calls were sent out and not yet begun, `known` outcomes were not yet taken. `wake` is
the time of the next pass if nothing happens before. Actions are in the order of their times. -/
structure Rehearsal where
  run : Run
  registry : Registry
  cast : Cast
  now : Nat
  actions : List (Nat × Action)
  cancelled : Bool := false
  unbegun : List Call := []
  underway : List OpenCall := []
  known : List (Nat × Outcome) := []
  wake : Nat := 0
  notes : List NotedCall := []
  phase : Phase := .pass

namespace Rehearsal

def awaits (r : Rehearsal) (assignmentId : Nat) : Bool :=
  r.run.calls.any (·.assignment.id = assignmentId) && !r.known.any (·.1 = assignmentId)

def expire (r : Rehearsal) : Rehearsal :=
  let due := r.run.calls.filter fun call =>
    call.deadline ≤ r.now && r.awaits call.assignment.id
  { r with known := r.known ++ due.map fun call => (call.assignment.id, .timedOut) }

def stop (r : Rehearsal) : Rehearsal :=
  let (run, registry) := r.run.cancel r.registry
  { r with run, registry, unbegun := [], phase := .ended }

def pass (r : Rehearsal) : Rehearsal :=
  let last := r.run.session.lastAssignment
  let (run, registry) := r.run.pass r.registry r.now
  let sent := run.calls.filter fun call => last < call.assignment.id
  let r := { r with run, registry, unbegun := r.unbegun ++ sent, wake := run.wakeAt r.now }
  if run.session.isFinished then { r with phase := .leave }
  else ({ r with phase := .wait } : Rehearsal).expire

def take (r : Rehearsal) (assignmentId : Nat) (outcome : Outcome) : Rehearsal :=
  let (run, registry) := r.run.complete r.registry assignmentId r.cancelled outcome r.now
  { r with run, registry, phase := .pass }

/-- Begin a call that was sent out. One without delay ends at once; the outcome of a call that is
no longer awaited is lost. -/
def begin (r : Rehearsal) (call : Call) : Rehearsal :=
  let (cast, performance) := r.cast.play call.lease call.payload
  let notes := if r.cast.notes call.lease then
      r.notes ++ [⟨r.now, call.lease.workerId, call.payload⟩]
    else r.notes
  let r := { r with cast, notes }
  let id := call.assignment.id
  let outcome := performance.answer.outcome call.lease.workerId
  if performance.delay = 0 then
    if r.awaits id then { r with known := r.known ++ [(id, outcome)] } else r
  else { r with underway := r.underway ++ [⟨id, r.now + performance.delay, outcome⟩] }

def beginAll (r : Rehearsal) : Rehearsal :=
  r.unbegun.foldl begin { r with unbegun := [] }

def endCalls (r : Rehearsal) : Rehearsal :=
  let due := r.underway.filter (·.ends ≤ r.now)
  let heard := due.filter fun c => r.awaits c.assignmentId
  { r with
    underway := r.underway.filter fun c => r.now < c.ends
    known := r.known ++ heard.map fun c => (c.assignmentId, c.outcome) }

/-- The calls to a worker that has left are revoked; their outcomes no longer matter. -/
def revoke (r : Rehearsal) (workerId : String) : Rehearsal :=
  let lost := r.run.calls.filter fun call =>
    call.lease.workerId = workerId && r.awaits call.assignment.id
  { r with known := r.known ++ lost.map fun call => (call.assignment.id, .timedOut) }

def act (r : Rehearsal) : Action → Rehearsal
  | .cancel => { r with cancelled := true }
  | .deregister workerId =>
    match r.registry.deregister workerId with
    | (_, none) => r
    | (registry, some _) => ({ r with registry } : Rehearsal).revoke workerId
  | .register spec player =>
    let (registry, cast) := r.registry.engage r.cast spec player
    { r with registry, cast }

def actAll (r : Rehearsal) : Rehearsal :=
  (r.actions.filter (·.1 ≤ r.now)).foldl (fun r a => r.act a.2)
    { r with actions := r.actions.filter (r.now < ·.1) }

def next (r : Rehearsal) : Nat :=
  let deadlines := (r.run.calls.filter fun call => r.awaits call.assignment.id).map (·.deadline)
  (r.underway.map (·.ends) ++ deadlines ++ r.actions.map (·.1)).foldl min r.wake

def jump (r : Rehearsal) : Rehearsal :=
  ({ r with now := max r.now r.next } : Rehearsal).actAll.expire

def step (r : Rehearsal) : Rehearsal :=
  match r.phase with
  | .ended => r
  | .pass => if r.cancelled then r.stop else r.pass
  | .leave => if r.cancelled then r.stop else { r with phase := .ended }
  | .wait =>
    if r.cancelled then r.stop
    else
      match r.known with
      | (id, outcome) :: rest => ({ r with known := rest } : Rehearsal).take id outcome
      | [] =>
        if r.wake ≤ r.now then { r with phase := .pass }
        else if r.underway.any (·.ends ≤ r.now) then r.endCalls
        else if r.unbegun.isEmpty then r.jump
        else r.beginAll

/-- Go on until the run has ended, for at most so many steps. -/
def play : Nat → Rehearsal → Rehearsal
  | 0, r => r
  | fuel + 1, r => if r.phase = .ended then r else play fuel r.step

def patience : Nat := Nat.pow 2 40

end Rehearsal

structure Recording where
  report : Report
  registry : Registry
  notes : List NotedCall
  elapsed : Nat

def Coordinator.rehearse (c : Coordinator) (runId : String) (graph : TaskGraph)
    (registry : Registry) (cast : Cast) (actions : List (Nat × Action)) :
    Except FatalError Recording := do
  let (run, registry) ← c.start runId graph registry 0
  let r : Rehearsal := { run, registry, cast, now := 0, actions }
  let r := r.actAll.play Rehearsal.patience
  let (report, registry) ← Coordinator.conclude r.run r.registry 0 r.now
  return { report, registry, notes := r.notes, elapsed := r.now }

end Crew
