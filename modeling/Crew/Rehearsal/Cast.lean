import Crew.Call
import Crew.Form.Worker

/-!
# Casts

In a rehearsal the workers are played. A player that follows a script takes one cue for each call
and its fallback once the script is used up; an echo answers with what it was given, and does with
delays and failures as the payload asks; a plain one returns the payload itself.
-/

namespace Crew

/-- What a scripted player says. `report` tells who was given what. -/
inductive Line where
  | reply (payload : Json)
  | report
  | failure (causes : List String)
  | panic
  deriving DecidableEq, Repr

structure Cue where
  delay : Nat := 0
  line : Line := .report
  deriving DecidableEq, Repr

inductive Player where
  | scripted (cues : List Cue) (fallback : Cue)
  | echo
  | plain
  deriving DecidableEq, Repr

abbrev Cast := List Player

namespace Line

/-- The causes of a failure are told from the outermost to the innermost. -/
def answer (workerId : String) (payload : Json) : Line → Answer
  | .reply value => .success value
  | .report => .success (.sorted [("worker", .string workerId), ("input", payload)])
  | .failure causes => .failure (String.intercalate ": " causes)
  | .panic => .panic

end Line

structure Performance where
  delay : Nat
  answer : Answer
  deriving DecidableEq, Repr

namespace Player

/-- What a payload asks of an echo. -/
def wish (payload : Json) (key : String) : Option Json :=
  (payload.get? "simulate").bind (·.get? key)

def echoPerformance (payload : Json) : Performance :=
  { delay := ((wish payload "delay_ms").bind (·.nat?)).getD 0
    answer := match (wish payload "fail").bind (·.string?) with
      | some message => .failure message
      | none => .success (.object [("input", payload)]) }

def play (workerId : String) (payload : Json) : Player → Player × Performance
  | .scripted [] fallback => (.scripted [] fallback, ⟨fallback.delay, fallback.line.answer workerId payload⟩)
  | .scripted (cue :: cues) fallback =>
    (.scripted cues fallback, ⟨cue.delay, cue.line.answer workerId payload⟩)
  | .echo => (.echo, echoPerformance payload)
  | .plain => (.plain, ⟨0, .success payload⟩)

def notes : Player → Bool
  | .scripted .. => true
  | .echo | .plain => false

end Player

namespace Cast

/-- Play a call of a lease; a player that is not there answers as a plain one does. -/
def play (cast : Cast) (lease : Lease) (payload : Json) : Cast × Performance :=
  match cast[lease.executor]? with
  | none => (cast, ⟨0, .success payload⟩)
  | some player =>
    let (player, performance) := player.play lease.workerId payload
    (cast.set lease.executor player, performance)

def notes (cast : Cast) (lease : Lease) : Bool :=
  (cast[lease.executor]?.map (·.notes)).getD false

end Cast

def Registry.engage (reg : Registry) (cast : Cast) (spec : WorkerSpec) (player : Player) :
    Registry × Cast :=
  (reg.register spec cast.length, cast ++ [player])

end Crew
