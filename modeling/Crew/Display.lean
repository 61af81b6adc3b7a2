import Crew.Event.Basic

/-!
# The progress display

What a display of a run counts: the tasks that have ended, out of how many, and those under way.
-/

namespace Crew

/-- `position` of `length` tasks have ended; `active` are those that have a line of their own. -/
structure Display where
  length : Nat := 0
  position : Nat := 0
  active : List String := []
  deriving DecidableEq, Repr

namespace Display

def addLine (d : Display) (taskId : String) : Display :=
  if taskId ∈ d.active then d else { d with active := d.active ++ [taskId] }

/-- Take note of an event; also whether the run is over. The end of a run fills the display. -/
def handle (d : Display) : Event → Display × Bool
  | .runStarted _ totalTasks _ => ({ d with length := totalTasks }, false)
  | .taskDispatched _ taskId .. | .taskRetryScheduled _ taskId .. => (d.addLine taskId, false)
  | .taskResolved _ taskId .. =>
    ({ d with active := d.active.filter (· ≠ taskId), position := d.position + 1 }, false)
  | .runFinished .. => ({ d with position := d.length }, true)
  | .scaleUpRequested .. | .scaleDownRequested .. | .circuitOpened .. | .circuitClosed .. =>
    (d, false)

end Display

end Crew
