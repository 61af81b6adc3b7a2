import Crew.Task

/-!
# Task graphs

A task graph holds tasks in the order of their submission; a task depends on the tasks that its
dependencies name. Dependencies and dependents are read off the tasks. `Graph.Build` makes graphs
from submissions and refuses those whose tasks could never all be run.
-/

namespace Crew

structure TaskGraph where
  tasks : List Task := []
  deriving DecidableEq, Repr, Inhabited

namespace TaskGraph

def ids (g : TaskGraph) : List String := g.tasks.map (·.id)

def size (g : TaskGraph) : Nat := g.tasks.length

def get? (g : TaskGraph) (id : String) : Option Task := g.tasks.find? (·.id = id)

/-- The tasks that a task depends on; none for an unknown id. -/
def dependencies (g : TaskGraph) (id : String) : List String :=
  ((g.get? id).map (·.dependencies)).getD []

def dependents (g : TaskGraph) (id : String) : List String :=
  (g.tasks.filter fun task => id ∈ task.dependencies).map (·.id)

def ascending (texts : List String) : List String :=
  (texts.eraseDups).mergeSort fun a b => !decide (b < a)

def capabilities (g : TaskGraph) : List String := ascending (g.tasks.map (·.capability))

/-- The tasks not yet completed whose dependencies all are, in ascending order. -/
def readySet (g : TaskGraph) (completed : List String) : List String :=
  ascending ((g.tasks.filter fun task =>
    task.id ∉ completed && task.dependencies.all (· ∈ completed)).map (·.id))

def appendNew (seen found : List String) : List String :=
  found.foldl (fun seen id => if id ∈ seen then seen else seen ++ [id]) seen

/-- Breadth-first walk: `seen` is what was found so far, and the tasks from `next` on are still to
be looked at. -/
def collectDependents (g : TaskGraph) : Nat → (seen : List String) → (next : Nat) → List String
  | 0, seen, _ => seen
  | fuel + 1, seen, next =>
    match seen[next]? with
    | none => seen
    | some id => collectDependents g fuel (appendNew seen (g.dependents id)) (next + 1)

/-- Every task that depends on the given one, directly or through others, nearest ones first. -/
def transitiveDependents (g : TaskGraph) (id : String) : List String :=
  g.collectDependents g.size (appendNew [] (g.dependents id)) 0

end TaskGraph

end Crew
