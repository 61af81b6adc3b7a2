import Crew.Graph.Basic
import Crew.Table

/-!
# Layers of a task graph

The first layer holds the tasks without dependencies, each further one the tasks whose last
dependency is in the layer before. Each task counts the dependencies that are not yet placed; a
task is due when its count falls to zero.
-/

namespace Crew

/-- A layer, and the open dependencies of every task once the layers before it are placed. -/
structure Frontier where
  pending : Table String Int
  current : List String
  deriving Repr, DecidableEq

namespace Frontier

def ofGraph (g : TaskGraph) : Frontier where
  pending := ⟨g.tasks.map fun task => (task.id, (task.dependencies.length : Int))⟩
  current := (g.tasks.filter (·.dependencies.isEmpty)).map (·.id)

/-- One dependency of a task is placed; a task without open ones joins `due`. -/
def settle (state : Table String Int × List String) (dependent : String) :
    Table String Int × List String :=
  match state.1.get? dependent with
  | none => state
  | some count =>
    let pending := state.1.insert dependent (count - 1)
    (pending, if count - 1 = 0 then state.2 ++ [dependent] else state.2)

/-- Place the current layer. The tasks that become due keep the order of their submission. -/
def advance (g : TaskGraph) (f : Frontier) : Frontier :=
  let (pending, due) := (f.current.flatMap g.dependents).foldl settle (f.pending, [])
  ⟨pending, due.mergeSort fun a b => g.ids.idxOf a ≤ g.ids.idxOf b⟩

def layers (g : TaskGraph) : Nat → Frontier → List (List String)
  | 0, _ => []
  | fuel + 1, f => if f.current.isEmpty then [] else f.current :: layers g fuel (f.advance g)

end Frontier

namespace TaskGraph

def layers (g : TaskGraph) : List (List String) := Frontier.layers g (g.size + 1) (.ofGraph g)

/-- The tasks, each after all its dependencies. -/
def order (g : TaskGraph) : List String := g.layers.flatten

/-- The number of tasks on a longest chain of dependencies. -/
def criticalPathLength (g : TaskGraph) : Nat := g.layers.length

end TaskGraph

end Crew
