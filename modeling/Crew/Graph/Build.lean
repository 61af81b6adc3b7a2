import Crew.Graph.Basic
import Crew.Text.Blank

/-!
# Building task graphs

A submission is a graph when every id is visible, no id comes twice, every dependency is a task of
the submission and no task waits for itself. The checks are made in this order: ids and duplicates
task by task, then unknown dependencies, then cycles.
-/

namespace Crew

inductive GraphError where
  | emptyId (position : Nat)
  | duplicateId (id : String)
  | unknownDependency (task missing : String)
  | cycle (path : List String)
  deriving DecidableEq, Repr

namespace GraphError

def message : GraphError → String
  | .emptyId position => "Task at position " ++ toString position ++ " has an empty id"
  | .duplicateId id => "Duplicate task ID: " ++ id
  | .unknownDependency task missing =>
    "Dependency not found: task '" ++ task ++ "' depends on '" ++ missing ++ "'"
  | .cycle path => "Circular dependency detected: " ++ String.intercalate " -> " path

def taskIds : GraphError → List String
  | .emptyId _ => []
  | .duplicateId id => [id]
  | .unknownDependency task missing => [task, missing]
  | .cycle path => path

end GraphError

namespace TaskGraph

def checkIds (position : Nat) (seen : List String) : List Task → Except GraphError Unit
  | [] => .ok ()
  | task :: rest =>
    if Text.isBlankText task.id then .error (.emptyId position)
    else if task.id ∈ seen then .error (.duplicateId task.id)
    else checkIds (position + 1) (task.id :: seen) rest

def checkDependencies (ids : List String) (tasks : List Task) : Except GraphError Unit :=
  match tasks.findSome? fun task =>
      (task.dependencies.find? (· ∉ ids)).map fun missing => (task.id, missing) with
  | some (task, missing) => .error (.unknownDependency task missing)
  | none => .ok ()

/-- What a depth-first walk has seen: the tasks it has entered, and a cycle if it met one. -/
structure Walk where
  visited : List String := []
  cycle : Option (List String) := none
  deriving DecidableEq, Repr

/-- Enter a task and follow its dependencies in turn; `path` holds the tasks between the start of
the walk and this one. A dependency on the path closes a cycle; one that was entered before leads
to none. -/
def visit (g : TaskGraph) : Nat → (path : List String) → String → Walk → Walk
  | 0, _, _, walk => walk
  | fuel + 1, path, id, walk =>
    let path := path ++ [id]
    (g.dependencies id).foldl (fun walk next =>
      if walk.cycle.isSome then walk
      else if next ∈ path then { walk with cycle := some (path.dropWhile (· ≠ next) ++ [next]) }
      else if next ∈ walk.visited then walk
      else visit g fuel path next walk) { walk with visited := id :: walk.visited }

/-- The first cycle that a walk from each task in turn meets, as a path back to its start. -/
def findCycle (g : TaskGraph) : Option (List String) :=
  (g.ids.foldl (fun walk id =>
    if walk.cycle.isSome ∨ id ∈ walk.visited then walk
    else visit g (g.size + 1) [] id walk) {}).cycle

/-- The graph of a submission; a dependency that a task names twice counts once. -/
def build (tasks : List Task) : Except GraphError TaskGraph := do
  checkIds 0 [] tasks
  let g : TaskGraph := ⟨tasks.map fun task =>
    { task with dependencies := task.dependencies.eraseDups }⟩
  checkDependencies g.ids g.tasks
  match g.findCycle with
  | some path => .error (.cycle path)
  | none => return g

end TaskGraph

end Crew
