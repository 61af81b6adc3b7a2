import Mathlib.Data.List.Nodup
import Crew.Graph.Build

/-!
# Tasks of a built graph are told apart by their ids

`nodup_ids_of_build` reads the check of ids as the rule it decides; `get?_of_mem` says that the
graph then finds every task under its id.
-/

namespace Crew

theorem find?_of_nodup_map {α κ : Type} [DecidableEq κ] {key : α → κ} {xs : List α} {x : α}
    (hn : (xs.map key).Nodup) (hx : x ∈ xs) : xs.find? (fun y => key y = key x) = some x := by
  cases hf : xs.find? (fun y => key y = key x) with
  | none => simpa using List.find?_eq_none.mp hf x hx
  | some y =>
    have hkey : key y = key x := by simpa using List.find?_some hf
    rw [List.inj_on_of_nodup_map hn (List.mem_of_find?_eq_some hf) hx hkey]

namespace TaskGraph

variable {g : TaskGraph} {task : Task} {tasks : List Task} {id : String}

theorem nodup_of_checkIds {position : Nat} {seen : List String}
    (h : checkIds position seen tasks = .ok ()) :
    (tasks.map (·.id)).Nodup ∧ ∀ task ∈ tasks, task.id ∉ seen := by
  induction tasks generalizing position seen with
  | nil => simp
  | cons task rest ih =>
    unfold checkIds at h
    split at h
    · cases h
    split at h
    · cases h
    next hs =>
      obtain ⟨hn, hr⟩ := ih h
      refine ⟨?_, ?_⟩
      · rw [List.map_cons, List.nodup_cons]
        refine ⟨fun hm => ?_, hn⟩
        obtain ⟨other, ho, he⟩ := List.mem_map.mp hm
        exact hr other ho (by simp [he])
      · intro other ho
        rcases List.mem_cons.mp ho with rfl | ho
        · exact hs
        · exact fun hm => hr other ho (List.mem_cons_of_mem _ hm)

theorem build_eq_ok (h : build tasks = .ok g) : checkIds 0 [] tasks = .ok () ∧
    g.tasks = tasks.map fun task => { task with dependencies := task.dependencies.eraseDups } := by
  simp only [build, bind, Except.bind, pure, Except.pure] at h
  split at h
  · cases h
  next hc =>
    split at h
    · cases h
    · split at h
      · cases h
      · cases h
        exact ⟨hc, rfl⟩

theorem ids_of_build (h : build tasks = .ok g) : g.ids = tasks.map (·.id) := by
  rw [ids, (build_eq_ok h).2, List.map_map]
  rfl

theorem nodup_ids_of_build (h : build tasks = .ok g) : g.ids.Nodup := by
  rw [ids_of_build h]
  exact (nodup_of_checkIds (build_eq_ok h).1).1

theorem mem_ids : id ∈ g.ids ↔ ∃ task ∈ g.tasks, task.id = id := List.mem_map

theorem get?_mem (h : g.get? id = some task) : task ∈ g.tasks ∧ task.id = id :=
  ⟨List.mem_of_find?_eq_some h, by simpa using List.find?_some h⟩

theorem eq_of_id_eq {other : Task} (hn : g.ids.Nodup) (ht : task ∈ g.tasks) (ho : other ∈ g.tasks)
    (he : other.id = task.id) : other = task :=
  List.inj_on_of_nodup_map hn ho ht he

theorem get?_of_mem (hn : g.ids.Nodup) (ht : task ∈ g.tasks) : g.get? task.id = some task :=
  find?_of_nodup_map hn ht

theorem dependencies_of_mem (hn : g.ids.Nodup) (ht : task ∈ g.tasks) :
    g.dependencies task.id = task.dependencies := by
  simp [dependencies, get?_of_mem hn ht]

end TaskGraph

end Crew
