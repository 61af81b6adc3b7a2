import Mathlib.Algebra.BigOperators.Group.List.Basic
import Mathlib.Algebra.GroupWithZero.Nat
import Crew.Proofs.Session.Operations
import Crew.Report

/-!
# Entries and summary of a report

The entries of a report are those of the session's tasks, in the order of the tasks, once every task
has its progress (`map_taskId_entries`, `mem_entries`). The summary counts them: each status is
counted by itself, and so is each strategy that was used.
-/

namespace Crew

namespace Session

variable {s : Session} {id : String} {p : Progress}

def Complete (s : Session) : Prop := ∀ id ∈ s.graph.ids, (s.progress? id).isSome

def rows (s : Session) : List (String × Progress) :=
  s.graph.ids.filterMap fun id => (s.progress? id).map fun p => (id, p)

theorem mem_rows : (id, p) ∈ s.rows ↔ id ∈ s.graph.ids ∧ s.progress? id = some p := by
  simp only [rows, List.mem_filterMap, Option.map_eq_some_iff, Prod.mk.injEq]
  constructor
  · rintro ⟨_, hm, _, hp, rfl, rfl⟩
    exact ⟨hm, hp⟩
  · rintro ⟨hm, hp⟩
    exact ⟨id, hm, p, hp, rfl, rfl⟩

theorem rows_eq_map (h : s.Complete) :
    s.rows = s.graph.ids.map fun id => (id, (s.progress? id).getD {}) := by
  rw [rows, ← List.filterMap_eq_map]
  refine List.filterMap_congr fun id hid => ?_
  obtain ⟨p, hp⟩ := Option.isSome_iff_exists.mp (h id hid)
  rw [Function.comp_apply, hp]
  rfl

theorem map_fst_rows (h : s.Complete) : s.rows.map (·.1) = s.graph.ids := by
  rw [rows_eq_map h, List.map_map]
  exact List.map_id _

theorem map_snd_rows {α : Type} (f : Progress → α) (h : s.Complete) :
    s.rows.map (fun row => f row.2) = s.graph.ids.map fun id => f ((s.progress? id).getD {}) := by
  rw [rows_eq_map h, List.map_map]
  rfl

theorem foldl_rows (f : Progress → Nat) :
    s.rows.foldl (fun sum row => sum + f row.2) 0 = (s.rows.map fun row => f row.2).sum := by
  rw [List.sum_eq_foldl, List.foldl_map]

end Session

namespace Report

variable {s : Session} {entries : List TaskReport} {e : TaskReport}

theorem entries_ofSession (s : Session) :
    (ofSession s).entries = s.rows.map fun row => TaskReport.ofProgress row.1 row.2 := rfl

theorem mem_entries : e ∈ (ofSession s).entries ↔
    ∃ id p, id ∈ s.graph.ids ∧ s.progress? id = some p ∧ e = TaskReport.ofProgress id p := by
  rw [entries_ofSession, List.mem_map]
  constructor
  · rintro ⟨⟨id, p⟩, hm, rfl⟩
    exact ⟨id, p, (Session.mem_rows.mp hm).1, (Session.mem_rows.mp hm).2, rfl⟩
  · rintro ⟨id, p, hid, hp, rfl⟩
    exact ⟨(id, p), Session.mem_rows.mpr ⟨hid, hp⟩, rfl⟩

theorem exists_of_mem_entries (he : e ∈ (ofSession s).entries) :
    ∃ task ∈ s.graph.tasks, ∃ p, s.progress? task.id = some p ∧
      e = TaskReport.ofProgress task.id p := by
  obtain ⟨id, p, hid, hp, rfl⟩ := mem_entries.mp he
  obtain ⟨task, ht, rfl⟩ := List.mem_map.mp hid
  exact ⟨task, ht, p, hp, rfl⟩

theorem map_taskId_entries (h : s.Complete) :
    (ofSession s).entries.map (·.taskId) = s.graph.ids := by
  rw [entries_ofSession, List.map_map]
  exact Session.map_fst_rows h

-- ---------------------------------------------------------------------------
-- Counts
-- ---------------------------------------------------------------------------

theorem countStatus_add (entries : List TaskReport) :
    countStatus entries .success + countStatus entries .permanentlyFailed +
      countStatus entries .skipped = entries.length := by
  induction entries with
  | nil => rfl
  | cons e rest ih =>
    simp only [countStatus, List.length_cons] at ih ⊢
    cases h : e.status <;> simp [h] <;> omega

theorem sum_filter_ne_zero {α : Type} (xs : List (α × Nat)) :
    ((xs.filter (·.2 ≠ 0)).map (·.2)).sum = (xs.map (·.2)).sum := by
  induction xs with
  | nil => rfl
  | cons x rest ih =>
    rw [List.filter_cons, List.map_cons, List.sum_cons, ← ih]
    split
    · rfl
    next h =>
      have h0 : x.2 = 0 := by simpa using h
      rw [h0, Nat.zero_add]

theorem sum_countResolutions (entries : List TaskReport) :
    ((countResolutions entries).map (·.2)).sum =
      (entries.filter (·.resolution.isSome)).length := by
  rw [countResolutions, sum_filter_ne_zero, List.map_map]
  induction entries with
  | nil => rfl
  | cons e rest ih =>
    simp only [ResolutionStrategy.all, List.map_cons, List.map_nil, Function.comp_apply,
      List.sum_cons, List.sum_nil] at ih ⊢
    cases h : e.resolution with
    | none => simpa [h] using ih
    | some strategy => cases strategy <;> simp [h] at ih ⊢ <;> omega

theorem mem_countResolutions {strategy : ResolutionStrategy} {n : Nat} :
    (strategy, n) ∈ countResolutions entries ↔
      n ≠ 0 ∧ n = (entries.filter (·.resolution = some strategy)).length := by
  have hall : strategy ∈ ResolutionStrategy.all := by cases strategy <;> decide
  simp only [countResolutions, List.mem_filter, List.mem_map, Prod.mk.injEq, decide_eq_true_eq]
  constructor
  · rintro ⟨⟨_, -, rfl, rfl⟩, hn⟩
    exact ⟨hn, rfl⟩
  · rintro ⟨hn, rfl⟩
    exact ⟨⟨strategy, hall, rfl, rfl⟩, hn⟩

theorem keys_countResolutions (entries : List TaskReport) :
    ((countResolutions entries).map (·.1)).Sublist ResolutionStrategy.all := by
  have hkeys : (ResolutionStrategy.all.map fun strategy =>
      (strategy, (entries.filter (·.resolution = some strategy)).length)).map (·.1) =
      ResolutionStrategy.all := rfl
  rw [countResolutions, ← hkeys]
  exact List.filter_sublist.map _

theorem nodup_countResolutions : ((countResolutions entries).map (·.1)).Nodup :=
  List.Nodup.sublist (keys_countResolutions entries) (by decide)

end Report

end Crew
