import Mathlib.Algebra.Group.Action.Defs
import Mathlib.Algebra.GroupWithZero.Nat
import Mathlib.Algebra.Order.BigOperators.Group.List
import Mathlib.Algebra.Order.Group.Nat
import Mathlib.Data.List.Induction
import Crew.Coordinator

/-!
# The mean duration of calls

A report tells the mean duration of all results, rounded down, and there is one if and only if the
durations together fit into a word of 64 bits (`aggregate_eq`): they are added before their sum is
divided, and the sum overflows where the mean does not (`average_overflows`).

Nothing bounds the sum: a call may take as long as its timeout allows, and results add up.
-/

namespace Crew

namespace Report

variable {results : List TaskResult} {least greatest : Nat}

/-- All durations together, whatever they come to. -/
def workload (results : List TaskResult) : Nat := (results.map (·.duration)).sum

theorem workload_append (before after : List TaskResult) :
    workload (before ++ after) = workload before + workload after := by
  rw [workload, List.map_append, List.sum_append, ← workload, ← workload]

theorem totalDuration_eq (results : List TaskResult) :
    totalDuration results =
      if workload results < Nat.pow 2 64 then some (workload results) else none := by
  induction results using List.reverseRecOn with
  | nil => rfl
  | append_singleton before r ih =>
    have hload : workload (before ++ [r]) = workload before + r.duration := workload_append _ _
    rw [totalDuration, List.foldlM_append, ← totalDuration, ih, hload]
    split
    · simp only [Option.bind_eq_bind, Option.bind_some, List.foldlM_cons, List.foldlM_nil]
      split <;> rfl
    next hover =>
      -- what has overflowed does not fit again with more
      rw [if_neg fun h => hover (Nat.lt_of_le_of_lt (Nat.le_add_right _ _) h)]
      rfl

theorem averageDuration_eq (results : List TaskResult) :
    averageDuration results =
      if workload results < Nat.pow 2 64 then some (workload results / results.length)
      else none := by
  rw [averageDuration, totalDuration_eq]
  split <;> rfl

theorem aggregate_eq (s : Session) :
    aggregate s = if workload s.results < Nat.pow 2 64 then some (ofSession s) else none := by
  rw [aggregate, averageDuration_eq]
  split <;> rfl

theorem mean_le (h : ∀ r ∈ results, r.duration ≤ greatest) :
    workload results / results.length ≤ greatest := by
  have hload : workload results ≤ (results.map (·.duration)).length • greatest :=
    List.sum_le_card_nsmul _ _ (List.forall_mem_map.mpr h)
  rw [List.length_map, smul_eq_mul] at hload
  exact Nat.div_le_of_le_mul hload

theorem le_mean (h : ∀ r ∈ results, least ≤ r.duration) (hsome : results ≠ []) :
    least ≤ workload results / results.length := by
  have hload : (results.map (·.duration)).length • least ≤ workload results :=
    List.card_nsmul_le_sum _ _ (List.forall_mem_map.mpr h)
  rw [List.length_map, smul_eq_mul, Nat.mul_comm] at hload
  exact (Nat.le_div_iff_mul_le (List.length_pos_iff.mpr hsome)).mpr hload

/-- A session has a report if and only if the durations of its results together fit into a word.
The mean that the report tells is the exact one, rounded down, and zero without results; it lies
between any bounds of the durations. -/
theorem averageTask_exact (s : Session) :
    (aggregate s = if workload s.results < Nat.pow 2 64 then some (ofSession s) else none) ∧
    ∀ report, aggregate s = some report →
      report.summary.averageTask = workload s.results / s.results.length ∧
      (s.results = [] → report.summary.averageTask = 0) ∧
      ∀ least greatest, s.results ≠ [] →
        (∀ r ∈ s.results, least ≤ r.duration ∧ r.duration ≤ greatest) →
        least ≤ report.summary.averageTask ∧ report.summary.averageTask ≤ greatest := by
  refine ⟨aggregate_eq s, fun report h => ?_⟩
  rw [aggregate_eq] at h
  split at h
  next hw =>
    obtain rfl := Option.some.inj h
    have haverage :
        (ofSession s).summary.averageTask = workload s.results / s.results.length := by
      have hmean := averageDuration_eq s.results
      rw [if_pos hw] at hmean
      change (averageDuration s.results).getD 0 = _
      rw [hmean, Option.getD_some]
    refine ⟨haverage, fun hnone => ?_, fun least greatest hsome hbounds => ?_⟩
    · rw [haverage, hnone]
      rfl
    · rw [haverage]
      exact ⟨le_mean (fun r hr => (hbounds r hr).1) hsome, mean_le fun r hr => (hbounds r hr).2⟩
  · cases h

end Report

/-- A run has a report if and only if the durations of all its calls fit into a word together. -/
theorem Coordinator.conclude_eq (run : Run) (reg : Registry) (started now : Nat) :
    conclude run reg started now =
      if Report.workload run.session.results < Nat.pow 2 64 then .ok (finish run reg started now)
      else .error .durationOverflow := by
  rw [conclude, Report.aggregate_eq]
  split
  next h =>
    split at h
    · cases h
    next hover => rw [if_neg hover]
  next h =>
    split at h
    next hw => rw [if_pos hw]
    · cases h

namespace Session

/-- One task is tried once, and the worker takes so long. -/
def spend (s : Session) (taskId : String) (duration : Nat) : Session :=
  let (s, attempt) := s.beginAttempt taskId
  let (s, assignment) := s.recordDispatch taskId "runner" (attempt.getD 0) 0
  (s.settle assignment.id (some ⟨taskId, "runner", assignment.attempt, .timedOut, duration⟩) 0).1

def errands : Session :=
  .start "run"
    ⟨[{ id := "first", capability := "run" }, { id := "second", capability := "run" }]⟩ {}

theorem average_of_two :
    let s := (errands.spend "first" 100).spend "second" 301
    ∃ report, Report.aggregate s = some report ∧ report.summary.averageTask = 200 := by
  intro s
  obtain ⟨hreport, hmean⟩ := Report.averageTask_exact s
  have hsome : Report.aggregate s = some (.ofSession s) := hreport.trans (by decide +kernel)
  obtain ⟨hexact, -⟩ := hmean _ hsome
  exact ⟨_, hsome, hexact.trans (by decide +kernel)⟩

/-- Of two calls that took half the range of a word each there is no report, though there is a
mean. -/
theorem average_overflows :
    let s := (errands.spend "first" (Nat.pow 2 63)).spend "second" (Nat.pow 2 63)
    (∀ r ∈ s.results, r.duration = Nat.pow 2 63) ∧
      Report.workload s.results / s.results.length = Nat.pow 2 63 ∧
      Report.aggregate s = none := by
  decide +kernel

end Session

end Crew
