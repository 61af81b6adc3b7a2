import Crew.Session.Basic

/-!
# What the operations of a session do

Each operation is described by what becomes of the progress of every task and of the calls in
flight; what it leaves alone is said by the simp lemmas beside it. The counters that only a report
reads (results, first and last times) are not described here.
-/

namespace Crew.Session

variable {s : Session} {id other : String} {now : Nat}

def callsOf (s : Session) (id : String) : Nat := s.inFlight.countP (·.taskId = id)

def HasFailed (s : Session) (id : String) : Prop :=
  s.state? id = some .permanentlyFailed ∨ s.state? id = some .skipped

def Enables (s : Session) (task : Task) : Prop :=
  ∀ dep ∈ task.dependencies, s.state? dep = some .succeeded

theorem state?_eq_some {state : TaskState} :
    s.state? id = some state ↔ ∃ p, s.progress? id = some p ∧ p.state = state := by
  simp [state?]

theorem state?_of_progress? {p : Progress} (h : s.progress? id = some p) :
    s.state? id = some p.state := by
  simp [state?, h]

theorem isReady_iff {task : Task} :
    s.isReady task ↔ s.state? task.id = some .pending ∧ s.Enables task := by
  simp [isReady, Enables]

theorem progress?_isSome_iff (hk : s.progress.keys = s.graph.ids) :
    (s.progress? id).isSome ↔ id ∈ s.graph.ids := by
  rw [← hk, ← Table.contains_iff_mem_keys]
  rfl

-- ---------------------------------------------------------------------------
-- Changes to the progress of one task
-- ---------------------------------------------------------------------------

section
variable (s : Session) (id : String) (f : Progress → Progress)

@[simp] theorem graph_update : (s.update id f).graph = s.graph := rfl
@[simp] theorem trust_update : (s.update id f).trust = s.trust := rfl
@[simp] theorem inFlight_update : (s.update id f).inFlight = s.inFlight := rfl
@[simp] theorem lastAssignment_update : (s.update id f).lastAssignment = s.lastAssignment := rfl
@[simp] theorem peakInFlight_update : (s.update id f).peakInFlight = s.peakInFlight := rfl
@[simp] theorem cancelled_update : (s.update id f).cancelled = s.cancelled := rfl

@[simp] theorem keys_update : (s.update id f).progress.keys = s.progress.keys :=
  s.progress.keys_modify id f

theorem progress?_update_self {p : Progress} (h : s.progress? id = some p) :
    (s.update id f).progress? id = some (f p) := by
  simp [progress?_update, h]

theorem progress?_update_ne (hne : other ≠ id) :
    (s.update id f).progress? other = s.progress? other := by
  simp [progress?_update, hne]

end

theorem markWaiting_of_progress? {p : Progress} (hp : s.progress? id = some p) :
    s.markWaiting id now =
      (s.update id fun q => { q with pendingSince := some (p.pendingSince.getD now) },
        some (p.pendingSince.getD now)) := by
  rw [markWaiting, hp]

-- ---------------------------------------------------------------------------
-- Changes to every task at once
-- ---------------------------------------------------------------------------

@[simp] theorem progress?_releaseBackoffs :
    (s.releaseBackoffs now).1.progress? id = (s.progress? id).map (·.release now) :=
  s.progress.get?_map _ _

@[simp] theorem progress?_cancel : s.cancel.progress? id = (s.progress? id).map (·.cancel) :=
  s.progress.get?_map _ _

-- ---------------------------------------------------------------------------
-- Calls
-- ---------------------------------------------------------------------------

theorem progress?_recordDispatch (s : Session) (id taskId workerId : String) (attempt now : Nat) :
    (s.recordDispatch taskId workerId attempt now).1.progress? id =
      if id = taskId then
        (s.progress? id).map fun p => { p with outstanding := p.outstanding + 1 }
      else s.progress? id :=
  s.progress?_update taskId id _

/-- The books without a call that has ended, and with its result if it brought one. The progress of
its task is not yet changed. -/
def strike (s : Session) (assignmentId : Nat) (result : Option TaskResult) (now : Nat) : Session :=
  { s with
    inFlight := s.inFlight.filter (·.id ≠ assignmentId)
    results := s.results ++ result.toList
    lastCompletion := if result.isSome then some now else s.lastCompletion }

/-- A known call of a known task is struck off, and its task goes on waiting, is pending again or
has its results complete. -/
theorem settle_of_find? {a : Assignment} {p : Progress} {n : Nat} {result : Option TaskResult}
    (hf : s.inFlight.find? (·.id = n) = some a) (hp : s.progress? a.taskId = some p) :
    s.settle n result now =
      if 0 < (p.account result).outstanding then
        ((s.strike n result now).update a.taskId fun _ => p.account result, .waiting)
      else if (p.account result).batch.isEmpty then
        ((s.strike n result now).update a.taskId fun _ => (p.account result).requeue,
          .requeued a.taskId)
      else
        ((s.strike n result now).update a.taskId fun _ => { p.account result with batch := [] },
          .closed a.taskId (p.account result).batch) := by
  simp only [progress?] at hp
  simp only [settle, hf, progress?, hp]
  rfl

theorem progress?_settle_ne {a : Assignment} {n : Nat} (result : Option TaskResult) (now : Nat)
    (hf : s.inFlight.find? (·.id = n) = some a) (hne : id ≠ a.taskId) :
    (s.settle n result now).1.progress? id = s.progress? id := by
  cases hp : s.progress? a.taskId with
  | none =>
    simp only [progress?] at hp
    simp only [settle, hf, progress?, hp]
  | some p =>
    rw [settle_of_find? hf hp]
    split
    · exact progress?_update_ne _ _ _ hne
    · split <;> exact progress?_update_ne _ _ _ hne

section
variable (s : Session) (n : Nat) (result : Option TaskResult) (now : Nat)

theorem settle_fields :
    (s.settle n result now).1.graph = s.graph ∧
      (s.settle n result now).1.progress.keys = s.progress.keys ∧
      (s.settle n result now).1.inFlight = s.inFlight.filter (·.id ≠ n) ∧
      (s.settle n result now).1.lastAssignment = s.lastAssignment ∧
      (s.settle n result now).1.peakInFlight = s.peakInFlight ∧
      (s.settle n result now).1.cancelled = s.cancelled ∧
      (s.settle n result now).1.trust = s.trust := by
  cases hf : s.inFlight.find? (·.id = n) with
  | none =>
    have hn : s.inFlight.filter (·.id ≠ n) = s.inFlight := by
      refine List.filter_eq_self.mpr fun a ha => ?_
      simpa using List.find?_eq_none.mp hf a ha
    simp only [settle, hf, hn, and_self]
  | some a =>
    cases hp : s.progress? a.taskId with
    | none =>
      simp only [progress?] at hp
      simp only [settle, hf, progress?, hp, and_self]
    | some p =>
      rw [settle_of_find? hf hp]
      split
      · simp [strike]
      · split <;> simp [strike]

end

end Crew.Session
