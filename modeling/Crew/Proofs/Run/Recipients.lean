import Crew.Proofs.Run.Fairness

/-!
# Who gets the calls of an attempt

When a task has its turn, its calls go to the first of the workers that may take it, as many as the
task asks for and slots allow (`Visit.workers_eq`). The registry puts these workers in order; only
the worker that failed the task last may be moved behind all others (`Policy.preference`). It is
then called again only if there are no others left to call (`Visit.length_le_room`).

Who the worker is that failed last is not said here.
-/

namespace Crew

namespace Policy

variable {policy : Policy} {task : Task} {failed : String} {lastFailed : Option String}
  {candidates : List WorkerSnapshot}

def postpone (failed : String) (candidates : List WorkerSnapshot) : List WorkerSnapshot :=
  candidates.eraseP (·.spec.workerId = failed) ++
    (candidates.find? (·.spec.workerId = failed)).toList

/-- The candidates in the order in which the next attempt goes to them. -/
def preference (policy : Policy) (lastFailed : Option String) (candidates : List WorkerSnapshot) :
    List WorkerSnapshot :=
  match lastFailed with
  | some failed =>
    if policy.execution.retryOnDifferentWorker ∧ 2 ≤ candidates.length then
      postpone failed candidates
    else candidates
  | none => candidates

theorem filter_append_filter (hn : (candidates.map (·.spec.workerId)).Nodup) (failed : String) :
    candidates.filter (·.spec.workerId ≠ failed) ++ candidates.filter (·.spec.workerId = failed) =
      postpone failed candidates := by
  induction candidates with
  | nil => rfl
  | cons worker rest ih =>
    obtain ⟨hnew, hn⟩ := List.nodup_cons.mp hn
    by_cases hw : worker.spec.workerId = failed
    · -- nobody else has this id, so the others stay as they are
      have hothers : ∀ other ∈ rest, other.spec.workerId ≠ failed := by
        rintro other ho he
        exact hnew (List.mem_map.mpr ⟨other, ho, he.trans hw.symm⟩)
      have hrest : rest.filter (·.spec.workerId ≠ failed) = rest :=
        List.filter_eq_self.mpr fun other ho => decide_eq_true (hothers other ho)
      have hnone : rest.filter (·.spec.workerId = failed) = [] :=
        List.filter_eq_nil_iff.mpr fun other ho => by simpa using hothers other ho
      simp only [ne_eq, decide_not] at hrest
      simp [postpone, hw, hrest, hnone]
    · have hrest := ih hn
      simp only [postpone, ne_eq, decide_not] at hrest ⊢
      simp [hw, hrest]

theorem choose_eq (hn : (candidates.map (·.spec.workerId)).Nodup) (task : Task)
    (lastFailed : Option String) : policy.choose task lastFailed candidates =
      (policy.preference lastFailed candidates).take (policy.redundancyFor task) := by
  unfold choose preference
  cases lastFailed with
  | none => simp
  | some failed =>
    dsimp only
    rw [filter_append_filter hn]
    simp [Nat.lt_iff_add_one_le]

theorem postpone_perm (failed : String) (candidates : List WorkerSnapshot) :
    (postpone failed candidates).Perm candidates := by
  unfold postpone
  induction candidates with
  | nil => exact .refl _
  | cons worker rest ih =>
    by_cases hw : worker.spec.workerId = failed
    · simp [hw]
    · simpa [hw] using ih

theorem preference_perm (policy : Policy) (lastFailed : Option String)
    (candidates : List WorkerSnapshot) :
    (policy.preference lastFailed candidates).Perm candidates := by
  unfold preference
  split
  · split
    · exact postpone_perm _ _
    · exact .refl _
  · exact .refl _

/-- Who has been moved behind all others is not among the first of them. -/
theorem length_le_of_mem_take {n : Nat} (hn : (candidates.map (·.spec.workerId)).Nodup)
    (hm : failed ∈ ((postpone failed candidates).take n).map (·.spec.workerId)) :
    candidates.length ≤ n := by
  have hperm := postpone_perm failed candidates
  obtain ⟨worker, hworker, rfl⟩ := List.mem_map.mp hm
  have hfind : candidates.find? (·.spec.workerId = worker.spec.workerId) = some worker :=
    find?_of_nodup_map hn (hperm.subset (List.mem_of_mem_take hworker))
  have hdistinct := (hperm.map (·.spec.workerId)).nodup_iff.mpr hn
  have hlength := hperm.length_eq
  rw [postpone, hfind, Option.toList_some] at hworker hdistinct hlength
  rw [List.length_append, List.length_singleton] at hlength
  by_contra hlt
  rw [List.take_append_of_le_length (by omega)] at hworker
  rw [List.map_append, List.nodup_append] at hdistinct
  exact hdistinct.2.2 _ (List.mem_map_of_mem (List.mem_of_mem_take hworker)) _
    (List.mem_map_of_mem (List.mem_singleton_self worker)) rfl

end Policy

namespace Run

variable {run : Run} {reg : Registry} {task : Task} {attempt now : Nat} {p : Progress}

theorem sendOut_takes (task : Task) (attempt now : Nat) (workers : List WorkerSnapshot) (run : Run)
    (reg : Registry) (hw : ∀ worker ∈ workers, worker.spec.workerId ∈ reg.ids) :
    ∃ calls, (sendOut task attempt now workers run reg).1.calls = run.calls ++ calls ∧
      calls.map (·.assignment.workerId) =
        (workers.take run.slots.free).map (·.spec.workerId) := by
  induction workers generalizing run reg with
  | nil => exact ⟨[], (List.append_nil _).symm, by simp⟩
  | cons worker rest ih =>
    by_cases hf : run.slots.free = 0
    · rw [sendOut_of_full hf, hf]
      exact ⟨[], (List.append_nil _).symm, rfl⟩
    · obtain ⟨r, hr⟩ := Option.isSome_iff_exists.mp
        (Registry.mem_ids_iff.mp (hw worker List.mem_cons_self))
      have hgrant := Registry.grant_of_find? hr
      have hids := reg.ids_grant worker.spec.workerId
      rw [hgrant] at hids
      obtain ⟨calls, hcalls, hworkers⟩ := ih
        (place task attempt now run ⟨worker.spec.workerId, r.seq, r.executor⟩)
        (Registry.emit (reg.modify worker.spec.workerId fun r => { r with load := r.load + 1 })
          (.taskDispatched run.session.runId task.id worker.spec.workerId attempt))
        fun other ho => by
          rw [Registry.ids_emit, hids]
          exact hw other (List.mem_cons_of_mem _ ho)
      obtain ⟨free, hfree⟩ := Nat.exists_eq_succ_of_ne_zero hf
      have hleft : (place task attempt now run ⟨worker.spec.workerId, r.seq, r.executor⟩).slots.free
          = free := by
        change run.slots.free - 1 = free
        omega
      rw [sendOut_of_grant hf hgrant]
      rw [hleft] at hworkers
      refine ⟨_ :: calls, hcalls.trans (List.append_assoc _ _ _), ?_⟩
      rw [hfree, List.take_succ_cons, List.map_cons, List.map_cons, hworkers]

theorem dispatchTask_sendOut (run : Run) (reg : Registry) (task : Task) (now : Nat)
    (hp : run.session.progress? task.id = some p) :
    ((reg.selectFor task.capability now).2 = [] ∨ run.slots.free = 0) ∧
        (run.dispatchTask reg task now).1.calls = run.calls ∨
      ∃ attempt, (run.dispatchTask reg task now).1.calls =
        (sendOut task attempt now (run.policy.choose task p.lastFailedWorker
            (reg.selectFor task.capability now).2)
          (run.opened task) (reg.selectFor task.capability now).1).1.calls := by
  have hcleared := Session.progress?_update_self _ _ (fun q => { q with pendingSince := none }) hp
  have hfailed : ((run.session.clearWaiting task.id).progress? task.id).bind
      (·.lastFailedWorker) = p.lastFailedWorker := by
    rw [Session.clearWaiting, hcleared]
    rfl
  unfold dispatchTask
  split
  next reg' hs =>
    refine .inl ⟨.inl (by rw [hs]), ?_⟩
    split
    · rfl
    · exact calls_checkUnavailable_eq _ _ _ _
  next reg' candidates _ hs =>
    dsimp only
    split
    next hfull => exact .inl ⟨.inr hfull, rfl⟩
    next hfree =>
      split
      next session hnone =>
        -- the session knows the task, so the attempt has a number
        have hattempt := congrArg Prod.snd hnone
        rw [Session.beginAttempt, withSession, Session.clearWaiting, hcleared] at hattempt
        cases hattempt
      next session attempt ha =>
        obtain ⟨rfl, -⟩ := beginAttempt_eq_some ha
        refine .inr ⟨attempt, ?_⟩
        rw [hs]
        simp only [withSession, hfailed]
        split <;> rfl

namespace Visit

variable {v : Visit}

/-- The workers that may take the task, as the registry puts them in order. -/
def eligible (now : Nat) (v : Visit) : List WorkerSnapshot :=
  (v.registry.selectFor v.task.capability now).2

def lastFailed (v : Visit) : Option String :=
  (v.run.session.progress? v.task.id).bind (·.lastFailedWorker)

def room (v : Visit) : Nat := min (v.run.policy.redundancyFor v.task) v.run.slots.free

def workers (now : Nat) (v : Visit) : List String := (v.calls now).map (·.assignment.workerId)

theorem nodup_eligible (hd : v.registry.Distinct) (now : Nat) :
    ((v.eligible now).map (·.spec.workerId)).Nodup :=
  Registry.nodup_selectFor hd _ _

/-- The calls go to the first of the eligible workers, those preferred being first. -/
theorem workers_eq (hd : v.registry.Distinct) (hp : v.run.session.progress? v.task.id = some p) :
    v.workers now = ((v.run.policy.preference v.lastFailed (v.eligible now)).take
      (min v.room (v.eligible now).length)).map (·.spec.workerId) := by
  have hlast : v.lastFailed = p.lastFailedWorker := by
    rw [lastFailed, hp]
    rfl
  have hperm := v.run.policy.preference_perm v.lastFailed (v.eligible now)
  rcases v.run.dispatchTask_sendOut v.registry v.task now hp with ⟨hnone, hc⟩ | ⟨attempt, hc⟩
  · have hzero : min v.room (v.eligible now).length = 0 := by
      rcases hnone with hnil | hfull
      · have hlength : (v.eligible now).length = 0 := congrArg List.length hnil
        omega
      · rw [room, hfull]
        omega
    rw [hzero, workers, calls, hc, List.drop_length]
    rfl
  · have hids : ∀ worker ∈ v.run.policy.choose v.task p.lastFailedWorker (v.eligible now),
        worker.spec.workerId ∈ (v.registry.selectFor v.task.capability now).1.ids := by
      intro worker hw
      rw [Policy.choose_eq (nodup_eligible hd now), ← hlast] at hw
      rw [Registry.selectFor, Registry.ids_refresh]
      exact Registry.mem_ids_of_selectFor (hperm.subset (List.mem_of_mem_take hw))
    obtain ⟨calls, hcalls, hworkers⟩ := sendOut_takes v.task attempt now _ (v.run.opened v.task) _ hids
    have hsent : v.calls now = calls := by
      rw [Visit.calls, hc]
      exact (congrArg (List.drop _) hcalls).trans List.drop_left
    have hordered : (v.run.policy.preference v.lastFailed (v.eligible now)).length =
        (v.eligible now).length := hperm.length_eq
    rw [workers, hsent, hworkers, Policy.choose_eq (nodup_eligible hd now), ← hlast, List.take_take,
      Nat.min_comm, ← hordered, ← List.take_eq_take_min]
    rfl

theorem length_le_room {failed : String} (hd : v.registry.Distinct)
    (hp : v.run.session.progress? v.task.id = some p)
    (hretry : v.run.policy.execution.retryOnDifferentWorker) (hf : v.lastFailed = some failed)
    (hm : failed ∈ v.workers now) : (v.eligible now).length ≤ v.room := by
  rw [workers_eq hd hp, hf, Policy.preference] at hm
  split at hm
  next hmoved =>
    have hle := Policy.length_le_of_mem_take (nodup_eligible hd now) hm
    omega
  next hfew =>
    -- one worker is called, so there is room for it
    have hshort : ¬ 2 ≤ (v.eligible now).length := fun hlong => hfew ⟨hretry, hlong⟩
    have hroom : v.room ≠ 0 := fun hnone => by
      rw [hnone, Nat.zero_min, List.take_zero] at hm
      cases hm
    omega

end Visit

end Run

end Crew
