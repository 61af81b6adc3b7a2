import Crew.Proofs.Run.Course

/-!
# What a run announces of its calls

Only a pass announces calls, and only of the tasks that have their turn in it
(`dispatched_pass`, `dispatched_complete`, `dispatched_cancel`).
-/

namespace Crew

def Event.dispatched? : Event → Option String
  | .taskDispatched _ taskId _ _ => some taskId
  | _ => none

namespace Registry

variable {reg : Registry} {workerId : String}

/-- The tasks of all calls that were announced, in the order of the announcements. -/
def dispatched (reg : Registry) : List String := reg.journal.filterMap Event.dispatched?

theorem dispatched_emit (reg : Registry) (e : Event) :
    (reg.emit e).dispatched = reg.dispatched ++ e.dispatched?.toList := by
  simp only [dispatched, emit, List.filterMap_append]
  cases e <;> rfl

theorem dispatched_emit_none {e : Event} (h : e.dispatched? = none) :
    (reg.emit e).dispatched = reg.dispatched := by
  rw [dispatched_emit, h, Option.toList_none, List.append_nil]

theorem dispatched_reportOutcome (reg : Registry) (workerId : String) (success : Bool)
    (now : Nat) : (reg.reportOutcome workerId success now).1.dispatched = reg.dispatched := by
  unfold reportOutcome
  split
  · rfl
  · dsimp only
    split
    · exact dispatched_emit_none rfl
    · exact dispatched_emit_none rfl
    · rfl
    · rfl

end Registry

namespace Run

variable {run : Run} {reg : Registry} {task : Task} {now : Nat}

theorem dispatched_announceEnd (run : Run) (reg : Registry) (taskId : String)
    (status : TaskStatus) : (run.announceEnd reg taskId status).dispatched = reg.dispatched :=
  Registry.dispatched_emit_none rfl

-- ---------------------------------------------------------------------------
-- Passes
-- ---------------------------------------------------------------------------

theorem dispatched_propagateFailures (run : Run) (reg : Registry) :
    (run.propagateFailures reg).2.dispatched = reg.dispatched := by
  have h (run : Run) (skipped : List (String × String)) (reg : Registry) :
      (skipped.foldl (fun reg x => run.announceEnd reg x.1 .skipped) reg).dispatched =
        reg.dispatched := by
    induction skipped generalizing reg with
    | nil => rfl
    | cons x rest ih => exact (ih _).trans (run.dispatched_announceEnd reg x.1 .skipped)
  exact h _ _ reg

theorem dispatched_sendOut {attempt : Nat} (workers : List WorkerSnapshot) :
    (sendOut task attempt now workers run reg).2.1.dispatched =
      reg.dispatched ++
        List.replicate (sendOut task attempt now workers run reg).2.2 task.id := by
  induction workers generalizing run reg with
  | nil => exact (List.append_nil _).symm
  | cons worker rest ih =>
    by_cases hf : run.slots.free = 0
    · rw [sendOut_of_full hf]
      exact (List.append_nil _).symm
    · cases hg : reg.grant worker.spec.workerId with
      | mk reg' lease? =>
        cases lease? with
        | none =>
          rw [sendOut_of_vanished hf hg]
          exact ih
        | some lease =>
          have hj : reg'.dispatched = reg.dispatched := by
            have hj := reg.journal_grant worker.spec.workerId
            rw [hg] at hj
            exact congrArg (List.filterMap _) hj
          rw [sendOut_of_grant hf hg]
          dsimp only
          rw [ih, Registry.dispatched_emit, hj, List.append_assoc]
          rfl

theorem dispatched_checkUnavailable (run : Run) (reg : Registry) (task : Task) (now : Nat) :
    (run.checkUnavailable reg task now).2.1.dispatched = reg.dispatched := by
  unfold checkUnavailable
  split
  · rfl
  · dsimp only
    split
    · rfl
    · exact dispatched_announceEnd _ _ _ _

theorem dispatched_dispatchTask (run : Run) (reg : Registry) (task : Task) (now : Nat) :
    ∃ n, (run.dispatchTask reg task now).2.1.dispatched =
      reg.dispatched ++ List.replicate n task.id := by
  have hselect : (reg.selectFor task.capability now).1.dispatched = reg.dispatched := rfl
  have hquiet {reg' : Registry} (h : reg'.dispatched = reg.dispatched) :
      ∃ n, reg'.dispatched = reg.dispatched ++ List.replicate n task.id :=
    ⟨0, by rw [h, List.replicate_zero, List.append_nil]⟩
  unfold dispatchTask
  split
  next reg' hs =>
    rw [hs] at hselect
    split
    · exact hquiet hselect
    · exact hquiet ((dispatched_checkUnavailable _ _ _ _).trans hselect)
  next reg' candidates _ hs =>
    rw [hs] at hselect
    dsimp only
    split
    · exact hquiet hselect
    · split
      · exact hquiet hselect
      · have hreg {c : Prop} [Decidable c] (a b d : Run) (r : Registry) (x y : Bool) :
            (if c then (a, r, x) else (b, r, y)).2.1 = r := by split <;> rfl
        rw [hreg _ _ run, dispatched_sendOut, hselect]
        exact ⟨_, rfl⟩

theorem dispatched_dispatchAll (tasks : List Task) (run : Run) (reg : Registry) :
    ∃ sent, (dispatchAll now tasks run reg).2.1.dispatched = reg.dispatched ++ sent ∧
      ∀ id ∈ sent, ∃ turn ∈ turns now tasks run reg, turn.2.id = id := by
  induction tasks generalizing run reg with
  | nil => exact ⟨[], (List.append_nil _).symm, fun id hid => nomatch hid⟩
  | cons task rest ih =>
    obtain ⟨n, hn⟩ := run.dispatched_dispatchTask reg task now
    obtain ⟨sent, hsent, hturns⟩ := ih (run.dispatchTask reg task now).1
      (run.dispatchTask reg task now).2.1
    refine ⟨List.replicate n task.id ++ sent, ?_, fun id hid => ?_⟩
    · rw [← List.append_assoc, ← hn, ← hsent]
      rfl
    · rcases List.mem_append.mp hid with hid | hid
      · exact ⟨_, List.mem_cons_self, (List.eq_of_mem_replicate hid).symm⟩
      · obtain ⟨turn, ht, he⟩ := hturns id hid
        exact ⟨turn, List.mem_cons_of_mem _ ht, he⟩

theorem dispatched_dispatchReady (run : Run) (reg : Registry) (now : Nat) :
    ∃ sent, (run.dispatchReady reg now).2.1.dispatched = reg.dispatched ++ sent ∧
      ∀ id ∈ sent, ∃ turn ∈ run.readyTurns reg now, turn.2.id = id := by
  unfold dispatchReady readyTurns
  split
  · exact ⟨[], (List.append_nil _).symm, fun id hid => nomatch hid⟩
  · exact dispatched_dispatchAll _ _ reg

theorem dispatched_observeScaling (run : Run) (reg : Registry) (waiting now : Nat) :
    (run.observeScaling reg waiting now).2.dispatched = reg.dispatched := by
  have hcount : (reg.healthyCount now).1.dispatched = reg.dispatched := rfl
  unfold observeScaling
  dsimp only
  split
  · exact hcount
  · exact (Registry.dispatched_emit_none rfl).trans hcount
  · exact (Registry.dispatched_emit_none rfl).trans hcount

def passTurns (run : Run) (reg : Registry) (now : Nat) : List (Run × Task) :=
  (run.prepare reg now).1.readyTurns (run.prepare reg now).2 now

theorem passTurns_ready (hn : run.session.graph.ids.Nodup) {turn : Run × Task}
    (ht : turn ∈ run.passTurns reg now) : Rounds run turn.1 ∧
      turn.2 ∈ turn.1.session.graph.tasks ∧ turn.1.session.isReady turn.2 := by
  have h₁ := prepare_rounds run reg now
  obtain ⟨-, hturns⟩ := dispatchReady_rounds (run.prepare reg now).1 (run.prepare reg now).2 now
    (by rw [Rounds.graph h₁]; exact hn)
  obtain ⟨h₂, hmem, hready⟩ := hturns turn ht
  exact ⟨h₁.trans h₂, hmem, hready⟩

theorem dispatched_pass (run : Run) (reg : Registry) (now : Nat) :
    ∃ sent, (run.pass reg now).2.dispatched = reg.dispatched ++ sent ∧
      ∀ id ∈ sent, ∃ turn ∈ run.passTurns reg now, turn.2.id = id := by
  obtain ⟨sent, hsent, hturns⟩ :=
    dispatched_dispatchReady (run.prepare reg now).1 (run.prepare reg now).2 now
  have hprepare : (run.prepare reg now).2.dispatched = reg.dispatched :=
    dispatched_propagateFailures run reg
  rw [hprepare] at hsent
  refine ⟨sent, ?_, hturns⟩
  rw [pass_eq, ← hsent]
  exact (dispatched_observeScaling _ _ _ _).trans (dispatched_propagateFailures _ _)

-- ---------------------------------------------------------------------------
-- Ends of calls
-- ---------------------------------------------------------------------------

theorem dispatched_closeAttempt (run : Run) (reg : Registry) (taskId : String)
    (results : List TaskResult) (now : Nat) :
    (run.closeAttempt reg taskId results now).2.dispatched = reg.dispatched := by
  unfold closeAttempt
  split
  · exact dispatched_announceEnd _ _ _ _
  · split
    · rfl
    · dsimp only
      split
      · exact Registry.dispatched_emit_none rfl
      · exact dispatched_announceEnd _ _ _ _

theorem dispatched_complete (run : Run) (reg : Registry) (n : Nat) (cancelled : Bool)
    (outcome : Outcome) (now : Nat) :
    (run.complete reg n cancelled outcome now).2.dispatched = reg.dispatched := by
  cases hf : run.calls.find? (·.assignment.id = n) with
  | none => rw [complete, hf]
  | some call =>
    obtain ⟨completion, -, he⟩ := complete_account hf reg cancelled outcome now
    have htold : (call.told cancelled reg outcome now).dispatched = reg.dispatched := by
      unfold Call.told
      split
      · rfl
      · exact Registry.dispatched_reportOutcome _ _ _ _
    rw [he, ← htold]
    unfold account
    split
    · exact dispatched_closeAttempt _ _ _ _ _
    · rfl

theorem dispatched_cancel (run : Run) (reg : Registry) :
    (run.cancel reg).2.dispatched = reg.dispatched := by
  rw [cancel_registry]
  induction run.calls generalizing reg with
  | nil => rfl
  | cons call rest ih => exact ih _

end Run

end Crew
