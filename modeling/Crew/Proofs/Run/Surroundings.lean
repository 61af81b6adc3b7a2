import Crew.Proofs.Registry.Changes
import Crew.Proofs.Run.Course
import Crew.Proofs.Scaling.Ratio

/-!
# Courses among changing workers

What a run does to its registry is made of a few operations. So whatever relation between registries
these keep is kept by all that a run does (`Registry.InUse.own`). In particular a run only uses its
registry (`uses_pass`, `uses_complete`, `uses_cancel`). If others do no more than use it, too, and
register and remove workers, then its workers can be told apart in all that an opening attains
(`Opening.Attains.built`).
-/

namespace Crew

namespace Registry

variable {R : Registry → Registry → Prop} {task : Task} {now : Nat}

/-- The relation allows of looking at breakers, and of announcing something; a ratio only as it was
measured. -/
structure AtRest (R : Registry → Registry → Prop) : Prop where
  refl (reg : Registry) : R reg reg
  trans {reg reg₁ reg₂ : Registry} (h : R reg reg₁) (h' : R reg₁ reg₂) : R reg reg₂
  refreshes (reg : Registry) (now : Nat) (which : Registration → Bool) :
    R reg (reg.refresh now which)
  announces (reg : Registry) {e : Event} (h : e.Measured) : R reg (reg.emit e)

/-- The relation allows of all that has to do with calls, too. -/
structure InUse (R : Registry → Registry → Prop) : Prop extends AtRest R where
  reports (reg : Registry) (workerId : String) (success : Bool) (now : Nat) :
    R reg (reg.reportOutcome workerId success now).1
  grants (reg : Registry) (workerId : String) : R reg (reg.grant workerId).1
  releases (reg : Registry) (lease : Lease) : R reg (reg.release lease)

/-- The relation allows of what is done while tasks are sent out, all of it at one time. -/
structure InDispatch (now : Nat) (R : Registry → Registry → Prop) : Prop where
  refl (reg : Registry) : R reg reg
  trans {reg reg₁ reg₂ : Registry} (h : R reg reg₁) (h' : R reg₁ reg₂) : R reg reg₂
  refreshes (reg : Registry) (which : Registration → Bool) : R reg (reg.refresh now which)
  announces (reg : Registry) {e : Event} (h : e.Measured) : R reg (reg.emit e)
  grants (reg : Registry) (workerId : String) : R reg (reg.grant workerId).1

theorem InUse.inDispatch (hR : InUse R) (now : Nat) : InDispatch now R where
  refl := hR.refl
  trans := hR.trans
  refreshes reg := hR.refreshes reg now
  announces := hR.announces
  grants := hR.grants

theorem Rests.atRest : AtRest Rests where
  refl _ := .refl
  trans h h' := Relation.ReflTransGen.trans h h'
  refreshes _ now which := .single (.refreshes now which)
  announces _ e _ := .single (.announces e)

theorem Uses.inUse : InUse Uses where
  refl _ := .refl
  trans h h' := Relation.ReflTransGen.trans h h'
  refreshes _ now which := .single (.refreshes now which)
  announces _ e _ := .single (.announces e)
  reports _ workerId success now := .single (.reports workerId success now)
  grants _ workerId := .single (.grants workerId)
  releases _ lease := .single (.releases lease)

-- ---------------------------------------------------------------------------
-- Passes
-- ---------------------------------------------------------------------------

theorem AtRest.announceEnd (hR : AtRest R) (run : Run) (reg : Registry) (taskId : String)
    (status : TaskStatus) : R reg (run.announceEnd reg taskId status) := hR.announces reg trivial

theorem AtRest.propagateFailures (hR : AtRest R) (run : Run) (reg : Registry) :
    R reg (run.propagateFailures reg).2 := by
  have h (run : Run) (skipped : List (String × String)) (reg : Registry) :
      R reg (skipped.foldl (fun reg x => run.announceEnd reg x.1 .skipped) reg) := by
    induction skipped generalizing reg with
    | nil => exact hR.refl reg
    | cons x rest ih => exact hR.trans (hR.announceEnd run reg x.1 .skipped) (ih _)
  exact h _ _ reg

theorem checkUnavailable_eq_or (run : Run) (reg : Registry) (task : Task) (now : Nat) :
    (run.checkUnavailable reg task now).2.1 = reg ∨ ∃ run' : Run,
      (run.checkUnavailable reg task now).2.1 =
        run'.announceEnd reg task.id .permanentlyFailed := by
  unfold Run.checkUnavailable
  split
  · exact .inl rfl
  · dsimp only
    split
    · exact .inl rfl
    · exact .inr ⟨_, rfl⟩

theorem AtRest.checkUnavailable (hR : AtRest R) (run : Run) (reg : Registry) (task : Task)
    (now : Nat) : R reg (run.checkUnavailable reg task now).2.1 := by
  rcases checkUnavailable_eq_or run reg task now with h | ⟨run', h⟩
  · rw [h]
    exact hR.refl reg
  · rw [h]
    exact hR.announceEnd run' reg _ _

theorem InDispatch.sendOut (hR : InDispatch now R) {attempt : Nat} (workers : List WorkerSnapshot)
    (run : Run) (reg : Registry) : R reg (Run.sendOut task attempt now workers run reg).2.1 := by
  induction workers generalizing run reg with
  | nil => exact hR.refl reg
  | cons worker rest ih =>
    by_cases hf : run.slots.free = 0
    · rw [Run.sendOut_of_full hf]
      exact hR.refl reg
    · have hgrant := hR.grants reg worker.spec.workerId
      cases hg : reg.grant worker.spec.workerId with
      | mk reg' lease? =>
        rw [hg] at hgrant
        cases lease? with
        | none =>
          rw [Run.sendOut_of_vanished hf hg]
          exact ih run reg
        | some lease =>
          rw [Run.sendOut_of_grant hf hg]
          -- A call is granted and announced before the next one is looked at.
          refine hR.trans (hR.trans hgrant (hR.announces reg' ?_)) (ih _ _)
          exact trivial

theorem InDispatch.dispatchTask (hR : InDispatch now R) (run : Run) (reg : Registry)
    (task : Task) : R reg (run.dispatchTask reg task now).2.1 := by
  have hselect : R reg (reg.selectFor task.capability now).1 := hR.refreshes reg _
  unfold Run.dispatchTask
  split
  next reg' hs =>
    rw [hs] at hselect
    split
    · exact hselect
    · refine hR.trans hselect ?_
      rcases checkUnavailable_eq_or run reg' task now with h | ⟨run', h⟩
      · dsimp only
        rw [h]
        exact hR.refl reg'
      · dsimp only
        rw [h]
        exact hR.announces reg' trivial
  next reg' candidates _ hs =>
    rw [hs] at hselect
    dsimp only
    split
    · exact hselect
    · split
      · exact hselect
      · rw [apply_ite (fun x : Run × Registry × Bool => x.2.1), ite_self]
        exact hR.trans hselect (hR.sendOut _ _ _)

theorem InDispatch.dispatchAll (hR : InDispatch now R) (tasks : List Task) (run : Run)
    (reg : Registry) : R reg (Run.dispatchAll now tasks run reg).2.1 := by
  induction tasks generalizing run reg with
  | nil => exact hR.refl reg
  | cons task rest ih => exact hR.trans (hR.dispatchTask run reg task) (ih _ _)

theorem InDispatch.dispatchReady (hR : InDispatch now R) (run : Run) (reg : Registry) :
    R reg (run.dispatchReady reg now).2.1 := by
  unfold Run.dispatchReady
  split
  · exact hR.refl reg
  · exact hR.dispatchAll _ _ reg

theorem AtRest.observeScaling (hR : AtRest R) (run : Run) (reg : Registry) (waiting now : Nat) :
    R reg (run.observeScaling reg waiting now).2 := by
  have hcount : R reg (reg.healthyCount now).1 := hR.refreshes reg _ _
  unfold Run.observeScaling
  dsimp only
  cases ho : run.detector.observe waiting (reg.healthyCount now).2 now with
  | mk detector signal? =>
    cases signal? with
    | none => exact hcount
    | some signal =>
      obtain ⟨x, hx, rfl | rfl⟩ := ScalingDetector.ratio_of_observe ho
      · exact hR.trans hcount (hR.announces _ hx)
      · exact hR.trans hcount (hR.announces _ hx)

theorem InUse.pass (hR : InUse R) (run : Run) (reg : Registry) (now : Nat) :
    R reg (run.pass reg now).2 := by
  have hprepare : R reg (run.prepare reg now).2 := hR.propagateFailures run reg
  rw [Run.pass_eq]
  have hready := (hR.inDispatch now).dispatchReady (run.prepare reg now).1 (run.prepare reg now).2
  exact hR.trans (hR.trans (hR.trans hprepare hready) (hR.propagateFailures _ _))
    (hR.observeScaling _ _ _ _)

-- ---------------------------------------------------------------------------
-- Ends of calls
-- ---------------------------------------------------------------------------

theorem AtRest.closeAttempt (hR : AtRest R) (run : Run) (reg : Registry) (taskId : String)
    (results : List TaskResult) (now : Nat) :
    R reg (run.closeAttempt reg taskId results now).2 := by
  unfold Run.closeAttempt
  split
  · exact hR.announceEnd _ reg _ _
  · split
    · exact hR.refl reg
    · dsimp only
      split
      · exact hR.announces reg trivial
      · exact hR.announceEnd _ reg _ _

theorem AtRest.complete (hR : AtRest R) {run : Run} {n : Nat} {call : Call}
    (hf : run.calls.find? (·.assignment.id = n) = some call) (reg : Registry) (cancelled : Bool)
    (outcome : Outcome) (now : Nat) : R ((call.told cancelled reg outcome now).release call.lease)
      (run.complete reg n cancelled outcome now).2 := by
  obtain ⟨completion, -, he⟩ := Run.complete_account hf reg cancelled outcome now
  rw [he]
  unfold Run.account
  split
  · exact hR.closeAttempt _ _ _ _ _
  · exact hR.refl _

theorem InUse.complete (hR : InUse R) (run : Run) (reg : Registry) (n : Nat) (cancelled : Bool)
    (outcome : Outcome) (now : Nat) : R reg (run.complete reg n cancelled outcome now).2 := by
  cases hf : run.calls.find? (·.assignment.id = n) with
  | none =>
    rw [Run.complete, hf]
    exact hR.refl reg
  | some call =>
    have htold : R reg (call.told cancelled reg outcome now) := by
      unfold Call.told
      split
      · exact hR.refl reg
      · exact hR.reports reg _ _ _
    exact hR.trans (hR.trans htold (hR.releases _ _))
      (hR.toAtRest.complete hf reg cancelled outcome now)

theorem InUse.cancel (hR : InUse R) (run : Run) (reg : Registry) : R reg (run.cancel reg).2 := by
  rw [Run.cancel_registry]
  induction run.calls generalizing reg with
  | nil => exact hR.refl reg
  | cons call rest ih => exact hR.trans (hR.releases reg _) (ih _)

-- ---------------------------------------------------------------------------
-- Whole runs
-- ---------------------------------------------------------------------------

/-- What the operations keep is kept by all that a run does itself. -/
theorem InUse.own (hR : InUse R) {c c' : Course} (h : Course.Own c c') :
    R c.registry c'.registry := by
  cases h with
  | pass => exact hR.pass c.run c.registry c.now
  | complete _ n outcome => exact hR.complete c.run c.registry n c.cancelled outcome c.now
  | wake | leave => exact hR.refl _
  | stop => exact hR.cancel c.run c.registry

theorem AtRest.slotCount (hR : AtRest R) (coordinator : Coordinator) (reg : Registry)
    (total now : Nat) : R reg (coordinator.slotCount reg total now).1 := by
  unfold Coordinator.slotCount
  split
  · exact hR.refl reg
  · dsimp only
    split
    · exact hR.refreshes reg _ _
    · exact hR.refreshes reg _ _

theorem AtRest.course (hR : AtRest R) {o : Opening} {c : Course} (h : o.course = .ok c) :
    R o.registry c.registry := by
  obtain ⟨graph, registry, count, -, -, hcount, -, rfl⟩ := Opening.course_eq_ok.mp h
  have hslots := hR.slotCount o.coordinator o.registry graph.size o.now
  rw [hcount] at hslots
  exact hR.trans hslots (hR.announces registry trivial)

end Registry

open Registry (Rests Uses)

namespace Run

variable {run : Run}

theorem rests_propagateFailures (run : Run) (reg : Registry) :
    Rests reg (run.propagateFailures reg).2 := Rests.atRest.propagateFailures run reg

theorem rests_checkUnavailable (run : Run) (reg : Registry) (task : Task) (now : Nat) :
    Rests reg (run.checkUnavailable reg task now).2.1 :=
  Rests.atRest.checkUnavailable run reg task now

theorem uses_dispatchTask (run : Run) (reg : Registry) (task : Task) (now : Nat) :
    Uses reg (run.dispatchTask reg task now).2.1 :=
  (Uses.inUse.inDispatch now).dispatchTask run reg task

theorem rests_observeScaling (run : Run) (reg : Registry) (waiting now : Nat) :
    Rests reg (run.observeScaling reg waiting now).2 :=
  Rests.atRest.observeScaling run reg waiting now

theorem uses_pass (run : Run) (reg : Registry) (now : Nat) : Uses reg (run.pass reg now).2 :=
  Uses.inUse.pass run reg now

theorem rests_complete {n : Nat} {call : Call}
    (hf : run.calls.find? (·.assignment.id = n) = some call) (reg : Registry) (cancelled : Bool)
    (outcome : Outcome) (now : Nat) :
    Rests ((call.told cancelled reg outcome now).release call.lease)
      (run.complete reg n cancelled outcome now).2 :=
  Rests.atRest.complete hf reg cancelled outcome now

theorem uses_complete (run : Run) (reg : Registry) (n : Nat) (cancelled : Bool)
    (outcome : Outcome) (now : Nat) : Uses reg (run.complete reg n cancelled outcome now).2 :=
  Uses.inUse.complete run reg n cancelled outcome now

theorem uses_cancel (run : Run) (reg : Registry) : Uses reg (run.cancel reg).2 :=
  Uses.inUse.cancel run reg

end Run

namespace Course

variable {c c' : Course}

theorem Own.uses (h : Own c c') : Uses c.registry c'.registry := Uses.inUse.own h

/-- A step of a course whose registry is changed by nothing but its operations. -/
inductive Move (c : Course) : Course → Prop
  | own {c' : Course} (h : Own c c') : Move c c'
  | cancels : Move c { c with cancelled := true }
  | advances {now : Nat} (h : c.now ≤ now) : Move c { c with now }
  | changes {registry : Registry} (h : Registry.Changes c.registry registry) :
    Move c { c with registry }

abbrev Moves : Course → Course → Prop := Relation.ReflTransGen Move

theorem Move.step (h : Move c c') : Step c c' := by
  cases h with
  | own h => exact .own h
  | cancels => exact .cancels
  | advances h => exact .advances h
  | changes => exact .meddles _

theorem Moves.steps (h : Moves c c') : Steps c c' := by
  induction h with
  | refl => exact .refl
  | tail _ hm ih => exact ih.tail hm.step

theorem Move.changes_registry (h : Move c c') : Registry.Changes c.registry c'.registry := by
  cases h with
  | own h => exact h.uses.changes
  | cancels => exact .refl
  | advances => exact .refl
  | changes h => exact h

theorem Moves.built (hb : c.registry.Built) (h : Moves c c') : c'.registry.Built := by
  induction h with
  | refl => exact hb
  | tail _ hm ih => exact ih.changes hm.changes_registry

end Course

/-- The courses that a run may come to while workers come and go and others use them. -/
def Opening.Attains (o : Opening) (c : Course) : Prop :=
  ∃ c₀, o.course = .ok c₀ ∧ c₀.Moves c

namespace Opening

variable {o : Opening} {c c' : Course}

theorem Attains.reaches (h : o.Attains c) : o.Reaches c := by
  obtain ⟨c₀, h₀, hm⟩ := h
  exact ⟨c₀, h₀, hm.steps⟩

theorem Attains.trans (h : o.Attains c) (hm : c.Moves c') : o.Attains c' := by
  obtain ⟨c₀, h₀, hc⟩ := h
  exact ⟨c₀, h₀, Relation.ReflTransGen.trans hc hm⟩

theorem rests_course {o : Opening} (h : o.course = .ok c) : Rests o.registry c.registry :=
  Rests.atRest.course h

theorem Attains.built (ho : o.registry.Built) (h : o.Attains c) : c.registry.Built := by
  obtain ⟨c₀, h₀, hm⟩ := h
  exact Course.Moves.built (ho.changes (rests_course h₀).uses.changes) hm

end Opening

end Crew
