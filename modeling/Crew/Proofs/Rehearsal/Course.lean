import Crew.Proofs.Report.Averages
import Crew.Proofs.Run.Course

/-!
# Rehearsals are courses

Every step of a rehearsal is a number of steps of the course that it plays (`steps_step`), so that
whatever holds wherever a run may come to holds of all rehearsals (`rehearse_reaches`). What a
rehearsal keeps beside the run only decides which call ends next, and when.
-/

namespace Crew

namespace Rehearsal

variable {r : Rehearsal}

def course (r : Rehearsal) : Course where
  run := r.run
  registry := r.registry
  now := r.now
  cancelled := r.cancelled
  phase := r.phase

theorem course_begin (r : Rehearsal) (call : Call) : (r.begin call).course = r.course := by
  unfold begin
  dsimp only
  split
  · split <;> split <;> rfl
  · rfl

theorem course_beginAll (r : Rehearsal) : r.beginAll.course = r.course := by
  have h (calls : List Call) (r : Rehearsal) : (calls.foldl begin r).course = r.course := by
    induction calls generalizing r with
    | nil => rfl
    | cons call rest ih => exact (ih _).trans (r.course_begin call)
  exact h _ _

theorem steps_act (r : Rehearsal) (action : Action) : r.course.Steps (r.act action).course := by
  cases action with
  | cancel => exact .single .cancels
  | deregister workerId =>
    unfold act
    dsimp only
    split
    · exact .refl
    · exact .single (.meddles _)
  | register spec player => exact .single (.meddles _)

theorem steps_actAll (r : Rehearsal) : r.course.Steps r.actAll.course := by
  have h (actions : List (Nat × Action)) (r : Rehearsal) :
      r.course.Steps (actions.foldl (fun r a => r.act a.2) r).course := by
    induction actions generalizing r with
    | nil => exact .refl
    | cons a rest ih => exact (r.steps_act a.2).trans (ih _)
  exact h _ { r with actions := r.actions.filter (r.now < ·.1) }

theorem steps_jump (r : Rehearsal) : r.course.Steps r.jump.course := by
  have hclock : r.course.Step ({ r with now := max r.now r.next } : Rehearsal).course :=
    .advances (Nat.le_max_left _ _)
  exact .head hclock (steps_actAll _)

theorem course_pass (r : Rehearsal) : r.pass.course = r.course.pass := by
  unfold pass Course.pass
  dsimp only [course]
  split
  · rfl
  · rfl

theorem steps_step (r : Rehearsal) : r.course.Steps r.step.course := by
  unfold step
  split
  · exact .refl
  next hp =>
    split
    next hc => exact .single (.own (.stop (by simp [course, hp]) hc))
    next hc =>
      rw [course_pass]
      exact .single (.own (.pass hp (Bool.eq_false_iff.mpr hc)))
  next hp =>
    split
    next hc => exact .single (.own (.stop (by simp [course, hp]) hc))
    next hc => exact .single (.own (.leave hp (Bool.eq_false_iff.mpr hc)))
  next hp =>
    split
    next hc => exact .single (.own (.stop (by simp [course, hp]) hc))
    next hc =>
      have hcancelled : r.course.cancelled = false := Bool.eq_false_iff.mpr hc
      split
      next n outcome rest hk => exact .single (.own (.complete hp n outcome))
      · split
        · exact .single (.own (.wake hp hcancelled))
        · split
          · exact .refl
          · split
            · exact r.steps_jump
            · rw [course_beginAll]

theorem steps_play (fuel : Nat) (r : Rehearsal) : r.course.Steps (play fuel r).course := by
  induction fuel generalizing r with
  | zero => exact .refl
  | succ fuel ih =>
    unfold play
    split
    · exact .refl
    · exact r.steps_step.trans (ih _)

end Rehearsal

/-- A rehearsal reports what the run has come to. -/
theorem Coordinator.rehearse_reaches {coordinator : Coordinator} {runId : String}
    {tasks : List Task} {graph : TaskGraph} {registry : Registry} {cast : Cast}
    {actions : List (Nat × Action)} {recording : Recording}
    (hg : TaskGraph.build tasks = .ok graph)
    (h : coordinator.rehearse runId graph registry cast actions = .ok recording) :
    ∃ c, Opening.Reaches { coordinator, runId, tasks, registry, now := 0 } c ∧
      recording.report = (finish c.run c.registry 0 c.now).1 ∧ recording.elapsed = c.now := by
  unfold rehearse at h
  cases hs : coordinator.start runId graph registry 0 with
  | error e =>
    rw [hs] at h
    cases h
  | ok started =>
    let r : Rehearsal := { run := started.1, registry := started.2, cast, now := 0, actions }
    let played := Rehearsal.play Rehearsal.patience r.actAll
    rw [hs] at h
    change (conclude played.run played.registry 0 played.now).bind _ = _ at h
    rw [conclude_eq] at h
    split at h
    · cases h
      refine ⟨played.course, ⟨r.course, ?_, ?_⟩, rfl, rfl⟩
      · simp only [Opening.course, hg, Except.mapError, bind, Except.bind, hs]
        rfl
      · exact r.steps_actAll.trans (Rehearsal.steps_play _ _)
    · cases h

end Crew
