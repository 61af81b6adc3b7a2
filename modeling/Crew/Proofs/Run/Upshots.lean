import Crew.Proofs.Registry.Offers
import Crew.Proofs.Run.Attempts

/-!
# What comes of a turn

When a ready task has its turn, the registry decides what comes of it (`dispatchTask_upshot`). If a
worker is offered and a slot is free, the task is sent out. If its capability is covered it goes on
waiting, and a wait for somebody to cover it is over. Otherwise it is marked as waiting, or given up
once it has waited long enough. So a task that is sent out never comes to nothing: the way back from
an attempt of which no call could be made is not taken.
-/

namespace Crew.Run

variable {run run' : Run} {reg : Registry} {task : Task} {now : Nat} {p : Progress}

/-- Since when a task has been waiting for its capability, if it goes on waiting now. -/
def since (p : Progress) (now : Nat) : Nat := p.pendingSince.getD now

def givenUp (task : Task) (p : Progress) (now : Nat) : Progress :=
  { p with pendingSince := some (since p now) }.fail
    (UnavailableError.mk task.capability (now - since p now)).message

/-- What comes of the turn of a task that has made the given progress; the truth value tells whether
it is left without a worker. -/
inductive Upshot (run : Run) (reg : Registry) (task : Task) (now : Nat) (p : Progress)
    (run' : Run) : Bool → Prop
  | sent {calls : List Call} (offered : reg.Offers task.capability now)
      (free : run.slots.free ≠ 0) (called : run'.calls = run.calls ++ calls) (nonempty : calls ≠ [])
      (own : ∀ call ∈ calls, call.assignment.taskId = task.id)
      (progress : run'.session.progress? task.id =
        some { p.begin with outstanding := calls.length }) : Upshot run reg task now p run' false
  | held (covered : reg.covers task.capability)
      (full : reg.Offers task.capability now → run.slots.free = 0)
      (called : run'.calls = run.calls)
      (progress : run'.session.progress? task.id = some { p with pendingSince := none }) :
      Upshot run reg task now p run' true
  | marked (uncovered : reg.covers task.capability = false)
      (early : now - since p now < run.policy.execution.unavailableTimeout)
      (called : run'.calls = run.calls)
      (progress : run'.session.progress? task.id =
        some { p with pendingSince := some (since p now) }) : Upshot run reg task now p run' true
  | givenUp (uncovered : reg.covers task.capability = false)
      (late : run.policy.execution.unavailableTimeout ≤ now - since p now)
      (called : run'.calls = run.calls)
      (progress : run'.session.progress? task.id = some (givenUp task p now)) :
      Upshot run reg task now p run' false

-- ---------------------------------------------------------------------------
-- Single turns
-- ---------------------------------------------------------------------------

/-- Nobody covers the capability: the task is marked, or given up if it has waited for too long. -/
theorem checkUnavailable_upshot (reg reg' : Registry) (now : Nat)
    (hp : run.session.progress? task.id = some p) (hc : reg.covers task.capability = false) :
    Upshot run reg task now p (run.checkUnavailable reg' task now).1
      (!(run.checkUnavailable reg' task now).2.2) := by
  have hmarked := Session.progress?_update_self _ _
    (fun q => { q with pendingSince := some (since p now) }) hp
  unfold checkUnavailable
  rw [Session.markWaiting_of_progress? hp]
  dsimp only
  split
  next hearly => exact .marked hc hearly rfl hmarked
  next hlate =>
    exact .givenUp hc (Nat.le_of_not_lt hlate) rfl (Session.progress?_update_self _ _ _ hmarked)

theorem sendOut_pos {attempt : Nat} {workers : List WorkerSnapshot} (hw : workers ≠ [])
    (hf : run.slots.free ≠ 0)
    (hg : ∀ worker ∈ workers, (reg.grant worker.spec.workerId).2.isSome) :
    (sendOut task attempt now workers run reg).2.2 ≠ 0 := by
  cases workers with
  | nil => exact absurd rfl hw
  | cons worker rest =>
    obtain ⟨lease, hlease⟩ := Option.isSome_iff_exists.mp (hg worker List.mem_cons_self)
    rw [sendOut_of_grant hf (Prod.ext rfl hlease)]
    exact Nat.succ_ne_zero _

theorem sendOut_upshot {attempt : Nat} {workers : List WorkerSnapshot} (reg' : Registry)
    (hp : run.session.progress? task.id = some p) (ho : reg.Offers task.capability now)
    (hf : run.slots.free ≠ 0)
    (hsent : (sendOut task attempt now workers (run.opened task) reg').2.2 ≠ 0) :
    Upshot run reg task now p (sendOut task attempt now workers (run.opened task) reg').1
      false := by
  obtain ⟨leases, hrun, hcount, -⟩ := sendOut_eq task attempt now workers (run.opened task) reg'
  rw [hrun]
  refine .sent ho hf (foldl_place_calls leases _) (issued_ne_nil ?_)
    (fun call hc => (mem_issued hc).1) ?_
  · rintro rfl
    exact hsent hcount.symm
  · rw [length_issued]
    exact progress?_sends hp

theorem dispatchTask_upshot (run : Run) (reg : Registry) (now : Nat)
    (hp : run.session.progress? task.id = some p) :
    Upshot run reg task now p (run.dispatchTask reg task now).1
      (run.dispatchTask reg task now).2.2 := by
  have hcovers : (reg.selectFor task.capability now).1.covers = reg.covers :=
    Registry.Uses.covers (.single (.refreshes now _))
  have hcleared := Session.progress?_update_self _ _ (fun q => { q with pendingSince := none }) hp
  unfold dispatchTask
  split
  next reg' hs =>
    have hnone : ¬ reg.Offers task.capability now := Registry.selectFor_eq_nil_iff.mp (by rw [hs])
    rw [hs] at hcovers
    split
    next hc =>
      exact .held (by rwa [← hcovers]) (fun ho => absurd ho hnone) rfl hcleared
    next hc =>
      rw [hcovers, Bool.not_eq_true] at hc
      exact checkUnavailable_upshot reg reg' now hp hc
  next reg' candidates hne hs =>
    have hoffers : reg.Offers task.capability now := by
      by_contra hnone
      have hnil := Registry.selectFor_eq_nil_iff.mpr hnone
      rw [hs] at hnil
      exact hne hnil
    have hgrants : ∀ worker ∈ candidates, (reg'.grant worker.spec.workerId).2.isSome := by
      intro worker hm
      have hgrant : ((reg.selectFor task.capability now).1.grant worker.spec.workerId).2.isSome :=
        Registry.grant_of_selectFor (by rwa [hs])
      rwa [hs] at hgrant
    dsimp only
    split
    next hfull => exact .held hoffers.covers (fun _ => hfull) rfl hcleared
    next hfree =>
      split
      next session hnone =>
        -- the session knows the task, so the attempt has a number
        have hattempt := congrArg Prod.snd hnone
        rw [Session.beginAttempt, withSession, Session.clearWaiting, hcleared] at hattempt
        cases hattempt
      next session attempt ha =>
        obtain ⟨rfl, -⟩ := beginAttempt_eq_some ha
        let lastFailed :=
          ((run.session.clearWaiting task.id).progress? task.id).bind (·.lastFailedWorker)
        obtain ⟨ordered, hperm, hchoice⟩ := run.policy.choose_sublist task lastFailed candidates
        have hsent : (sendOut task attempt now (run.policy.choose task lastFailed candidates)
            (run.opened task) reg').2.2 ≠ 0 :=
          sendOut_pos (Policy.choose_ne_nil hne) hfree fun worker hm =>
            hgrants worker (hperm.subset (hchoice.subset hm))
        have hupshot := sendOut_upshot reg' hp hoffers hfree hsent
        rw [if_neg (by exact hsent)]
        exact hupshot

theorem dispatchTask_offered (hp : run.session.progress? task.id = some p)
    (ho : reg.Offers task.capability now) (hf : run.slots.free ≠ 0) :
    ∃ k, (run.dispatchTask reg task now).1.session.progress? task.id =
      some { p.begin with outstanding := k } := by
  have hupshot := run.dispatchTask_upshot reg now hp
  generalize (run.dispatchTask reg task now).2.2 = waits at hupshot
  cases hupshot with
  | sent _ _ _ _ _ progress => exact ⟨_, progress⟩
  | held _ full => exact absurd (full ho) hf
  | marked uncovered | givenUp uncovered =>
    rw [ho.covers] at uncovered
    cases uncovered

theorem dispatchTask_unserved (hp : run.session.progress? task.id = some p)
    (hc : reg.covers task.capability = false) :
    (now - since p now < run.policy.execution.unavailableTimeout ∧
      (run.dispatchTask reg task now).1.session.progress? task.id =
        some { p with pendingSince := some (since p now) }) ∨
    run.policy.execution.unavailableTimeout ≤ now - since p now ∧
      (run.dispatchTask reg task now).1.session.progress? task.id = some (givenUp task p now) := by
  have hupshot := run.dispatchTask_upshot reg now hp
  generalize (run.dispatchTask reg task now).2.2 = waits at hupshot
  cases hupshot with
  | sent offered =>
    rw [offered.covers] at hc
    cases hc
  | held covered =>
    rw [covered] at hc
    cases hc
  | marked _ early _ progress => exact .inl ⟨early, progress⟩
  | givenUp _ late _ progress => exact .inr ⟨late, progress⟩

end Crew.Run
