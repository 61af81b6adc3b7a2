import Crew.Proofs.Registry.Leases
import Crew.Proofs.Run.Settlement

/-!
# The attempts of a run

What a run does to its calls is noted: the attempts that are sent out, with the registry as each
call finds it, and the calls that end, with what they brought and what that meant for their task. A
pass is a passage (`pass_passage`): attempts are sent out one after the other, each to workers that
may take it (`Sending`), and nothing is done to calls or loads in between. What holds of all
passages holds of every pass.
-/

namespace Crew

open Registry (Rests)

inductive Note where
  | sent (task : Task) (calls : List (Registry × Call))
  | ended (call : Call) (result : Option TaskResult) (answer : Settled)

def Note.calls : Note → List (Registry × Call)
  | .sent _ calls => calls
  | .ended .. => []

/-- The calls of an attempt went to distinct workers, some but no more than the task asks for. When
a call was made its worker was registered, served the task, was not cut off, and had no load if it
was on trial. -/
structure Policy.Fair (policy : Policy) (task : Task) (calls : List (Registry × Call)) : Prop where
  some : calls ≠ []
  redundancy : calls.length ≤ policy.redundancyFor task
  distinct : (calls.map (·.2.assignment.workerId)).Nodup
  attempt : ∃ n, ∀ x ∈ calls, x.2.assignment.taskId = task.id ∧ x.2.assignment.attempt = n
  fit : ∀ x ∈ calls, ∃ r, x.1.find? x.2.assignment.workerId = .some r ∧
    r.spec.serves task.capability ∧ r.breaker.health ≠ .circuitOpen ∧
    (r.breaker.health = .degraded → r.load = 0) ∧
    x.2.lease = ⟨x.2.assignment.workerId, r.seq, r.executor⟩

theorem Registration.isEligible_iff {r : Registration} : r.isEligible ↔
    r.breaker.health ≠ .circuitOpen ∧ (r.breaker.health = .degraded → r.load = 0) := by
  unfold isEligible
  cases r.breaker.health <;> simp

namespace Run

variable {run run' : Run} {reg reg' : Registry} {task : Task} {now attempt last : Nat}
  {leases : List Lease}

-- ---------------------------------------------------------------------------
-- Notes
-- ---------------------------------------------------------------------------

/-- A task that has its turn, with run and registry as it finds them. -/
structure Visit where
  run : Run
  registry : Registry
  task : Task

def Visit.calls (now : Nat) (v : Visit) : List Call :=
  (v.run.dispatchTask v.registry v.task now).1.calls.drop v.run.calls.length

def Visit.notes (now : Nat) (v : Visit) : List Note :=
  match v.calls now with
  | [] => []
  | calls => [.sent v.task (Registry.moments v.run.session.runId
      (v.registry.selectFor v.task.capability now).1 calls)]

def visits (now : Nat) : List Task → Run → Registry → List Visit
  | [], _, _ => []
  | task :: rest, run, reg =>
    ⟨run, reg, task⟩ ::
      visits now rest (run.dispatchTask reg task now).1 (run.dispatchTask reg task now).2.1

def readyNotes (run : Run) (reg : Registry) (now : Nat) : List Note :=
  (visits now run.session.readyTasks (run.withSession (run.session.refreshTrust reg.trustTable))
    reg).flatMap (Visit.notes now)

def passNotes (run : Run) (reg : Registry) (now : Nat) : List Note :=
  (run.prepare reg now).1.readyNotes (run.prepare reg now).2 now

def endNotes (run : Run) (reg : Registry) (n : Nat) (cancelled : Bool) (outcome : Outcome)
    (now : Nat) : List Note :=
  match run.calls.find? (·.assignment.id = n) with
  | none => []
  | some call =>
    let result := call.yield cancelled reg outcome now
    [.ended call result (run.session.settle n result now).2]

-- ---------------------------------------------------------------------------
-- Calls
-- ---------------------------------------------------------------------------

/-- The calls that are made under the given leases after so many others. -/
def issued (task : Task) (attempt now : Nat) : List Lease → Nat → List Call
  | [], _ => []
  | lease :: rest, last =>
    ⟨⟨last + 1, task.id, lease.workerId, attempt, now⟩, lease, task.payload, task.timeout⟩ ::
      issued task attempt now rest (last + 1)

theorem foldl_place_calls (leases : List Lease) (run : Run) :
    (leases.foldl (place task attempt now) run).calls =
      run.calls ++ issued task attempt now leases run.session.lastAssignment := by
  induction leases generalizing run with
  | nil => exact (List.append_nil _).symm
  | cons lease rest ih =>
    rw [List.foldl_cons, ih, issued, ← List.singleton_append, ← List.append_assoc]
    rfl

theorem map_lease_issued (leases : List Lease) (last : Nat) :
    (issued task attempt now leases last).map (·.lease) = leases := by
  induction leases generalizing last with
  | nil => rfl
  | cons lease rest ih => rw [issued, List.map_cons, ih]

theorem length_issued (leases : List Lease) (last : Nat) :
    (issued task attempt now leases last).length = leases.length := by
  have h : ((issued task attempt now leases last).map (·.lease)).length = leases.length :=
    congrArg List.length (map_lease_issued leases last)
  rwa [List.length_map] at h

theorem mem_issued {call : Call} (h : call ∈ issued task attempt now leases last) :
    call.assignment.taskId = task.id ∧ call.assignment.workerId = call.lease.workerId ∧
      call.assignment.attempt = attempt ∧ call.assignment.startedAt = now := by
  induction leases generalizing last with
  | nil => cases h
  | cons lease rest ih =>
    rcases List.mem_cons.mp h with rfl | h
    · exact ⟨rfl, rfl, rfl, rfl⟩
    · exact ih h

theorem map_id_issued (leases : List Lease) (last : Nat) :
    (issued task attempt now leases last).map (·.assignment.id) =
      List.range' (last + 1) leases.length := by
  induction leases generalizing last with
  | nil => rfl
  | cons lease rest ih =>
    rw [issued, List.map_cons, ih, List.length_cons, List.range'_succ]

theorem id_of_mem_issued {call : Call} (h : call ∈ issued task attempt now leases last) :
    last < call.assignment.id ∧ call.assignment.id ≤ last + leases.length := by
  have hid := List.mem_map_of_mem (f := (·.assignment.id)) h
  rw [map_id_issued, List.mem_range'_1] at hid
  omega

theorem lastAssignment_foldl_place (leases : List Lease) (run : Run) :
    (leases.foldl (place task attempt now) run).session.lastAssignment =
      run.session.lastAssignment + leases.length := by
  induction leases generalizing run with
  | nil => rfl
  | cons lease rest ih =>
    rw [List.foldl_cons, ih, List.length_cons, Nat.add_comm rest.length, ← Nat.add_assoc]
    rfl

theorem Rounds.lastAssignment_le (h : Rounds run run') :
    run.session.lastAssignment ≤ run'.session.lastAssignment := by
  induction h with
  | refl => exact Nat.le_refl _
  | tail _ hr ih =>
    refine Nat.le_trans ih ?_
    cases hr with
    | turns _ _ ht =>
      cases ht with
      | lacks => unfold Session.markWaiting; split <;> exact Nat.le_refl _
      | givesUp => unfold Session.markWaiting; split <;> exact Nat.le_refl _
      | sends =>
        rw [lastAssignment_foldl_place]
        exact Nat.le_add_right _ _
      | _ => exact Nat.le_refl _
    | _ => exact Nat.le_refl _

theorem Rounds.mem_calls {call : Call} (h : Rounds run run') (hc : call ∈ run.calls) :
    call ∈ run'.calls := by
  induction h with
  | refl => exact hc
  | tail _ hr ih =>
    cases hr with
    | turns _ _ ht =>
      cases ht with
      | sends =>
        rw [foldl_place_calls]
        exact List.mem_append_left _ ih
      | _ => exact ih
    | _ => exact ih

theorem issued_ne_nil (h : leases ≠ []) : issued task attempt now leases last ≠ [] := by
  cases leases with
  | nil => exact absurd rfl h
  | cons lease rest => exact List.cons_ne_nil _ _

-- ---------------------------------------------------------------------------
-- Sending out
-- ---------------------------------------------------------------------------

/-- An attempt of a task is sent out: to distinct workers, some but no more than the task asks for
and than there are slots, each of which may take the task. -/
structure Sending (run : Run) (reg : Registry) (task : Task) (attempt : Nat)
    (leases : List Lease) : Prop where
  attempt : (run.session.progress? task.id).map (·.attempts + 1) = some attempt
  some : leases ≠ []
  free : leases.length ≤ run.slots.free
  redundancy : leases.length ≤ run.policy.redundancyFor task
  distinct : (leases.map (·.workerId)).Nodup
  fit : ∀ lease ∈ leases, ∃ r, reg.find? lease.workerId = .some r ∧
    r.spec.serves task.capability ∧ r.isEligible ∧ lease = ⟨lease.workerId, r.seq, r.executor⟩

theorem Sending.granted (h : run.Sending reg task attempt leases) {call : Call}
    (hc : call ∈ issued task attempt now leases last) :
    (reg.grant call.lease.workerId).2 = .some call.lease := by
  have hl := List.mem_map_of_mem (f := (·.lease)) hc
  rw [map_lease_issued] at hl
  obtain ⟨r, hr, -, -, hlease⟩ := h.fit call.lease hl
  exact Registry.grant_eq_some.mpr ⟨r, hr, hlease⟩

theorem Sending.nodup_workers (h : run.Sending reg task attempt leases) (now last : Nat) :
    ((issued task attempt now leases last).map (·.lease.workerId)).Nodup := by
  have hleases : (issued task attempt now leases last).map (·.lease) = leases :=
    map_lease_issued leases last
  have hd := h.distinct
  rwa [← hleases, List.map_map] at hd

/-- Each call of an attempt finds its worker as it was before all of them. -/
theorem Sending.moment {runId : String} (h : run.Sending reg task attempt leases)
    {x : Registry × Call}
    (hx : x ∈ Registry.moments runId reg (issued task attempt now leases last)) :
    ∃ r, x.1.find? x.2.lease.workerId = .some r ∧ reg.find? x.2.lease.workerId = .some r ∧
      r.spec.serves task.capability ∧ r.isEligible ∧
      x.2.lease = ⟨x.2.lease.workerId, r.seq, r.executor⟩ := by
  have hlease := List.mem_map_of_mem (f := (·.lease)) (Registry.mem_of_mem_moments hx)
  rw [map_lease_issued] at hlease
  obtain ⟨r, hr, hserves, heligible, hl⟩ := h.fit x.2.lease hlease
  exact ⟨r, (Registry.find?_moments (h.nodup_workers now last) hx).trans hr, hr, hserves,
    heligible, hl⟩

theorem Sending.fair (h : run.Sending reg task attempt leases) (runId : String) (now last : Nat) :
    run.policy.Fair task (Registry.moments runId reg (issued task attempt now leases last)) := by
  have hsnd := Registry.map_snd_moments runId reg (issued task attempt now leases last)
  have hlength := congrArg List.length hsnd
  rw [List.length_map, length_issued] at hlength
  refine ⟨fun hnil => ?_, hlength ▸ h.redundancy, ?_, ⟨attempt, fun x hx => ?_⟩, fun x hx => ?_⟩
  · rw [hnil] at hlength
    exact h.some (List.length_eq_zero_iff.mp hlength.symm)
  · have hworkers := h.nodup_workers now last
    rw [← List.map_congr_left fun _ hc => (mem_issued hc).2.1, ← hsnd, List.map_map] at hworkers
    exact hworkers
  · obtain ⟨hid, -, hattempt, -⟩ := mem_issued (Registry.mem_of_mem_moments hx)
    exact ⟨hid, hattempt⟩
  · obtain ⟨r, hr, -, hserves, heligible, hlease⟩ := h.moment hx
    obtain ⟨hopen, hload⟩ := Registration.isEligible_iff.mp heligible
    rw [(mem_issued (Registry.mem_of_mem_moments hx)).2.1]
    exact ⟨r, hr, hserves, hopen, hload, hlease⟩

theorem sendOut_lends (task : Task) (attempt now : Nat) (workers : List WorkerSnapshot)
    (run : Run) (reg : Registry) (hn : (workers.map (·.spec.workerId)).Nodup) :
    ∃ leases : List Lease,
      (sendOut task attempt now workers run reg).1 = leases.foldl (place task attempt now) run ∧
      (sendOut task attempt now workers run reg).2.1 =
        (issued task attempt now leases run.session.lastAssignment).foldl
          (Registry.lend run.session.runId) reg ∧
      leases.length = (sendOut task attempt now workers run reg).2.2 ∧
      leases.length ≤ run.slots.free ∧
      (leases.map (·.workerId)).Sublist (workers.map (·.spec.workerId)) ∧
      ∀ lease ∈ leases, (reg.grant lease.workerId).2 = some lease := by
  induction workers generalizing run reg with
  | nil => exact ⟨[], rfl, rfl, rfl, Nat.zero_le _, List.Sublist.refl _, List.forall_mem_nil _⟩
  | cons worker rest ih =>
    rw [List.map_cons, List.nodup_cons] at hn
    by_cases hf : run.slots.free = 0
    · rw [sendOut_of_full hf]
      exact ⟨[], rfl, rfl, rfl, Nat.zero_le _, List.nil_sublist _, List.forall_mem_nil _⟩
    · cases hg : reg.grant worker.spec.workerId with
      | mk reg' lease? =>
        cases lease? with
        | none =>
          rw [sendOut_of_vanished hf hg]
          obtain ⟨leases, he, hr, hc, hle, hsub, hgrants⟩ := ih run reg hn.2
          exact ⟨leases, he, hr, hc, hle, hsub.cons _, hgrants⟩
        | some lease =>
          have hw := workerId_of_grant hg
          rw [sendOut_of_grant hf hg]
          obtain ⟨leases, he, hr, hc, hle, hsub, hgrants⟩ :=
            ih (place task attempt now run lease)
              (reg'.emit (.taskDispatched run.session.runId task.id worker.spec.workerId attempt))
              hn.2
          have hfree : (place task attempt now run lease).slots.free = run.slots.free - 1 := rfl
          have hlend : reg.lend run.session.runId ⟨⟨run.session.lastAssignment + 1, task.id,
              lease.workerId, attempt, now⟩, lease, task.payload, task.timeout⟩ =
              reg'.emit
                (.taskDispatched run.session.runId task.id worker.spec.workerId attempt) := by
            rw [Registry.lend, hw, hg]
          refine ⟨lease :: leases, he, ?_, congrArg (· + 1) hc, by rw [List.length_cons]; omega, ?_,
            List.forall_mem_cons.mpr ⟨by rw [hw, hg], fun other ho => ?_⟩⟩
          · rw [issued, List.foldl_cons, hlend]
            exact hr
          · rw [List.map_cons, List.map_cons, hw]
            exact hsub.cons_cons _
          · -- the other leases are of other workers, which the first one leaves as they are
            have hm : other.workerId ∈ rest.map (·.spec.workerId) :=
              hsub.subset (List.mem_map_of_mem ho)
            have hne : other.workerId ≠ lease.workerId := fun heq => hn.1 (hw ▸ heq ▸ hm)
            obtain ⟨r, hfind, hlease⟩ := Registry.grant_eq_some.mp (hgrants other ho)
            rw [← hlend, Registry.find?_lend_ne _ _ hne] at hfind
            exact Registry.grant_eq_some.mpr ⟨r, hfind, hlease⟩

theorem find?_of_selectFor {capability : String} {worker : WorkerSnapshot} (hd : reg.Distinct)
    (h : worker ∈ (reg.selectFor capability now).2) :
    ∃ r, (reg.selectFor capability now).1.find? worker.spec.workerId = some r ∧
      r.spec.serves capability ∧ r.isEligible := by
  have hd' : (reg.selectFor capability now).1.Distinct := by
    rw [Registry.Distinct, Registry.selectFor, Registry.ids_refresh]
    exact hd
  obtain ⟨r, hr, rfl⟩ := List.mem_map.mp (List.mem_mergeSort.mp h)
  obtain ⟨hm, hfit⟩ := List.mem_filter.mp hr
  rw [Bool.and_eq_true] at hfit
  exact ⟨r, (Registry.find?_eq_some hd').mpr ⟨hm, rfl⟩, hfit.1, hfit.2⟩

theorem sendOut_sends {candidates : List WorkerSnapshot} (lastFailed : Option String) (now : Nat)
    (ha : (run.session.progress? task.id).map (·.attempts + 1) = some attempt)
    (hn : (candidates.map (·.spec.workerId)).Nodup)
    (hfit : ∀ worker ∈ candidates, ∃ r, reg.find? worker.spec.workerId = some r ∧
      r.spec.serves task.capability ∧ r.isEligible) :
    let sent := sendOut task attempt now (run.policy.choose task lastFailed candidates)
      (run.opened task) reg
    ∃ leases : List Lease, sent.1 = leases.foldl (place task attempt now) (run.opened task) ∧
      sent.2.1 = (issued task attempt now leases run.session.lastAssignment).foldl
        (Registry.lend run.session.runId) reg ∧
      leases.length = sent.2.2 ∧ (leases ≠ [] → run.Sending reg task attempt leases) := by
  obtain ⟨ordered, hperm, hchoice⟩ := run.policy.choose_sublist task lastFailed candidates
  have hworkers : ((run.policy.choose task lastFailed candidates).map
      (·.spec.workerId)).Nodup :=
    ((hperm.map _).nodup_iff.mpr hn).sublist (hchoice.map _)
  obtain ⟨leases, he, hr, hc, hfree, hsub, hgrants⟩ :=
    sendOut_lends task attempt now _ (run.opened task) reg hworkers
  refine ⟨leases, he, hr, hc, fun hne => ⟨ha, hne, hfree, ?_, hworkers.sublist hsub,
    fun lease hl => ?_⟩⟩
  · have hle := hsub.length_le
    rw [List.length_map, List.length_map] at hle
    exact Nat.le_trans hle (List.length_take_le _ _)
  · obtain ⟨worker, hm, hw⟩ := List.mem_map.mp (hsub.subset (List.mem_map_of_mem hl))
    obtain ⟨r, hfind, hserves, heligible⟩ := hfit worker (hperm.mem_iff.mp (hchoice.subset hm))
    obtain ⟨q, hq, hlease⟩ := Registry.grant_eq_some.mp (hgrants lease hl)
    rw [hw] at hfind
    obtain rfl : q = r := Option.some.inj (hq.symm.trans hfind)
    exact ⟨q, hq, hserves, heligible, hlease⟩

theorem calls_checkUnavailable_eq (run : Run) (reg : Registry) (task : Task) (now : Nat) :
    (run.checkUnavailable reg task now).1.calls = run.calls := by
  unfold checkUnavailable
  split
  · rfl
  · dsimp only
    split <;> rfl

theorem dispatchTask_sends (run : Run) (reg : Registry) (task : Task) (now : Nat)
    (hd : reg.Distinct) :
    (Turn run task now (run.dispatchTask reg task now).1 ∧
      (run.dispatchTask reg task now).1.calls = run.calls ∧
      Rests reg (run.dispatchTask reg task now).2.1) ∨
    ∃ attempt leases, run.Sending (reg.selectFor task.capability now).1 task attempt leases ∧
      (run.dispatchTask reg task now).1 =
        leases.foldl (place task attempt now) (run.opened task) ∧
      (run.dispatchTask reg task now).2.1 =
        (issued task attempt now leases run.session.lastAssignment).foldl
          (Registry.lend run.session.runId) (reg.selectFor task.capability now).1 := by
  have hturn := run.dispatchTask_turn reg task now
  have hrest : Registry.Rest reg (reg.selectFor task.capability now).1 := .refreshes _ _
  have hchosen := reg.nodup_selectFor hd task.capability now
  have hfit : ∀ worker ∈ (reg.selectFor task.capability now).2,
      ∃ r, (reg.selectFor task.capability now).1.find? worker.spec.workerId = some r ∧
        r.spec.serves task.capability ∧ r.isEligible := fun _ => find?_of_selectFor hd
  unfold dispatchTask at hturn ⊢
  split at hturn
  next reg' hs =>
    rw [hs] at hrest
    refine .inl ?_
    split at hturn
    next hc =>
      rw [if_pos hc]
      exact ⟨hturn, rfl, .single hrest⟩
    next hc =>
      rw [if_neg hc]
      exact ⟨hturn, calls_checkUnavailable_eq _ _ _ _, .head hrest (rests_checkUnavailable _ _ _ _)⟩
  next reg' candidates _ hs =>
    rw [hs] at hrest hchosen hfit
    dsimp only at hturn hrest hchosen hfit ⊢
    split at hturn
    next hfull =>
      rw [if_pos hfull]
      exact .inl ⟨hturn, rfl, .single hrest⟩
    next hfull =>
      simp only [if_neg hfull]
      split at hturn
      next session ha => exact .inl ⟨hturn, rfl, .single hrest⟩
      next session attempt ha =>
        obtain ⟨rfl, hattempt⟩ := beginAttempt_eq_some ha
        obtain ⟨leases, he, hr, hc, hsending⟩ := sendOut_sends
          (((run.session.clearWaiting task.id).progress? task.id).bind (·.lastFailedWorker)) now
          hattempt hchosen hfit
        split at hturn
        next h0 =>
          obtain rfl : leases = [] := List.length_eq_zero_iff.mp (hc.trans h0)
          have hcalls := congrArg Run.calls he
          simp only [if_pos h0]
          exact .inl ⟨hturn, hcalls, .head hrest (hr ▸ .refl)⟩
        next h0 =>
          simp only [if_neg h0, hs]
          refine .inr ⟨attempt, leases, hsending ?_, he, hr⟩
          rintro rfl
          exact h0 hc.symm

-- ---------------------------------------------------------------------------
-- Passages
-- ---------------------------------------------------------------------------

/-- Attempts are sent out one after the other, and in between nothing is done to calls and loads. -/
inductive Passage (now : Nat) (run : Run) (reg : Registry) : List Note → Run → Registry → Prop
  | start : Passage now run reg [] run reg
  | idles {notes : List Note} {run₁ run₂ : Run} {reg₁ reg₂ : Registry}
    (h : Passage now run reg notes run₁ reg₁) (hr : Rounds run₁ run₂)
    (hc : run₂.calls = run₁.calls) (hq : Rests reg₁ reg₂) : Passage now run reg notes run₂ reg₂
  | sends {notes : List Note} {run₁ : Run} {reg₁ : Registry} {task : Task} {attempt : Nat}
    {leases : List Lease} (h : Passage now run reg notes run₁ reg₁)
    (hm : task ∈ run₁.session.graph.tasks) (hr : run₁.session.isReady task)
    (hs : run₁.Sending reg₁ task attempt leases) :
    Passage now run reg
      (notes ++ [.sent task (Registry.moments run₁.session.runId reg₁
        (issued task attempt now leases run₁.session.lastAssignment))])
      (leases.foldl (place task attempt now) (run₁.opened task))
      ((issued task attempt now leases run₁.session.lastAssignment).foldl
        (Registry.lend run₁.session.runId) reg₁)

variable {notes : List Note}

theorem Sending.round (hm : task ∈ run.session.graph.tasks) (hr : run.session.isReady task)
    (hs : run.Sending reg task attempt leases) (now : Nat) :
    Round run (leases.foldl (place task attempt now) (run.opened task)) :=
  .turns hm hr (.sends hs.attempt hs.some hs.free)

theorem Passage.rounds (h : Passage now run reg notes run' reg') : Rounds run run' := by
  induction h with
  | start => exact .refl
  | idles _ hr _ _ ih => exact ih.trans hr
  | sends _ hm hr hs ih => exact ih.tail (hs.round hm hr now)

theorem Passage.uses (h : Passage now run reg notes run' reg') {calls : List (Registry × Call)}
    (hm : .sent task calls ∈ notes) {x : Registry × Call} (hx : x ∈ calls) :
    Registry.Uses reg x.1 ∧ ∃ runId, Registry.Uses (x.1.lend runId x.2) reg' := by
  have hall {notes : List Note} {run' : Run} {reg' : Registry}
      (h : Passage now run reg notes run' reg') : Registry.Uses reg reg' := by
    induction h with
    | start => exact .refl
    | idles _ _ _ hq ih => exact ih.trans hq.uses
    | sends _ _ _ _ ih => exact ih.trans (Registry.uses_lends _ _ _)
  induction h with
  | start => cases hm
  | idles _ _ _ hq ih =>
    obtain ⟨hbefore, runId, hafter⟩ := ih hm
    exact ⟨hbefore, runId, hafter.trans hq.uses⟩
  | sends hp _ _ _ ih =>
    rcases List.mem_append.mp hm with hm | hm
    · obtain ⟨hbefore, runId, hafter⟩ := ih hm
      exact ⟨hbefore, runId, hafter.trans (Registry.uses_lends _ _ _)⟩
    · cases List.mem_singleton.mp hm
      obtain ⟨hbefore, hafter⟩ := Registry.uses_moments hx
      exact ⟨(hall hp).trans hbefore, _, hafter⟩

theorem notes_of_calls {calls : List Call}
    (hc : (run.dispatchTask reg task now).1.calls = run.calls ++ calls) :
    Visit.calls now ⟨run, reg, task⟩ = calls := by
  rw [Visit.calls, hc, List.drop_left]

theorem Passage.turn {run₀ : Run} {reg₀ : Registry} (h : Passage now run₀ reg₀ notes run reg)
    (hd : reg.Distinct) (hm : task ∈ run.session.graph.tasks) (hr : run.session.isReady task) :
    Passage now run₀ reg₀ (notes ++ Visit.notes now ⟨run, reg, task⟩)
      (run.dispatchTask reg task now).1 (run.dispatchTask reg task now).2.1 := by
  rcases run.dispatchTask_sends reg task now hd with
    ⟨hturn, hc, hrests⟩ | ⟨attempt, leases, hs, he, hq⟩
  · have hnone : Visit.calls now ⟨run, reg, task⟩ = [] :=
      notes_of_calls (by rw [hc, List.append_nil])
    rw [Visit.notes, hnone, List.append_nil]
    exact h.idles (.single (.turns hm hr hturn)) hc hrests
  · have hselect : Rests reg (reg.selectFor task.capability now).1 := .single (.refreshes _ _)
    have hcalls : Visit.calls now ⟨run, reg, task⟩ =
        issued task attempt now leases run.session.lastAssignment :=
      notes_of_calls (by rw [he, foldl_place_calls]; rfl)
    have hnotes : Visit.notes now ⟨run, reg, task⟩ = [.sent task
        (Registry.moments run.session.runId (reg.selectFor task.capability now).1
          (issued task attempt now leases run.session.lastAssignment))] := by
      rw [Visit.notes, hcalls]
      split
      next hnil => exact absurd hnil (issued_ne_nil hs.some)
      · rfl
    rw [hnotes, he, hq]
    exact (h.idles .refl rfl hselect).sends hm hr hs

theorem Passage.turns {tasks : List Task} {run₀ : Run} {reg₀ : Registry}
    (h : Passage now run₀ reg₀ notes run reg) (hd : reg.Distinct)
    (hn : (tasks.map (·.id)).Nodup) (hm : ∀ task ∈ tasks, task ∈ run.session.graph.tasks)
    (hr : ∀ task ∈ tasks, run.session.isReady task) :
    Passage now run₀ reg₀ (notes ++ (visits now tasks run reg).flatMap (Visit.notes now))
      (dispatchAll now tasks run reg).1 (dispatchAll now tasks run reg).2.1 := by
  induction tasks generalizing run reg notes with
  | nil =>
    rw [visits, List.flatMap_nil, List.append_nil]
    exact h
  | cons task rest ih =>
    rw [List.map_cons, List.nodup_cons] at hn
    have ht := run.dispatchTask_turn reg task now
    have hready := hr task List.mem_cons_self
    have hturn := h.turn hd (hm task List.mem_cons_self) hready
    rw [visits, List.flatMap_cons, ← List.append_assoc]
    refine ih hturn ?_ hn.2 (fun other ho => ?_) fun other ho => ?_
    · exact Registry.Changes.distinct hd (run.uses_dispatchTask reg task now).changes
    · rw [ht.graph]
      exact hm other (List.mem_cons_of_mem _ ho)
    · exact ht.isReady hready (hr other (List.mem_cons_of_mem _ ho)) fun he =>
        hn.1 (List.mem_map.mpr ⟨other, ho, he⟩)

theorem pass_passage (run : Run) (reg : Registry) (now : Nat)
    (hn : run.session.graph.ids.Nodup) (hd : reg.Distinct) :
    Passage now run reg (run.passNotes reg now) (run.pass reg now).1 (run.pass reg now).2 := by
  have hprepare : Passage now run reg [] (run.prepare reg now).1 (run.prepare reg now).2 :=
    Passage.start.idles (prepare_rounds run reg now) rfl (rests_propagateFailures run reg)
  have hdistinct : (run.prepare reg now).2.Distinct :=
    Registry.Changes.distinct hd (run.rests_propagateFailures reg).uses.changes
  have hgraph : (run.prepare reg now).1.session.graph = run.session.graph :=
    Rounds.graph (prepare_rounds run reg now)
  have hready : Passage now run reg (run.passNotes reg now)
      ((run.prepare reg now).1.dispatchReady (run.prepare reg now).2 now).1
      ((run.prepare reg now).1.dispatchReady (run.prepare reg now).2 now).2.1 := by
    rw [passNotes, readyNotes, dispatchReady]
    split
    next hnone =>
      rw [hnone]
      exact hprepare
    next ready hready =>
      have hlearn := hprepare.idles (.single (.learns (run.prepare reg now).2.trustTable)) rfl .refl
      exact hlearn.turns hdistinct (nodup_readyTasks (by rw [hgraph]; exact hn))
        (fun task ht => (mem_readyTasks.mp ht).1) fun task ht => (mem_readyTasks.mp ht).2
  rw [pass_eq]
  exact (hready.idles (propagateFailures_rounds _ _) rfl (rests_propagateFailures _ _)).idles
    observeScaling_rounds (calls_observeScaling _ _ _ _) (rests_observeScaling _ _ _ _)

end Run

-- ---------------------------------------------------------------------------
-- Ends of calls
-- ---------------------------------------------------------------------------

theorem Run.Sound.loaded_complete {run : Run} {reg : Registry} {others : List Lease}
    (hs : run.Sound) (h : reg.Loaded (run.calls.map (·.lease) ++ others)) (n : Nat)
    (cancelled : Bool) (outcome : Outcome) (now : Nat) :
    (run.complete reg n cancelled outcome now).2.Loaded
      ((run.complete reg n cancelled outcome now).1.calls.map (·.lease) ++ others) := by
  cases hf : run.calls.find? (·.assignment.id = n) with
  | none =>
    rw [Run.complete, hf]
    exact h
  | some call =>
    obtain rfl : call.assignment.id = n := by simpa using List.find?_some hf
    have hc := List.mem_of_find?_eq_some hf
    have hreturn := hs.complete_return hc reg cancelled outcome now
    have hperm := ((hreturn.calls_perm hs hc).map (·.lease)).append_right others
    have htold : (call.told cancelled reg outcome now).Loaded
        (run.calls.map (·.lease) ++ others) := by
      unfold Call.told
      split
      · exact h
      · exact h.reportOutcome _ _ _
    exact (htold.perm hperm).release.rests (Run.rests_complete hf reg cancelled outcome now)

theorem Run.loaded_cancel {run : Run} {reg : Registry} {others : List Lease}
    (h : reg.Loaded (run.calls.map (·.lease) ++ others)) :
    (run.cancel reg).2.Loaded ((run.cancel reg).1.calls.map (·.lease) ++ others) := by
  rw [cancel_registry, cancel_eq]
  exact h.releases

-- ---------------------------------------------------------------------------
-- Courses
-- ---------------------------------------------------------------------------

namespace Course

/-- What a run itself does, and what is noted of it. -/
inductive Does (c : Course) : List Note → Course → Prop
  | pass (hp : c.phase = .pass) (hc : c.cancelled = false) :
    Does c (c.run.passNotes c.registry c.now) c.pass
  | complete (hp : c.phase = .wait) (n : Nat) (outcome : Outcome) :
    Does c (c.run.endNotes c.registry n c.cancelled outcome c.now) (c.complete n outcome)
  | wake (hp : c.phase = .wait) (hc : c.cancelled = false) : Does c [] c.wake
  | leave (hp : c.phase = .leave) (hc : c.cancelled = false) : Does c [] c.leave
  | stop (hp : c.phase ≠ .ended) (hc : c.cancelled = true) : Does c [] c.stop

variable {c c' : Course} {notes : List Note}

theorem Does.own (h : c.Does notes c') : c.Own c' := by
  cases h with
  | pass hp hc => exact .pass hp hc
  | complete hp n outcome => exact .complete hp n outcome
  | wake hp hc => exact .wake hp hc
  | leave hp hc => exact .leave hp hc
  | stop hp hc => exact .stop hp hc

theorem Own.exists_does (h : c.Own c') : ∃ notes, c.Does notes c' := by
  cases h with
  | pass hp hc => exact ⟨_, .pass hp hc⟩
  | complete hp n outcome => exact ⟨_, .complete hp n outcome⟩
  | wake hp hc => exact ⟨_, .wake hp hc⟩
  | leave hp hc => exact ⟨_, .leave hp hc⟩
  | stop hp hc => exact ⟨_, .stop hp hc⟩

end Course

end Crew
