import Mathlib.Logic.Relation
import Crew.Proofs.Graph.Distinct
import Crew.Proofs.Session.Operations
import Crew.Run.Complete
import Crew.Run.Dispatch

/-!
# What a run is made of

A pass is a sequence of rounds (`pass_rounds`): a task is skipped, backoffs end, the trust table is
brought up to date, a ready task has its turn, the scaling detector looks. The end of a call is a
single return (`complete_return`). Whatever a run keeps is proved of these small changes, each of
which says under which condition the run makes it; the functions of a run are not unfolded again.
-/

namespace Crew

/-- What a call brings back; nothing if its run was cancelled or its worker has left. -/
def Call.yield (call : Call) (cancelled : Bool) (reg : Registry) (outcome : Outcome) (now : Nat) :
    Option TaskResult :=
  if cancelled || reg.isRevoked call.lease then none else some (call.result outcome now)

theorem Call.eq_of_yield {call : Call} {cancelled : Bool} {reg : Registry} {outcome : Outcome}
    {now : Nat} {r : TaskResult} (h : call.yield cancelled reg outcome now = some r) :
    r = call.result outcome now := by
  unfold yield at h
  split at h
  · cases h
  · exact (Option.some.inj h).symm

/-- The registry once a call has ended: its worker's breaker hears of the outcome, unless the run
was cancelled or the worker has left. -/
def Call.told (call : Call) (cancelled : Bool) (reg : Registry) (outcome : Outcome) (now : Nat) :
    Registry :=
  if cancelled || reg.isRevoked call.lease then reg
  else (reg.reportOutcome call.assignment.workerId outcome.isSuccess now).1

theorem Call.conclude_eq (call : Call) (cancelled : Bool) (outcome : Outcome) (now : Nat)
    (reg : Registry) (slots : Slots) : ∃ completion : Completion,
      completion.result? = call.yield cancelled reg outcome now ∧
      call.conclude cancelled outcome now reg slots =
        (completion, (call.told cancelled reg outcome now).release call.lease, slots.release) := by
  unfold conclude yield told
  cases cancelled with
  | true => exact ⟨_, rfl, rfl⟩
  | false =>
    cases reg.isRevoked call.lease with
    | true => exact ⟨_, rfl, rfl⟩
    | false => exact ⟨_, rfl, rfl⟩

theorem Registry.journal_grant (reg : Registry) (workerId : String) :
    (reg.grant workerId).1.journal = reg.journal := by
  unfold grant
  split <;> rfl

namespace Run

variable {run run' : Run} {reg : Registry} {task : Task} {now : Nat}

-- ---------------------------------------------------------------------------
-- Turns
-- ---------------------------------------------------------------------------

def place (task : Task) (attempt now : Nat) (run : Run) (lease : Lease) : Run :=
  let (session, assignment) := run.session.recordDispatch task.id lease.workerId attempt now
  { run with
    session
    slots := { run.slots with free := run.slots.free - 1 }
    calls := run.calls ++ [⟨assignment, lease, task.payload, task.timeout⟩] }

/-- The run once an attempt of a task has begun and none of its calls is made. -/
def opened (run : Run) (task : Task) : Run :=
  run.withSession ((run.session.clearWaiting task.id).beginAttempt task.id).1

/-- What becomes of a run in the turn of a ready task: it goes on waiting for a worker that is busy
or for a slot, waits for a worker to come, is given up, is sent out, or finds that nothing of an
attempt could be sent. -/
inductive Turn (run : Run) (task : Task) (now : Nat) : Run → Prop
  | waits : Turn run task now (run.withSession (run.session.clearWaiting task.id))
  | lacks : Turn run task now (run.withSession (run.session.markWaiting task.id now).1)
  | givesUp (waited : Nat) :
      Turn run task now (run.withSession ((run.session.markWaiting task.id now).1.fail task.id
        (UnavailableError.mk task.capability waited).message))
  | sends {attempt : Nat} {leases : List Lease}
      (ha : (run.session.progress? task.id).map (·.attempts + 1) = some attempt)
      (hne : leases ≠ []) (hfree : leases.length ≤ run.slots.free) :
      Turn run task now (leases.foldl (place task attempt now) (run.opened task))
  | withdraws :
      Turn run task now
        (run.withSession ((run.opened task).session.abortAttempt task.id))

theorem workerId_of_grant {workerId : String} {reg' : Registry} {lease : Lease}
    (h : reg.grant workerId = (reg', some lease)) : lease.workerId = workerId := by
  unfold Registry.grant at h
  split at h <;> cases h
  rfl

section
variable {attempt : Nat} {worker : WorkerSnapshot} {rest : List WorkerSnapshot} {reg' : Registry}
  {lease : Lease}

theorem sendOut_of_full (hf : run.slots.free = 0) :
    sendOut task attempt now (worker :: rest) run reg = (run, reg, 0) := by
  simp [sendOut, Slots.reserve, hf]

theorem sendOut_of_vanished (hf : run.slots.free ≠ 0)
    (hg : reg.grant worker.spec.workerId = (reg', none)) :
    sendOut task attempt now (worker :: rest) run reg =
      sendOut task attempt now rest run reg := by
  simp [sendOut, Slots.reserve, hf, hg]

theorem sendOut_of_grant (hf : run.slots.free ≠ 0)
    (hg : reg.grant worker.spec.workerId = (reg', some lease)) :
    sendOut task attempt now (worker :: rest) run reg =
      let next := sendOut task attempt now rest (place task attempt now run lease)
        (reg'.emit (.taskDispatched run.session.runId task.id worker.spec.workerId attempt))
      (next.1, next.2.1, next.2.2 + 1) := by
  simp only [sendOut, Slots.reserve, hf, ↓reduceIte, hg, place, workerId_of_grant hg]
  rfl

end

theorem sendOut_eq (task : Task) (attempt now : Nat) (workers : List WorkerSnapshot) (run : Run)
    (reg : Registry) :
    ∃ leases : List Lease,
      (sendOut task attempt now workers run reg).1 = leases.foldl (place task attempt now) run ∧
      leases.length = (sendOut task attempt now workers run reg).2.2 ∧
      leases.length ≤ run.slots.free ∧
      (leases.map (·.workerId)).Sublist (workers.map (·.spec.workerId)) ∧
      (sendOut task attempt now workers run reg).2.1.journal = reg.journal ++
        leases.map fun lease =>
          .taskDispatched run.session.runId task.id lease.workerId attempt := by
  induction workers generalizing run reg with
  | nil => exact ⟨[], rfl, rfl, Nat.zero_le _, List.Sublist.refl _, (List.append_nil _).symm⟩
  | cons worker rest ih =>
    by_cases hf : run.slots.free = 0
    · rw [sendOut_of_full hf]
      exact ⟨[], rfl, rfl, Nat.zero_le _, List.nil_sublist _, (List.append_nil _).symm⟩
    · cases hg : reg.grant worker.spec.workerId with
      | mk reg' lease? =>
        cases lease? with
        | none =>
          rw [sendOut_of_vanished hf hg]
          obtain ⟨leases, he, hn, hle, hsub, hj⟩ := ih run reg
          exact ⟨leases, he, hn, hle, hsub.cons _, hj⟩
        | some lease =>
          have hworker := workerId_of_grant hg
          have hgrant : reg'.journal = reg.journal := by
            rw [← reg.journal_grant worker.spec.workerId, hg]
          rw [sendOut_of_grant hf hg]
          obtain ⟨leases, he, hn, hle, hsub, hj⟩ := ih (place task attempt now run lease)
            (reg'.emit (.taskDispatched run.session.runId task.id worker.spec.workerId attempt))
          have hfree : (place task attempt now run lease).slots.free = run.slots.free - 1 := rfl
          refine ⟨lease :: leases, he, congrArg (· + 1) hn, by rw [List.length_cons]; omega, ?_, ?_⟩
          · rw [List.map_cons, List.map_cons, hworker]
            exact hsub.cons_cons _
          · rw [List.map_cons, hworker, ← hgrant, List.append_cons]
            exact hj

theorem checkUnavailable_turn (run : Run) (reg : Registry) (task : Task) (now : Nat) :
    Turn run task now (run.checkUnavailable reg task now).1 := by
  unfold checkUnavailable
  split
  next session hm =>
    obtain rfl : (run.session.markWaiting task.id now).1 = session := by rw [hm]
    exact .lacks
  next session since hm =>
    obtain rfl : (run.session.markWaiting task.id now).1 = session := by rw [hm]
    dsimp only
    split
    · exact .lacks
    · exact .givesUp _

theorem sendOut_turn {attempt : Nat} (workers : List WorkerSnapshot) (reg : Registry)
    (ha : (run.session.progress? task.id).map (·.attempts + 1) = some attempt) :
    Turn run task now
      (let sent := sendOut task attempt now workers (run.opened task) reg
      if sent.2.2 = 0 then sent.1.withSession (sent.1.session.abortAttempt task.id)
      else sent.1) := by
  obtain ⟨leases, he, hn, hle, -⟩ := sendOut_eq task attempt now workers (run.opened task) reg
  dsimp only
  split
  next h0 =>
    rw [List.length_eq_zero_iff.mp (hn.trans h0)] at he
    rw [he]
    exact .withdraws
  next h0 =>
    rw [he]
    refine .sends ha ?_ hle
    rintro rfl
    exact h0 hn.symm

theorem beginAttempt_eq_some {session : Session} {attempt : Nat}
    (ha : (run.session.clearWaiting task.id).beginAttempt task.id = (session, some attempt)) :
    (run.opened task).session = session ∧
      (run.session.progress? task.id).map (·.attempts + 1) = some attempt := by
  refine ⟨congrArg Prod.fst ha, ?_⟩
  have h := congrArg Prod.snd ha
  simp only [Session.beginAttempt, Session.clearWaiting, Session.progress?_update, if_true] at h
  simpa only [Option.map_map, Function.comp_def] using h

theorem dispatchTask_turn (run : Run) (reg : Registry) (task : Task) (now : Nat) :
    Turn run task now (run.dispatchTask reg task now).1 := by
  unfold dispatchTask
  split
  next reg' _ =>
    split
    · exact .waits
    · exact checkUnavailable_turn run reg' task now
  next reg' candidates _ _ =>
    dsimp only
    split
    · exact .waits
    · split
      next session ha =>
        exact .waits
      next session attempt ha =>
        obtain ⟨rfl, hattempt⟩ := beginAttempt_eq_some ha
        rw [apply_ite Prod.fst]
        exact sendOut_turn _ reg' hattempt

section
variable {attempt : Nat} {id : String} (leases : List Lease)

@[simp] theorem graph_foldl_place :
    (leases.foldl (place task attempt now) run).session.graph = run.session.graph := by
  induction leases generalizing run with
  | nil => rfl
  | cons lease rest ih => exact ih

theorem progress?_foldl_place :
    (leases.foldl (place task attempt now) run).session.progress? id =
      if id = task.id then
        (run.session.progress? id).map fun p =>
          { p with outstanding := p.outstanding + leases.length }
      else run.session.progress? id := by
  induction leases generalizing run with
  | nil =>
    split
    · exact Option.map_id'.symm
    · rfl
  | cons lease rest ih =>
    rw [List.foldl_cons, ih]
    have hp : (place task attempt now run lease).session.progress? id = _ :=
      run.session.progress?_recordDispatch id task.id lease.workerId attempt now
    rw [hp]
    split
    · simp [Option.map_map, Function.comp_def, Nat.add_assoc, Nat.add_comm 1]
    · rfl

end

theorem progress?_opened {p : Progress} (hp : run.session.progress? task.id = some p) :
    (run.opened task).session.progress? task.id = some p.begin := by
  simp [opened, withSession, Session.beginAttempt, Session.clearWaiting, Session.progress?_update,
    hp, Progress.begin]

theorem progress?_sends {attempt : Nat} {leases : List Lease} {p : Progress}
    (hp : run.session.progress? task.id = some p) :
    (leases.foldl (place task attempt now) (run.opened task)).session.progress? task.id =
      some { p.begin with outstanding := leases.length } := by
  rw [progress?_foldl_place, if_pos rfl, progress?_opened hp]
  simp [Progress.begin]

theorem Turn.graph (h : Turn run task now run') : run'.session.graph = run.session.graph := by
  cases h with
  | waits => rfl
  | lacks => unfold Session.markWaiting; split <;> rfl
  | givesUp => unfold Session.markWaiting; split <;> rfl
  | sends => rw [graph_foldl_place]; rfl
  | withdraws => rfl

theorem Turn.progress?_ne {id : String} (h : Turn run task now run') (hne : id ≠ task.id) :
    run'.session.progress? id = run.session.progress? id := by
  have hm : (run.session.markWaiting task.id now).1.progress? id = run.session.progress? id := by
    unfold Session.markWaiting
    split
    · rfl
    · exact Session.progress?_update_ne _ _ _ hne
  have ho : (run.opened task).session.progress? id = run.session.progress? id := by
    unfold opened withSession Session.beginAttempt Session.clearWaiting
    rw [Session.progress?_update_ne _ _ _ hne, Session.progress?_update_ne _ _ _ hne]
  cases h with
  | waits => exact Session.progress?_update_ne _ _ _ hne
  | lacks => exact hm
  | givesUp => exact (Session.progress?_update_ne _ _ _ hne).trans hm
  | sends => rw [progress?_foldl_place, if_neg hne, ho]
  | withdraws => exact (Session.progress?_update_ne _ _ _ hne).trans ho

/-- A ready task stays ready while others have their turns. -/
theorem Turn.isReady {other : Task} (h : Turn run task now run') (hr : run.session.isReady task)
    (ho : run.session.isReady other) (hne : other.id ≠ task.id) : run'.session.isReady other := by
  have hp := (Session.isReady_iff.mp hr).1
  obtain ⟨hpending, hdeps⟩ := Session.isReady_iff.mp ho
  refine Session.isReady_iff.mpr ⟨?_, fun dep hd => ?_⟩
  · rw [← hpending]
    exact congrArg (Option.map _) (h.progress?_ne hne)
  · -- the task whose turn it is has not succeeded yet, so it is none of the dependencies
    have hdep := hdeps dep hd
    have hd' : dep ≠ task.id := by
      rintro rfl
      rw [hp] at hdep
      cases hdep
    rw [← hdep]
    exact congrArg (Option.map _) (h.progress?_ne hd')

-- ---------------------------------------------------------------------------
-- Rounds
-- ---------------------------------------------------------------------------

/-- One of the small changes that a pass is made of. -/
inductive Round (run : Run) : Run → Prop
  | skips {id dep : String} (hp : run.session.state? id = some .pending)
      (hd : run.session.failedDependency? id = some dep) :
      Round run (run.withSession (run.session.update id (·.skip dep)))
  | releases (now : Nat) : Round run (run.withSession (run.session.releaseBackoffs now).1)
  | learns (latest : TrustTable) : Round run (run.withSession (run.session.refreshTrust latest))
  | turns {task : Task} {now : Nat} {run' : Run} (hm : task ∈ run.session.graph.tasks)
      (hr : run.session.isReady task) (ht : Turn run task now run') : Round run run'
  | looks (detector : ScalingDetector) : Round run { run with detector }

abbrev Rounds : Run → Run → Prop := Relation.ReflTransGen Round

theorem skipDownstream_rounds (ids : List String) :
    Rounds run (run.withSession (run.session.skipDownstream ids).1) := by
  induction ids generalizing run with
  | nil => exact .refl
  | cons id rest ih =>
    unfold Session.skipDownstream
    split
    next hp =>
      split
      next dep hd => exact .head (.skips hp hd) ih
      · exact ih
    · exact ih

theorem propagateFailures_rounds (run : Run) (reg : Registry) :
    Rounds run (run.propagateFailures reg).1 :=
  skipDownstream_rounds run.session.order

/-- The tasks that have their turn one after the other, each with the run as it finds it. -/
def turns (now : Nat) : List Task → Run → Registry → List (Run × Task)
  | [], _, _ => []
  | task :: rest, run, reg =>
    (run, task) ::
      turns now rest (run.dispatchTask reg task now).1 (run.dispatchTask reg task now).2.1

theorem turns_subset {run : Run} {reg : Registry} {now : Nat} {tasks : List Task}
    {turn : Run × Task} (h : turn ∈ turns now tasks run reg) : turn.2 ∈ tasks := by
  induction tasks generalizing run reg with
  | nil => cases h
  | cons task rest ih =>
    rcases List.mem_cons.mp h with rfl | h
    · exact List.mem_cons_self
    · exact List.mem_cons_of_mem _ (ih h)

theorem dispatchAll_rounds {tasks : List Task} (run : Run) (reg : Registry) (now : Nat)
    (hd : (tasks.map (·.id)).Nodup)
    (hm : ∀ task ∈ tasks, task ∈ run.session.graph.tasks)
    (hr : ∀ task ∈ tasks, run.session.isReady task) :
    Rounds run (dispatchAll now tasks run reg).1 ∧
      ∀ turn ∈ turns now tasks run reg, Rounds run turn.1 ∧
        turn.2 ∈ turn.1.session.graph.tasks ∧ turn.1.session.isReady turn.2 := by
  induction tasks generalizing run reg with
  | nil => exact ⟨.refl, fun turn ht => nomatch ht⟩
  | cons task rest ih =>
    have ht := dispatchTask_turn run reg task now
    have hround := Round.turns (hm task List.mem_cons_self) (hr task List.mem_cons_self) ht
    rw [List.map_cons, List.nodup_cons] at hd
    obtain ⟨hrounds, hturns⟩ := ih _ (run.dispatchTask reg task now).2.1 hd.2
      (fun other ho => by rw [ht.graph]; exact hm other (List.mem_cons_of_mem _ ho))
      (fun other ho => ht.isReady (hr task List.mem_cons_self)
        (hr other (List.mem_cons_of_mem _ ho)) fun he => hd.1 (List.mem_map.mpr ⟨other, ho, he⟩))
    refine ⟨.head hround hrounds, fun turn hturn => ?_⟩
    rcases List.mem_cons.mp hturn with rfl | hturn
    · exact ⟨.refl, hm task List.mem_cons_self, hr task List.mem_cons_self⟩
    · obtain ⟨h, hmem, hready⟩ := hturns turn hturn
      exact ⟨.head hround h, hmem, hready⟩

theorem mem_readyTasks {s : Session} :
    task ∈ s.readyTasks ↔ task ∈ s.graph.tasks ∧ s.isReady task := by
  simp [Session.readyTasks, List.mem_mergeSort]

theorem nodup_readyTasks {s : Session} (hn : s.graph.ids.Nodup) :
    (s.readyTasks.map (·.id)).Nodup := by
  have hp : (s.readyTasks.map (·.id)).Perm ((s.graph.tasks.filter s.isReady).map (·.id)) :=
    (List.mergeSort_perm _ _).map _
  exact hp.nodup_iff.mpr (hn.sublist (List.filter_sublist.map _))

def readyTurns (run : Run) (reg : Registry) (now : Nat) : List (Run × Task) :=
  turns now run.session.readyTasks (run.withSession (run.session.refreshTrust reg.trustTable)) reg

theorem dispatchReady_rounds (run : Run) (reg : Registry) (now : Nat)
    (hn : run.session.graph.ids.Nodup) :
    Rounds run (run.dispatchReady reg now).1 ∧
      ∀ turn ∈ run.readyTurns reg now, Rounds run turn.1 ∧
        turn.2 ∈ turn.1.session.graph.tasks ∧ turn.1.session.isReady turn.2 := by
  have hlearn : Round run (run.withSession (run.session.refreshTrust reg.trustTable)) := .learns _
  obtain ⟨hrounds, hturns⟩ := dispatchAll_rounds
    (run.withSession (run.session.refreshTrust reg.trustTable)) reg now (nodup_readyTasks hn)
    (fun task ht => (mem_readyTasks.mp ht).1) (fun task ht => (mem_readyTasks.mp ht).2)
  refine ⟨?_, fun turn ht => ?_⟩
  · unfold dispatchReady
    split
    · exact .refl
    · exact .head hlearn hrounds
  · obtain ⟨h, hmem, hready⟩ := hturns turn ht
    exact ⟨.head hlearn h, hmem, hready⟩

theorem observeScaling_eq (run : Run) (reg : Registry) (waiting now : Nat) :
    (run.observeScaling reg waiting now).1 =
      { run with detector := (run.observeScaling reg waiting now).1.detector } := by
  unfold observeScaling
  dsimp only
  split <;> rfl

@[simp] theorem session_observeScaling (run : Run) (reg : Registry) (waiting now : Nat) :
    (run.observeScaling reg waiting now).1.session = run.session := by
  rw [observeScaling_eq]

@[simp] theorem calls_observeScaling (run : Run) (reg : Registry) (waiting now : Nat) :
    (run.observeScaling reg waiting now).1.calls = run.calls := by
  rw [observeScaling_eq]

theorem observeScaling_rounds {waiting : Nat} :
    Rounds run (run.observeScaling reg waiting now).1 := by
  rw [observeScaling_eq]
  exact .single (.looks _)

theorem Round.graph (h : Round run run') : run'.session.graph = run.session.graph := by
  cases h with
  | skips => rfl
  | releases => rfl
  | learns => rfl
  | turns _ _ ht => exact ht.graph
  | looks => rfl

theorem Rounds.graph (h : Rounds run run') : run'.session.graph = run.session.graph := by
  induction h with
  | refl => rfl
  | tail _ hr ih => exact hr.graph.trans ih

def prepare (run : Run) (reg : Registry) (now : Nat) : Run × Registry :=
  let (run, reg) := run.propagateFailures reg
  (run.withSession (run.session.releaseBackoffs now).1, reg)

theorem pass_eq (run : Run) (reg : Registry) (now : Nat) :
    run.pass reg now =
      let sent := (run.prepare reg now).1.dispatchReady (run.prepare reg now).2 now
      let settled := sent.1.propagateFailures sent.2.1
      settled.1.observeScaling settled.2 sent.2.2 now := rfl

theorem prepare_rounds (run : Run) (reg : Registry) (now : Nat) :
    Rounds run (run.prepare reg now).1 :=
  (propagateFailures_rounds run reg).tail (.releases now)

theorem pass_rounds (hn : run.session.graph.ids.Nodup) : Rounds run (run.pass reg now).1 := by
  have h₁ := prepare_rounds run reg now
  have h₂ := h₁.trans (dispatchReady_rounds _ (run.prepare reg now).2 now
    (by rw [Rounds.graph h₁]; exact hn)).1
  rw [pass_eq]
  exact (h₂.trans (propagateFailures_rounds _ _)).trans observeScaling_rounds

-- ---------------------------------------------------------------------------
-- Returns
-- ---------------------------------------------------------------------------

def giveBack (run : Run) (assignmentId : Nat) : Run :=
  { run with
    calls := run.calls.filter (·.assignment.id ≠ assignmentId)
    slots := run.slots.release }

/-- What becomes of a session when an attempt is complete: it succeeds, is tried again after a
while, or was the last one. A graph that does not know the task leaves the attempt as it is. -/
inductive Ending (run : Run) (s : Session) (taskId : String) (results : List TaskResult) :
    Session → Prop
  | succeeds {canonical : CanonicalResult}
      (hc : run.policy.resolver.resolve taskId results s.trust = some canonical) :
      Ending run s taskId results (s.succeed taskId canonical)
  | backsOff {task : Task} {delay : Nat} (now : Nat) (hg : s.graph.get? taskId = some task)
      (hd : run.policy.retry.decide (((s.progress? taskId).map (·.retriesUsed)).getD 0)
        task.maxRetries (attemptError results) = some delay) :
      Ending run s taskId results (s.backOff taskId (deadline now delay)
        (results.getLast?.map (·.workerId)) (attemptError results))
  | exhausts {task : Task} (hg : s.graph.get? taskId = some task)
      (hd : run.policy.retry.decide (((s.progress? taskId).map (·.retriesUsed)).getD 0)
        task.maxRetries (attemptError results) = none) :
      Ending run s taskId results (s.fail taskId (attemptError results))
  | strays (hg : s.graph.get? taskId = none) : Ending run s taskId results s

/-- What the end of the call with the given number does to a run: its task goes on waiting for other
calls or is pending again, or the attempt is complete. -/
inductive Return (run : Run) (n : Nat) (result : Option TaskResult) : Run → Prop
  | goesOn {now : Nat} {s : Session} {settled : Settled}
      (hs : run.session.settle n result now = (s, settled))
      (ho : ∀ taskId results, settled ≠ .closed taskId results) :
      Return run n result ((run.giveBack n).withSession s)
  | closes {now : Nat} {s s' : Session} {taskId : String} {results : List TaskResult}
      (hs : run.session.settle n result now = (s, .closed taskId results))
      (he : Ending run s taskId results s') :
      Return run n result ((run.giveBack n).withSession s')

theorem closeAttempt_ending (run : Run) (reg : Registry) (taskId : String)
    (results : List TaskResult) (now : Nat) :
    ∃ s, Ending run run.session taskId results s ∧
      (run.closeAttempt reg taskId results now).1 = run.withSession s := by
  unfold closeAttempt
  split
  next canonical hc => exact ⟨_, .succeeds hc, rfl⟩
  next hc =>
    split
    next hn => exact ⟨_, .strays hn, rfl⟩
    next task ht =>
      dsimp only
      split
      next delay hd => exact ⟨_, .backsOff now ht hd, rfl⟩
      next hd => exact ⟨_, .exhausts ht hd, rfl⟩

theorem account_return {n : Nat} {completion : Completion} :
    Return run n completion.result? ((run.giveBack n).account reg n completion now).1 := by
  unfold account
  split
  next s taskId results hs =>
    obtain ⟨s', he, hr⟩ :=
      closeAttempt_ending ((run.giveBack n).withSession s) reg taskId results now
    rw [hr]
    exact .closes hs (by cases he <;> constructor <;> assumption)
  next s settled ho hs => exact .goesOn hs ho

theorem complete_account {n : Nat} {call : Call}
    (hf : run.calls.find? (·.assignment.id = n) = some call) (reg : Registry) (cancelled : Bool)
    (outcome : Outcome) (now : Nat) : ∃ completion,
      completion.result? = call.yield cancelled reg outcome now ∧
      run.complete reg n cancelled outcome now =
        (run.giveBack n).account ((call.told cancelled reg outcome now).release call.lease) n
          completion now := by
  obtain ⟨completion, hy, hc⟩ := call.conclude_eq cancelled outcome now reg run.slots
  refine ⟨completion, hy, ?_⟩
  rw [complete, hf]
  simp only [hc]
  rfl

theorem complete_return (run : Run) (reg : Registry) (n : Nat) (cancelled : Bool)
    (outcome : Outcome) (now : Nat) : (run.complete reg n cancelled outcome now).1 = run ∨
      ∃ call ∈ run.calls, call.assignment.id = n ∧
        Return run n (call.yield cancelled reg outcome now)
          (run.complete reg n cancelled outcome now).1 := by
  cases hf : run.calls.find? (·.assignment.id = n) with
  | none =>
    refine .inl ?_
    rw [complete, hf]
  | some call =>
    obtain ⟨completion, hy, he⟩ := complete_account hf reg cancelled outcome now
    refine .inr ⟨call, List.mem_of_find?_eq_some hf, by simpa using List.find?_some hf, ?_⟩
    rw [he, ← hy]
    exact account_return

-- ---------------------------------------------------------------------------
-- Cancellation
-- ---------------------------------------------------------------------------

theorem foldl_release (calls : List Call) (reg : Registry) (slots : Slots) :
    calls.foldl (fun (x : Registry × Slots) call => call.release x.1 x.2) (reg, slots) =
      (calls.foldl (fun reg call => reg.release call.lease) reg,
        { slots with free := slots.free + calls.length }) := by
  induction calls generalizing reg slots with
  | nil => rfl
  | cons call rest ih =>
    rw [List.foldl_cons, Call.release, ih, List.length_cons]
    simp [Slots.release, Nat.add_assoc, Nat.add_comm 1]

theorem cancel_eq (run : Run) (reg : Registry) :
    (run.cancel reg).1 =
      { run with
        session := run.session.cancel
        calls := []
        slots := { run.slots with free := run.slots.free + run.calls.length } } := by
  have h := congrArg Prod.snd (foldl_release run.calls reg run.slots)
  exact congrArg (fun slots => { run with session := run.session.cancel, calls := [], slots }) h

theorem cancel_registry (run : Run) (reg : Registry) :
    (run.cancel reg).2 = run.calls.foldl (fun reg call => reg.release call.lease) reg :=
  congrArg Prod.fst (foldl_release run.calls reg run.slots)

end Run

end Crew
