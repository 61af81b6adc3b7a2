import Mathlib.Data.List.Perm.Subperm
import Crew.Proofs.Run.Surroundings

/-!
# The workers of an attempt

The roster of a task lists the workers of its current attempt: those whose results are in, and those
still called. In all that an opening attains, no worker is listed twice and the trust table of the
session has an entry for every one of them (`Opening.Attains.staffed`).
-/

namespace Crew

namespace Session

variable {s s' : Session} {id : String} {now : Nat}

def batchOf (s : Session) (id : String) : List TaskResult :=
  ((s.progress? id).map (·.batch)).getD []

def called (s : Session) (id : String) : List String :=
  (s.inFlight.filter (·.taskId = id)).map (·.workerId)

def roster (s : Session) (id : String) : List String :=
  (s.batchOf id).map (·.workerId) ++ s.called id

structure Staffed (s : Session) : Prop where
  distinct : ∀ id, (s.roster id).Nodup
  trusted : ∀ id, ∀ workerId ∈ s.roster id, workerId ∈ Table.keys s.trust

/-- Further workers are called for one task. -/
def Calls (s : Session) (id : String) (workers : List String) (s' : Session) : Prop :=
  s'.trust = s.trust ∧
    ∀ other, s'.called other = s.called other ++ if other = id then workers else []

theorem Calls.of_inFlight (hf : s'.inFlight = s.inFlight) (ht : s'.trust = s.trust) :
    s.Calls id [] s' :=
  ⟨ht, fun other => by rw [ite_self, List.append_nil, called, hf, called]⟩

theorem length_called (s : Session) (id : String) : (s.called id).length = s.callsOf id := by
  rw [called, List.length_map, callsOf, List.countP_eq_length_filter]

theorem called_eq_nil (hb : s.Books) {p : Progress} (hp : s.progress? id = some p)
    (hs : p.state ≠ .running) : s.called id = [] := by
  rw [← List.length_eq_zero_iff, length_called]
  exact Nat.eq_zero_of_not_pos fun hn => hs ((hb.running hp).mpr hn)

theorem batchOf_of_progress? {p : Progress} (hp : s.progress? id = some p) :
    s.batchOf id = p.batch := by
  rw [batchOf, hp, Option.map_some, Option.getD_some]

theorem roster_of_progress? {p : Progress} (hp : s.progress? id = some p) :
    s.roster id = p.batch.map (·.workerId) ++ s.called id := by
  rw [roster, batchOf_of_progress? hp]

theorem Staffed.mono (h : s.Staffed) (hr : ∀ id, (s'.roster id).Subperm (s.roster id))
    (ht : ∀ workerId ∈ Table.keys s.trust, workerId ∈ Table.keys s'.trust) : s'.Staffed := by
  refine ⟨fun id => ?_, fun id workerId hw => ht _ (h.trusted id _ ((hr id).subset hw))⟩
  obtain ⟨kept, hperm, hsub⟩ := hr id
  exact hperm.nodup_iff.mp ((h.distinct id).sublist hsub)

theorem Staffed.of_roster_eq (h : s.Staffed) (hr : s'.roster = s.roster)
    (ht : s'.trust = s.trust) : s'.Staffed :=
  h.mono (fun id => by rw [hr]) (by rw [ht]; exact fun _ => id)

theorem roster_update (s : Session) (id : String) {f : Progress → Progress}
    (hf : ∀ p, (f p).batch = p.batch) : (s.update id f).roster = s.roster := by
  funext other
  have hbatch : (s.update id f).batchOf other = s.batchOf other := by
    rw [batchOf, progress?_update]
    split
    · simp [batchOf, Option.map_map, Function.comp_def, hf]
    · rfl
  rw [roster, hbatch]
  rfl

theorem roster_skipDownstream (s : Session) (ids : List String) :
    (s.skipDownstream ids).1.roster = s.roster ∧ (s.skipDownstream ids).1.trust = s.trust := by
  induction ids generalizing s with
  | nil => exact ⟨rfl, rfl⟩
  | cons id rest ih =>
    unfold skipDownstream
    split
    · split
      next dep _ =>
        obtain ⟨hr, ht⟩ := ih (s.update id (·.skip dep))
        exact ⟨hr.trans (s.roster_update id fun _ => rfl), ht⟩
      · exact ih s
    · exact ih s

theorem roster_releaseBackoffs (s : Session) (now : Nat) :
    (s.releaseBackoffs now).1.roster = s.roster := by
  have hbatch (p : Progress) : (p.release now).batch = p.batch := by
    unfold Progress.release
    split
    · split <;> rfl
    · rfl
  funext id
  rw [roster, batchOf, progress?_releaseBackoffs, Option.map_map]
  simp only [Function.comp_def, hbatch]
  rfl

theorem batchOf_start (runId : String) (graph : TaskGraph) (trust : TrustTable) (id : String) :
    (start runId graph trust).batchOf id = [] := by
  rw [batchOf]
  cases hp : (start runId graph trust).progress? id with
  | none => rfl
  | some p =>
    obtain rfl := progress?_start hp
    rfl

theorem staffed_start (runId : String) (graph : TaskGraph) (trust : TrustTable) :
    (start runId graph trust).Staffed := by
  have hroster (id : String) : (start runId graph trust).roster id = [] := by
    rw [roster, batchOf_start]
    rfl
  refine ⟨fun id => ?_, fun id workerId hw => ?_⟩
  · rw [hroster]
    exact List.nodup_nil
  · rw [hroster] at hw
    cases hw

theorem batchOf_cancel (s : Session) (id : String) : s.cancel.batchOf id = s.batchOf id := by
  have hbatch (p : Progress) : p.cancel.batch = p.batch := by
    unfold Progress.cancel
    split <;> rfl
  rw [batchOf, progress?_cancel, Option.map_map]
  simp only [Function.comp_def, hbatch]
  rfl

theorem Staffed.cancel (h : s.Staffed) : s.cancel.Staffed := by
  refine h.mono (fun id => List.Sublist.subperm ?_) fun _ => id
  have hroster : s.cancel.roster id = (s.batchOf id).map (·.workerId) := by
    rw [roster, batchOf_cancel]
    exact List.append_nil _
  rw [hroster]
  exact List.sublist_append_left _ _

end Session

-- ---------------------------------------------------------------------------
-- The workers that are chosen
-- ---------------------------------------------------------------------------

/-- The order of choice is one of the candidates, and the first of them are chosen. -/
theorem Policy.choose_eq_take (policy : Policy) (task : Task) (lastFailed : Option String)
    (candidates : List WorkerSnapshot) : ∃ ordered : List WorkerSnapshot,
      ordered.Perm candidates ∧
        policy.choose task lastFailed candidates = ordered.take (policy.redundancyFor task) := by
  refine ⟨_, ?_, rfl⟩
  split
  · split
    next failed =>
      have h := List.filter_append_perm (fun w : WorkerSnapshot => w.spec.workerId ≠ failed)
        candidates
      simpa using h
    · exact List.Perm.refl _
  · exact List.Perm.refl _

theorem Policy.choose_sublist (policy : Policy) (task : Task) (lastFailed : Option String)
    (candidates : List WorkerSnapshot) : ∃ ordered : List WorkerSnapshot,
      ordered.Perm candidates ∧ (policy.choose task lastFailed candidates).Sublist ordered := by
  obtain ⟨ordered, hperm, he⟩ := policy.choose_eq_take task lastFailed candidates
  exact ⟨ordered, hperm, he ▸ List.take_sublist _ _⟩

theorem Policy.choose_ne_nil {policy : Policy} {task : Task} {lastFailed : Option String}
    {candidates : List WorkerSnapshot} (h : candidates ≠ []) :
    policy.choose task lastFailed candidates ≠ [] := by
  obtain ⟨ordered, hperm, he⟩ := policy.choose_eq_take task lastFailed candidates
  have hpos : 0 < policy.redundancyFor task := Nat.le_max_right _ _
  rw [he]
  intro hnil
  rcases List.take_eq_nil_iff.mp hnil with h0 | h0
  · omega
  · rw [h0] at hperm
    exact h hperm.symm.eq_nil

namespace Run

variable {run run' : Run} {reg : Registry} {task : Task} {now : Nat}

theorem calls_foldl_place (task : Task) (attempt now : Nat) (leases : List Lease) (run : Run) :
    run.session.Calls task.id (leases.map (·.workerId))
      (leases.foldl (place task attempt now) run).session := by
  induction leases generalizing run with
  | nil => exact .of_inFlight rfl rfl
  | cons lease rest ih =>
    obtain ⟨ht, hcalled⟩ := ih (place task attempt now run lease)
    refine ⟨ht, fun id => ?_⟩
    have hplace : (place task attempt now run lease).session.called id =
        run.session.called id ++ if id = task.id then [lease.workerId] else [] := by
      by_cases he : id = task.id
      · simp [place, Session.called, Session.recordDispatch, he]
      · simp [place, Session.called, Session.recordDispatch, he, Ne.symm he]
    rw [List.foldl_cons, hcalled, hplace]
    split <;> simp

theorem calls_checkUnavailable (run : Run) (reg : Registry) (task : Task) (now : Nat) :
    run.session.Calls task.id [] (run.checkUnavailable reg task now).1.session := by
  have hwaits : (run.session.markWaiting task.id now).1.inFlight = run.session.inFlight ∧
      (run.session.markWaiting task.id now).1.trust = run.session.trust := by
    unfold Session.markWaiting
    split <;> exact ⟨rfl, rfl⟩
  unfold checkUnavailable
  split
  next session hm =>
    rw [hm] at hwaits
    exact .of_inFlight hwaits.1 hwaits.2
  next session since hm =>
    rw [hm] at hwaits
    dsimp only
    split
    · exact .of_inFlight hwaits.1 hwaits.2
    · exact .of_inFlight hwaits.1 hwaits.2

theorem sendOut_calls (task : Task) (attempt now : Nat) (workers : List WorkerSnapshot)
    (run : Run) (reg : Registry) :
    ∃ called : List String, called.Sublist (workers.map (·.spec.workerId)) ∧
      run.session.Calls task.id called
        (let sent := sendOut task attempt now workers (run.opened task) reg
        if sent.2.2 = 0 then sent.1.withSession (sent.1.session.abortAttempt task.id)
        else sent.1).session := by
  obtain ⟨leases, he, -, -, hsub, -⟩ := sendOut_eq task attempt now workers (run.opened task) reg
  refine ⟨_, hsub, ?_⟩
  have hcalls := calls_foldl_place task attempt now leases (run.opened task)
  rw [← he] at hcalls
  dsimp only
  split
  · exact hcalls
  · exact hcalls

theorem dispatchTask_calls (run : Run) (task : Task) (now : Nat) (hd : reg.Distinct) :
    ∃ workers : List String, workers.Nodup ∧ (∀ workerId ∈ workers, workerId ∈ reg.ids) ∧
      run.session.Calls task.id workers (run.dispatchTask reg task now).1.session := by
  have hnone {s : Session} (h : run.session.Calls task.id [] s) :
      ∃ workers : List String, workers.Nodup ∧ (∀ workerId ∈ workers, workerId ∈ reg.ids) ∧
        run.session.Calls task.id workers s :=
    ⟨[], List.nodup_nil, List.forall_mem_nil _, h⟩
  have hchosen := reg.nodup_selectFor hd task.capability now
  have hknown : ∀ worker ∈ (reg.selectFor task.capability now).2,
      worker.spec.workerId ∈ reg.ids := fun _ => Registry.mem_ids_of_selectFor
  unfold dispatchTask
  split
  next reg' _ =>
    split
    · exact hnone (.of_inFlight rfl rfl)
    · exact hnone (calls_checkUnavailable _ _ _ _)
  next reg' candidates _ hs =>
    rw [hs] at hchosen hknown
    dsimp only
    split
    · exact hnone (.of_inFlight rfl rfl)
    · split
      · exact hnone (.of_inFlight rfl rfl)
      next session attempt ha =>
        obtain rfl : (run.opened task).session = session := congrArg Prod.fst ha
        rw [apply_ite Prod.fst]
        let lastFailed :=
          ((run.session.clearWaiting task.id).progress? task.id).bind (·.lastFailedWorker)
        obtain ⟨ordered, hperm, hchoice⟩ :=
          run.policy.choose_sublist task lastFailed candidates
        obtain ⟨workers, hsub, hcalls⟩ := sendOut_calls task attempt now
          (run.policy.choose task lastFailed candidates) run reg'
        have hall := hsub.trans (hchoice.map (·.spec.workerId))
        refine ⟨workers, ?_, fun workerId hw => ?_, hcalls⟩
        · exact ((hperm.map _).nodup_iff.mpr hchosen).sublist hall
        · obtain ⟨worker, hm, rfl⟩ := List.mem_map.mp (hall.subset hw)
          exact hknown worker (hperm.mem_iff.mp hm)

end Run

theorem Progress.Round.batch {s : Session} {task : Task} {p p' : Progress} {n n' : Nat}
    (h : p.Round s task n p' n') : p'.batch = [] ∨ p'.batch = p.batch ∧ n' = n := by
  cases h with
  | send => exact .inl rfl
  | withdraw =>
    refine .inl ?_
    unfold Progress.abort
    split <;> rfl
  | _ => exact .inr ⟨rfl, rfl⟩

-- ---------------------------------------------------------------------------
-- Passes
-- ---------------------------------------------------------------------------

namespace Session.Staffed

variable {run run' : Run} {reg : Registry} {task : Task} {now : Nat}

theorem turn {workers : List String} (hs : run.session.Staffed) (hb : run.session.Books)
    (hr : run.session.isReady task) (ht : Run.Turn run task now run')
    (hc : run.session.Calls task.id workers run'.session) (hn : workers.Nodup)
    (hk : ∀ workerId ∈ workers, workerId ∈ Table.keys run.session.trust) :
    run'.session.Staffed := by
  obtain ⟨hstate, henables⟩ := isReady_iff.mp hr
  obtain ⟨p, hp, hpending⟩ := state?_eq_some.mp hstate
  have hidle : run.session.called task.id = [] := called_eq_nil hb hp (by simp [hpending])
  obtain ⟨p', hp', hround⟩ := ht.progress_self henables hp hpending
  have hcalled : run'.session.called task.id = workers := by
    rw [hc.2, hidle, if_pos rfl, List.nil_append]
  have hroster : ∀ id, run'.session.roster id = workers ∨
      run'.session.roster id = run.session.roster id := by
    intro id
    by_cases he : id = task.id
    · subst he
      rw [roster_of_progress? hp', hcalled, roster_of_progress? hp, hidle]
      rcases hround.batch with hbatch | ⟨hbatch, hcalls⟩
      · exact .inl (by rw [hbatch, List.map_nil, List.nil_append])
      · rw [← length_called, ← length_called, hcalled, hidle] at hcalls
        rw [hbatch, List.eq_nil_of_length_eq_zero hcalls]
        exact .inr rfl
    · refine .inr ?_
      rw [roster, batchOf, ht.progress?_ne he, hc.2, if_neg he, List.append_nil, ← batchOf,
        ← roster]
  refine ⟨fun id => ?_, fun id workerId hw => ?_⟩
  · rcases hroster id with h | h
    · rw [h]
      exact hn
    · rw [h]
      exact hs.distinct id
  · rw [hc.1]
    rcases hroster id with h | h
    · exact hk workerId (h ▸ hw)
    · exact hs.trusted id workerId (h ▸ hw)

theorem dispatchAll {tasks : List Task} (hs : run.session.Staffed) (hb : run.session.Books)
    (hd : reg.Distinct) (hk : ∀ workerId ∈ reg.ids, workerId ∈ Table.keys run.session.trust)
    (hn : (tasks.map (·.id)).Nodup) (hm : ∀ task ∈ tasks, task ∈ run.session.graph.tasks)
    (hr : ∀ task ∈ tasks, run.session.isReady task) :
    (Run.dispatchAll now tasks run reg).1.session.Staffed := by
  induction tasks generalizing run reg with
  | nil => exact hs
  | cons task rest ih =>
    rw [List.map_cons, List.nodup_cons] at hn
    have hready := hr task List.mem_cons_self
    have hmem := hm task List.mem_cons_self
    have ht := run.dispatchTask_turn reg task now
    have huses := run.uses_dispatchTask reg task now
    obtain ⟨workers, hworkers, hknown, hcalls⟩ := run.dispatchTask_calls task now hd
    have hstaffed := hs.turn hb hready ht hcalls hworkers fun w hw => hk w (hknown w hw)
    have hbooks := hb.round (.turns hmem hready ht)
    have hdistinct := Registry.Changes.distinct hd huses.changes
    have hkeys : ∀ workerId ∈ (run.dispatchTask reg task now).2.1.ids,
        workerId ∈ Table.keys (run.dispatchTask reg task now).1.session.trust := by
      rw [huses.ids, hcalls.1]
      exact hk
    have hrest : ∀ other ∈ rest,
        other ∈ (run.dispatchTask reg task now).1.session.graph.tasks := by
      intro other ho
      rw [ht.graph]
      exact hm other (List.mem_cons_of_mem _ ho)
    have hready' : ∀ other ∈ rest, (run.dispatchTask reg task now).1.session.isReady other := by
      intro other ho
      exact ht.isReady hready (hr other (List.mem_cons_of_mem _ ho)) fun he =>
        hn.1 (List.mem_map.mpr ⟨other, ho, he⟩)
    exact ih hstaffed hbooks hdistinct hkeys hn.2 hrest hready'

theorem dispatchReady (hs : run.session.Staffed) (hb : run.session.Books) (hd : reg.Distinct) :
    (run.dispatchReady reg now).1.session.Staffed := by
  unfold Run.dispatchReady
  split
  · exact hs
  · have htrust (workerId : String) :
        workerId ∈ Table.keys (run.session.refreshTrust reg.trustTable).trust ↔
          workerId ∈ reg.ids ∨ workerId ∈ Table.keys run.session.trust := by
      rw [← Registry.keys_trustTable]
      exact TrustTable.mem_keys_merge
    refine dispatchAll (hs.mono (fun _ => List.Subperm.refl _) fun w hw => (htrust w).mpr (.inr hw))
      (hb.round (.learns reg.trustTable)) hd (fun w hw => (htrust w).mpr (.inl hw))
      (Run.nodup_readyTasks hb.distinct) ?_ ?_
    · exact fun task ht => (Run.mem_readyTasks.mp ht).1
    · exact fun task ht => (Run.mem_readyTasks.mp ht).2

theorem propagateFailures (hs : run.session.Staffed) (reg : Registry) :
    (run.propagateFailures reg).1.session.Staffed := by
  obtain ⟨hr, ht⟩ := run.session.roster_skipDownstream run.session.order
  exact hs.of_roster_eq hr ht

theorem pass (hs : run.session.Staffed) (hrun : run.Sound) (hd : reg.Distinct) :
    (run.pass reg now).1.session.Staffed := by
  have hprepared : (run.prepare reg now).1.session.Staffed :=
    (hs.propagateFailures reg).of_roster_eq (roster_releaseBackoffs _ _) rfl
  have hbooks := (hrun.rounds (run.prepare_rounds reg now)).books
  have hdistinct : (run.prepare reg now).2.Distinct :=
    Registry.Changes.distinct hd (run.rests_propagateFailures reg).uses.changes
  rw [Run.pass_eq]
  dsimp only
  rw [Run.session_observeScaling]
  exact (hprepared.dispatchReady hbooks hdistinct).propagateFailures _

end Session.Staffed

-- ---------------------------------------------------------------------------
-- Ends of calls
-- ---------------------------------------------------------------------------

theorem Progress.Ending.batch {task : Task} {p p' : Progress} {results : List TaskResult}
    (h : p.Ending task results p') : p'.batch = p.batch := by
  cases h <;> rfl

theorem Progress.Return.batch {task : Task} {result : Option TaskResult} {p p' : Progress}
    {n n' : Nat} (h : p.Return task result n p' n') :
    p'.batch = [] ∨ p'.batch = p.batch ++ result.toList := by
  cases h with
  | hear => exact .inr rfl
  | requeue => exact .inr rfl
  | close hp hn hb he => exact .inl he.batch

theorem Call.workerId_of_yield {call : Call} {cancelled : Bool} {reg : Registry}
    {outcome : Outcome} {now : Nat} {r : TaskResult}
    (h : call.yield cancelled reg outcome now = some r) : r.workerId = call.assignment.workerId :=
  congrArg TaskResult.workerId (eq_of_yield h)

namespace Run

variable {run run' : Run} {a : Assignment} {result : Option TaskResult}

theorem Ending.trust {s s' : Session} {taskId : String} {results : List TaskResult}
    (h : Ending run s taskId results s') : s'.trust = s.trust := by
  cases h <;> rfl

theorem Return.trust {n : Nat} (h : Return run n result run') :
    run'.session.trust = run.session.trust := by
  cases h with
  | @goesOn now s settled hs ho =>
    have ht := (run.session.settle_fields n result now).2.2.2.2.2.2
    rw [hs] at ht
    exact ht
  | @closes now s s' taskId results hs he =>
    have ht := (run.session.settle_fields n result now).2.2.2.2.2.2
    rw [hs] at ht
    exact he.trust.trans ht

theorem Return.called_perm (h : Return run a.id result run') (hb : run.session.Books)
    (ha : a ∈ run.session.inFlight) (id : String) :
    (run.session.called id).Perm
      ((if a.taskId = id then [a.workerId] else []) ++ run'.session.called id) := by
  have hperm := ((perm_cons_filter_ne hb.unique ha).filter (·.taskId = id)).map (·.workerId)
  rw [Session.called, Session.called, h.fields.2.2.1]
  by_cases he : a.taskId = id
  · rw [List.filter_cons_of_pos (by simpa using he)] at hperm
    rwa [if_pos he]
  · rw [List.filter_cons_of_neg (by simpa using he)] at hperm
    rwa [if_neg he]

end Run

theorem Session.Staffed.return {run run' : Run} {a : Assignment} {result : Option TaskResult}
    (hs : run.session.Staffed) (hb : run.session.Books) (h : Run.Return run a.id result run')
    (ha : a ∈ run.session.inFlight) (hr : ∀ r, result = some r → r.workerId = a.workerId) :
    run'.session.Staffed := by
  refine hs.mono (fun id => ?_) (by rw [h.trust]; exact fun _ hw => hw)
  have hcalled := h.called_perm hb ha id
  by_cases he : a.taskId = id
  · obtain ⟨p, hp, -⟩ := hb.running_of_mem ha
    obtain ⟨task, ht, hid⟩ := hb.exists_task hp
    rw [← hid] at hp
    obtain ⟨p', hp', hreturn⟩ := h.progress hb ha ht hid.symm hp
    rw [if_pos he] at hcalled
    rw [← he, ← hid] at hcalled ⊢
    have hkept : (p'.batch.map (·.workerId)).Sublist
        (p.batch.map (·.workerId) ++ [a.workerId]) := by
      rcases hreturn.batch with hbatch | hbatch
      · rw [hbatch]
        exact List.nil_sublist _
      · rw [hbatch, List.map_append]
        refine (List.Sublist.refl _).append ?_
        cases hres : result with
        | none => exact List.nil_sublist _
        | some r =>
          rw [← hr r hres]
          exact List.Sublist.refl _
    rw [roster_of_progress? hp', roster_of_progress? hp]
    refine (hkept.append (List.Sublist.refl _)).subperm.trans ?_
    rw [List.append_assoc]
    exact (hcalled.symm.append_left _).subperm
  · rw [if_neg he, List.nil_append] at hcalled
    rw [Session.roster, Session.batchOf, h.progress?_ne hb ha (Ne.symm he), ← Session.batchOf]
    exact (hcalled.symm.append_left _).subperm

-- ---------------------------------------------------------------------------
-- Courses
-- ---------------------------------------------------------------------------

theorem Course.Move.staffed {c c' : Course} (hc : c.Sound) (hd : c.registry.Distinct)
    (hs : c.run.session.Staffed) (h : Move c c') : c'.run.session.Staffed := by
  cases h with
  | own h =>
    cases h with
    | pass => exact hs.pass hc.run hd
    | complete _ n outcome =>
      rcases c.complete_cases n outcome with h | ⟨call, hm, rfl, h⟩
      · rw [h]
        exact hs
      · exact hs.return hc.run.books h (hc.run.mem_inFlight hm) fun _ => Call.workerId_of_yield
    | wake | leave => exact hs
    | stop =>
      rw [session_stop]
      exact hs.cancel
  | _ => exact hs

theorem Opening.Attains.staffed {o : Opening} {c : Course} (ho : o.registry.Built)
    (h : o.Attains c) : c.run.session.Staffed := by
  obtain ⟨c₀, h₀, hm⟩ := h
  induction hm with
  | refl =>
    obtain ⟨graph, registry, count, -, -, -, -, rfl⟩ := course_eq_ok.mp h₀
    exact Session.staffed_start _ _ _
  | tail hm hstep ih =>
    have hbefore : o.Attains _ := ⟨c₀, h₀, hm⟩
    exact hstep.staffed hbefore.reaches.sound (hbefore.built ho).distinct ih

end Crew
