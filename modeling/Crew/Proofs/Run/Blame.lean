import Crew.Proofs.Registry.Selection
import Crew.Proofs.Run.Arrivals
import Crew.Proofs.Run.Recipients

/-!
# Who failed a task last

As long as a task has not ended, the worker that is recorded as the last to fail it is the one that
was the last to answer in its last attempt (`Opening.Logs.blames`). Attempts whose workers have all
left do not count: nobody has answered in them. So the next attempt goes to other workers where
there are enough of them (`Opening.attempts_prefer_others`).
-/

namespace Crew

/-- Who was the last to answer in the last attempt of the task that is complete. -/
def Notes.lastToAnswer (id : String) (log : List Note) : Option String :=
  ((Notes.batches id log).getLast?.bind (·.getLast?)).map (·.workerId)

/-- Who has failed a task last once the end of a call is answered so; `before` is who had until
then. -/
def Settled.blamed (before : Option String) : Settled → Option String
  | .closed _ results => results.getLast?.map (·.workerId)
  | _ => before

theorem Notes.lastToAnswer_ended (id : String) (log : List Note) {call : Call}
    {result : Option TaskResult} {answer : Settled}
    (h : ∀ other results, answer = .closed other results → other = call.assignment.taskId) :
    lastToAnswer id (log ++ [.ended call result answer]) =
      if call.assignment.taskId = id then answer.blamed (lastToAnswer id log)
      else lastToAnswer id log := by
  rw [lastToAnswer, batches_concat]
  cases answer with
  | closed other results =>
    obtain rfl := h other results rfl
    by_cases hid : call.assignment.taskId = id
    · simp [Note.batch?, hid, Settled.blamed]
    · simp [Note.batch?, hid, lastToAnswer]
  | _ => simp [Note.batch?, Settled.blamed, lastToAnswer]

theorem Progress.Round.lastFailedWorker {s : Session} {task : Task} {p p' : Progress} {n n' : Nat}
    (h : p.Round s task n p' n') : p'.lastFailedWorker = p.lastFailedWorker := by
  cases h with
  | withdraw =>
    unfold Progress.abort
    split <;> rfl
  | _ => rfl

namespace Run

variable {run run' : Run} {reg : Registry} {tasks : List Task} {now : Nat} {id : String}
  {p : Progress} {a : Assignment} {result : Option TaskResult}

theorem Rounds.blames {task : Task} {worker : Option String} (h : Rounds run run') (hs : run.Sound)
    (ht : task ∈ run.session.graph.tasks) (hp : run.session.progress? task.id = some p)
    (hw : p.state.isTerminal ∨ p.lastFailedWorker = worker) :
    ∃ p', run'.session.progress? task.id = some p' ∧
      (p'.state.isTerminal ∨ p'.lastFailedWorker = worker) :=
  h.progress (R := fun q => q.state.isTerminal ∨ q.lastFailedWorker = worker) hs ht hp hw
    fun hq hround => hq.imp (fun hended => hround.eq_of_isTerminal hended ▸ hended)
      fun hsame => hround.lastFailedWorker.trans hsame

theorem batches_passNotes (run : Run) (reg : Registry) (now : Nat) (id : String) :
    Notes.batches id (run.passNotes reg now) = [] := by
  refine List.filterMap_eq_nil_iff.mpr fun note hm => ?_
  obtain ⟨v, -, hv⟩ := List.mem_flatMap.mp hm
  unfold Visit.notes at hv
  split at hv
  · cases hv
  · rw [List.mem_singleton.mp hv]
    rfl

/-- Who is to blame after the end of a call: if it completes an attempt that is not the last one,
whoever answered last. -/
theorem Return.blames (h : Return run a.id result run') (hs : run.Sound)
    (ha : a ∈ run.session.inFlight) (hp : run.session.progress? a.taskId = some p) (now : Nat) :
    ∃ p', run'.session.progress? a.taskId = some p' ∧ (p'.state.isTerminal ∨
      p'.lastFailedWorker = (run.session.settle a.id result now).2.blamed p.lastFailedWorker) := by
  -- the answer does not depend on the time
  have hanswer (now' : Nat) : (run.session.settle a.id result now).2 =
      (run.session.settle a.id result now').2 := by
    rw [answer_settle hs.books ha, answer_settle hs.books ha]
  cases h with
  | @goesOn now' s settled hsettle hopen =>
    have hsame : settled.blamed p.lastFailedWorker = p.lastFailedWorker := by
      unfold Settled.blamed
      split
      · exact absurd rfl (hopen _ _)
      · rfl
    rw [hanswer now', hsettle, hsame]
    rw [Session.settle_of_find? (hs.books.find? ha) hp] at hsettle
    split at hsettle
    · cases hsettle
      exact ⟨_, Session.progress?_update_self _ _ _ hp, .inr rfl⟩
    · split at hsettle
      · cases hsettle
        exact ⟨_, Session.progress?_update_self _ _ _ hp, .inr rfl⟩
      · cases hsettle
        exact absurd rfl (hopen _ _)
  | @closes now' s s' taskId results hsettle hend =>
    rw [hanswer now', hsettle]
    obtain ⟨rfl, -, -, rfl, rfl⟩ := closed_of_settle hs.books ha hp hsettle
    have hclosed : ((run.session.strike a.id result now').update a.taskId
        fun _ => { p.account result with batch := [] }).progress? a.taskId =
          some { p.account result with batch := [] } := Session.progress?_update_self _ _ _ hp
    cases hend with
    | succeeds => exact ⟨_, Session.progress?_update_self _ _ _ hclosed, .inl rfl⟩
    | backsOff => exact ⟨_, Session.progress?_update_self _ _ _ hclosed, .inr rfl⟩
    | exhausts => exact ⟨_, Session.progress?_update_self _ _ _ hclosed, .inl rfl⟩
    | strays hg =>
      obtain ⟨task, ht, hid⟩ := hs.books.exists_task hp
      have hknown := TaskGraph.get?_of_mem hs.books.distinct ht
      rw [hid] at hknown
      cases hknown.symm.trans hg

theorem Queue.meets {v : Visit} (h : Queue tasks run) (hv : v ∈ visits now tasks run reg) :
    v.task ∈ tasks ∧ v.run.session.progress? v.task.id = run.session.progress? v.task.id ∧
      Registry.Uses reg v.registry := by
  induction tasks generalizing run reg with
  | nil => cases hv
  | cons task rest ih =>
    rcases List.mem_cons.mp hv with rfl | hv
    · exact ⟨List.mem_cons_self, rfl, .refl⟩
    · obtain ⟨hm, hsame, huses⟩ := ih (h.next reg now) hv
      have hne : v.task.id ≠ task.id := fun he =>
        (List.nodup_cons.mp h.distinct).1 (List.mem_map.mpr ⟨v.task, hm, he⟩)
      exact ⟨List.mem_cons_of_mem _ hm,
        hsame.trans ((run.dispatchTask_turn reg task now).progress?_ne hne),
        (run.uses_dispatchTask reg task now).trans huses⟩

end Run

-- ---------------------------------------------------------------------------
-- Courses
-- ---------------------------------------------------------------------------

namespace Course

variable {c c' : Course} {log notes : List Note}

/-- As long as a task has not ended, who answered last is recorded to have failed it. -/
def Blames (log : List Note) (c : Course) : Prop :=
  ∀ id p, c.run.session.progress? id = some p →
    p.state.isTerminal ∨ p.lastFailedWorker = Notes.lastToAnswer id log

theorem Blames.does (h : c.Blames log) (hs : c.Sound) (hd : c.Does notes c') :
    c'.Blames (log ++ notes) := by
  intro id p' hp'
  cases hd with
  | pass hp hc =>
    have hrounds : Run.Rounds c.run c.pass.run := pass_rounds hs
    obtain ⟨task, ht, rfl⟩ := (hs.run.rounds hrounds).books.exists_task hp'
    rw [hrounds.graph] at ht
    obtain ⟨p, hp, -⟩ := hs.run.books.progress ht
    obtain ⟨q, hq, hblamed⟩ := hrounds.blames hs.run ht hp (h task.id p hp)
    obtain rfl : q = p' := Option.some.inj (hq.symm.trans hp')
    rwa [Notes.lastToAnswer, Notes.batches, List.filterMap_append, ← Notes.batches,
      ← Notes.batches, Run.batches_passNotes, List.append_nil]
  | complete hp n outcome =>
    change (c.run.complete c.registry n c.cancelled outcome c.now).1.session.progress? id =
      some p' at hp'
    cases hf : c.run.calls.find? (·.assignment.id = n) with
    | none =>
      rw [Run.complete, hf] at hp'
      rw [Run.endNotes, hf, List.append_nil]
      exact h id p' hp'
    | some call =>
      obtain rfl : call.assignment.id = n := by simpa using List.find?_some hf
      have hm := List.mem_of_find?_eq_some hf
      have ha := hs.run.mem_inFlight hm
      have hreturn := hs.run.complete_return hm c.registry c.cancelled outcome c.now
      obtain ⟨p, hp, hrunning⟩ := hs.run.books.running_of_mem ha
      rw [Run.endNotes, hf]
      dsimp only
      rw [Notes.lastToAnswer_ended id log fun other results hclosed => by
        rw [Run.answer_settle hs.run.books ha] at hclosed
        exact (Settled.of_eq_closed hclosed).1]
      by_cases hid : call.assignment.taskId = id
      · subst hid
        obtain ⟨q, hq, hblamed⟩ := hreturn.blames hs.run ha hp c.now
        obtain rfl : q = p' := Option.some.inj (hq.symm.trans hp')
        -- the task of the call runs, so it is known who has failed it before
        have hbefore : p.lastFailedWorker = Notes.lastToAnswer call.assignment.taskId log :=
          (h _ p hp).resolve_left (by simp [hrunning, TaskState.isTerminal])
        rwa [if_pos rfl, ← hbefore]
      · rw [hreturn.progress?_ne hs.run.books ha (Ne.symm hid)] at hp'
        rw [if_neg hid]
        exact h id p' hp'
  | wake | leave =>
    rw [List.append_nil]
    exact h id p' hp'
  | stop hp hc => exact .inl (((Own.stop hp hc).sound hs).ended rfl hp')

def visits (c : Course) : List Run.Visit :=
  (c.run.prepare c.registry c.now).1.readyVisits (c.run.prepare c.registry c.now).2 c.now

theorem calls_pass (hs : c.Sound) :
    c.pass.run.calls = c.run.calls ++ c.visits.flatMap (Run.Visit.calls c.now) := by
  have hprepare := c.run.prepare_rounds c.registry c.now
  have hfair := (c.run.prepare c.registry c.now).1.dispatchReady_fair
    (c.run.prepare c.registry c.now).2 c.now (by rw [hprepare.graph]; exact hs.run.books.distinct)
  change (c.run.pass c.registry c.now).1.calls = _
  rw [Run.pass_eq]
  dsimp only
  rw [Run.calls_observeScaling]
  exact hfair.calls

end Course

namespace Opening

variable {o : Opening} {c : Course} {log : List Note}

theorem Logs.blames (h : o.Logs log c) : c.Blames log := by
  obtain ⟨c₀, hc, hl⟩ := h
  induction hl with
  | start =>
    intro id p hp
    obtain ⟨graph, registry, count, -, -, -, -, rfl⟩ := course_eq_ok.mp hc
    obtain rfl := Session.progress?_start hp
    exact .inr rfl
  | does hl hd ih =>
    have hbefore : o.Attains _ := ⟨c₀, hc, hl.moves⟩
    exact ih.does hbefore.reaches.sound hd
  | cancels _ ih => exact ih
  | advances _ _ ih => exact ih
  | changes _ _ ih => exact ih

/-- The calls of a pass are made visit by visit, and each attempt goes to the first of the workers
that may take its task, as many as it asks for and slots allow. If the run prefers other workers for
a retry, whoever was the last to answer in the last attempt stands behind them all, and is called
again only if they are no more than the attempt has room for. -/
theorem attempts_prefer_others (ho : o.registry.Built) (h : o.Logs log c) :
    c.pass.run.calls = c.run.calls ++ c.visits.flatMap (Run.Visit.calls c.now) ∧
    ∀ v ∈ c.visits,
      v.workers c.now = ((v.run.policy.preference v.lastFailed (v.eligible c.now)).take
        (min v.room (v.eligible c.now).length)).map (·.spec.workerId) ∧
      v.lastFailed = Notes.lastToAnswer v.task.id log ∧
      (v.run.policy.execution.retryOnDifferentWorker → ∀ failed, v.lastFailed = some failed →
        failed ∈ v.workers c.now → (v.eligible c.now).length ≤ v.room) := by
  have hs := h.attains.reaches.sound
  have hprepare := c.run.prepare_rounds c.registry c.now
  have hd : (c.run.prepare c.registry c.now).2.Distinct :=
    Registry.Changes.distinct (h.attains.built ho).distinct
      (c.run.rests_propagateFailures c.registry).uses.changes
  refine ⟨Course.calls_pass hs, fun v hv => ?_⟩
  have hqueue : Run.Queue (c.run.prepare c.registry c.now).1.session.readyTasks
      ((c.run.prepare c.registry c.now).1.withSession
        ((c.run.prepare c.registry c.now).1.session.refreshTrust
          (c.run.prepare c.registry c.now).2.trustTable)) :=
    ⟨Run.nodup_readyTasks (by rw [hprepare.graph]; exact hs.run.books.distinct),
      fun task ht => (Run.mem_readyTasks.mp ht).2⟩
  obtain ⟨hm, hsame, huses⟩ := hqueue.meets hv
  obtain ⟨ht, hready⟩ := Run.mem_readyTasks.mp hm
  rw [hprepare.graph] at ht
  obtain ⟨p, hp, -⟩ := hs.run.books.progress ht
  obtain ⟨q, hq, hblamed⟩ := hprepare.blames hs.run ht hp (h.blames v.task.id p hp)
  have hvisited : v.run.session.progress? v.task.id = some q := hsame.trans hq
  have hdistinct : v.registry.Distinct := Registry.Changes.distinct hd huses.changes
  refine ⟨Run.Visit.workers_eq hdistinct hvisited, ?_, fun hretry failed hf hcalled =>
    Run.Visit.length_le_room hdistinct hvisited hretry hf hcalled⟩
  -- a task that has its turn is pending
  obtain ⟨q', hq', hpending⟩ := Session.state?_eq_some.mp (Session.isReady_iff.mp hready).1
  obtain rfl : q = q' := Option.some.inj (hq.symm.trans hq')
  rw [Run.Visit.lastFailed, hvisited]
  exact hblamed.resolve_left (by simp [hpending, TaskState.isTerminal])

-- ---------------------------------------------------------------------------
-- A retry that goes elsewhere
-- ---------------------------------------------------------------------------

/-- One task that may be tried twice, with one worker at first. -/
def errand : Opening where
  coordinator :=
    .plain { execution := { maxConcurrency := some 2 }, scaling := { enabled := false } }
  runId := "errand"
  tasks := [{ id := "only", capability := "run", maxRetries := 1 }]
  registry := Registry.register { rules := .ofLimits 3 50 } ⟨"runner", ["run"], 1.0⟩ 0
  now := 0

def errandStart : Course := errand.launch ⟨errand.tasks⟩ errand.registry 2

def errandHelped : Course :=
  let c := errandStart.pass.complete 1 (.failure "lost")
  { c with registry := c.registry.register ⟨"spare", ["run"], 1.0⟩ 1, now := 100000 }

def errandAgain : Run.Visit where
  run :=
    let run := (errandHelped.run.prepare errandHelped.registry 100000).1
    run.withSession (run.session.refreshTrust errandHelped.registry.trustTable)
  registry := errandHelped.registry
  task := { id := "only", capability := "run", maxRetries := 1 }

theorem visits_errand : errandHelped.visits = [errandAgain] := by
  with_unfolding_all rfl

theorem exists_log_errand : ∃ log, errand.Logs log errandHelped := by
  have hcourse : errand.course = .ok errandStart :=
    course_eq_ok.mpr ⟨⟨errand.tasks⟩, errand.registry, 2, by decide +kernel, by decide +kernel, rfl,
      by decide, rfl⟩
  have hfailed := (Course.Logs.start.does (.pass (c := errandStart) rfl rfl)).does
    (.complete (by decide +kernel) 1 (.failure "lost"))
  have hhelped := hfailed.changes (.single (.registers ⟨"spare", ["run"], 1.0⟩ 1))
  have hlate : (errandStart.pass.complete 1 (.failure "lost")).now ≤ 100000 := by decide +kernel
  exact ⟨_, errandStart, hcourse, hhelped.advances hlate⟩

/-- The retry goes to the other worker, though the one that failed registered before it. -/
theorem errand_goes_elsewhere : ∃ log, errand.Logs log errandHelped ∧
    Notes.lastToAnswer "only" log = some "runner" ∧
    (errandAgain.eligible 100000).map (·.spec.workerId) = ["runner", "spare"] ∧
    errandAgain.workers 100000 = ["spare"] := by
  obtain ⟨log, h⟩ := exists_log_errand
  have hbuilt : errand.registry.Built := ⟨_, .single (.registers ⟨"runner", ["run"], 1.0⟩ 0)⟩
  have hvisit : errandAgain ∈ errandHelped.visits := by
    rw [visits_errand]
    exact List.mem_singleton_self _
  obtain ⟨hworkers, hlast, -⟩ := (attempts_prefer_others hbuilt h).2 errandAgain hvisit
  have hrunner : errandAgain.lastFailed = some "runner" := by decide +kernel
  -- both workers stand in the order of choice already
  have heligible : errandAgain.eligible 100000 =
      (errandHelped.registry.candidates "run" 100000).map (·.snapshot) := by
    have hsorted : ((errandHelped.registry.candidates "run" 100000).map (·.snapshot)).mergeSort
        Registry.preferred = (errandHelped.registry.candidates "run" 100000).map (·.snapshot) :=
      List.mergeSort_of_pairwise (by decide +kernel)
    rw [← hsorted, ← Registry.selectFor_snd]
    rfl
  have hnow : errandHelped.now = 100000 := rfl
  rw [hnow, heligible, hrunner] at hworkers
  refine ⟨log, h, hlast.symm.trans hrunner, ?_, hworkers.trans (by decide +kernel)⟩
  rw [heligible]
  decide +kernel

end Opening

end Crew
