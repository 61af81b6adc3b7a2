import Crew.Proofs.Run.Attempts
import Crew.Proofs.Run.Budget

/-!
# What the notes of a run tell

The notes of a run tell of every attempt which calls were made for it and how each of them ended
(`Notes.attempt`). They agree with the books of its session (`Notes.Kept`) and with the calls in
flight (`Notes.Open`), and both are kept by what a pass does (`Notes.Open.passage`) and by the end
of a call (`Notes.Open.hear`).
-/

namespace Crew

namespace Settled

variable {id other : String} {waits : Bool} {results batch : List TaskResult}

/-- What the end of a call means for its task, depending on whether it waits for other calls and on
the results so far. -/
def of (id : String) (waits : Bool) (results : List TaskResult) : Settled :=
  if waits then .waiting
  else if results.isEmpty then .requeued id
  else .closed id results

theorem of_ne_stale : of id waits results ≠ .stale := by
  unfold of
  split
  · exact fun h => nomatch h
  · split <;> exact fun h => nomatch h

theorem of_eq_closed (h : of id waits results = .closed other batch) :
    other = id ∧ batch = results ∧ batch ≠ [] := by
  unfold of at h
  split at h
  · cases h
  · split at h
    · cases h
    next hne =>
      cases h
      exact ⟨rfl, rfl, fun he => hne (List.isEmpty_iff.mpr he)⟩

theorem of_eq_requeued :
    of id waits results = .requeued other ↔ other = id ∧ waits = false ∧ results = [] := by
  unfold of
  split
  next h => simp [h]
  next h =>
    rw [Bool.not_eq_true] at h
    split
    next hnil => simp [h, List.isEmpty_iff.mp hnil, eq_comm]
    next hnil => simp [List.isEmpty_iff.not.mp hnil]

end Settled

/-- The calls of an attempt, and those that have ended with what they brought. -/
structure Attempt where
  calls : List Call := []
  ends : List (Call × Option TaskResult) := []

namespace Attempt

variable {a : Attempt} {id other : String}

def results (a : Attempt) : List TaskResult := a.ends.filterMap (·.2)

def answer (id : String) (a : Attempt) : Settled :=
  .of id (a.ends.length < a.calls.length) a.results

def hear (id : String) (a : Attempt) : Note → Attempt
  | .sent task calls => if task.id = id then ⟨calls.map (·.2), []⟩ else a
  | .ended call result _ =>
    if call.assignment.taskId = id then { a with ends := a.ends ++ [(call, result)] } else a

/-- Calls and results are of the task and carry the number of the attempt. -/
structure Of (id : String) (n : Nat) (a : Attempt) : Prop where
  calls : ∀ call ∈ a.calls, call.assignment.taskId = id ∧ call.assignment.attempt = n
  results : ∀ r ∈ a.results, r.taskId = id ∧ r.attempt = n

theorem results_append (calls : List Call) (ends : List (Call × Option TaskResult)) (call : Call)
    (result : Option TaskResult) :
    results ⟨calls, ends ++ [(call, result)]⟩ = results ⟨calls, ends⟩ ++ result.toList := by
  rw [results, List.filterMap_append]
  cases result <;> rfl

theorem answer_eq_requeued (hs : (a.ends.map (·.1)).Subperm a.calls) :
    a.answer id = .requeued other ↔
      other = id ∧ a.calls.Perm (a.ends.map (·.1)) ∧ ∀ e ∈ a.ends, e.2 = none := by
  have hlength : a.calls.Perm (a.ends.map (·.1)) ↔ ¬ a.ends.length < a.calls.length := by
    rw [← List.length_map (f := Prod.fst), Nat.not_lt]
    exact ⟨fun hp => Nat.le_of_eq hp.length_eq, fun hle => (hs.perm_of_length_le hle).symm⟩
  rw [hlength, ← List.filterMap_eq_nil_iff, ← results, answer, Settled.of_eq_requeued,
    decide_eq_false_iff_not]

end Attempt

-- ---------------------------------------------------------------------------
-- What is noted
-- ---------------------------------------------------------------------------

namespace Note

def end? : Note → Option Call
  | .sent .. => none
  | .ended call .. => some call

def result? : Note → Option TaskResult
  | .sent .. => none
  | .ended _ result _ => result

def batch? (id : String) : Note → Option (List TaskResult)
  | .ended _ _ (.closed taskId results) => if taskId = id then some results else none
  | _ => none

end Note

namespace Notes

variable {log : List Note} {note : Note} {id : String}

def made (log : List Note) : List Call := log.flatMap fun note => note.calls.map (·.2)

def ended (log : List Note) : List Call := log.filterMap Note.end?

def arrived (log : List Note) : List TaskResult := log.filterMap Note.result?

def batches (id : String) (log : List Note) : List (List TaskResult) :=
  log.filterMap (Note.batch? id)

def attempt (id : String) (log : List Note) : Attempt := log.foldl (Attempt.hear id) {}

theorem made_concat : made (log ++ [note]) = made log ++ note.calls.map (·.2) := by
  simp [made]

theorem ended_concat : ended (log ++ [note]) = ended log ++ note.end?.toList := by
  rw [ended, List.filterMap_append]
  cases note <;> rfl

theorem arrived_concat : arrived (log ++ [note]) = arrived log ++ note.result?.toList := by
  rw [arrived, List.filterMap_append, ← arrived]
  cases h : note.result? <;> simp [h]

theorem batches_concat : batches id (log ++ [note]) =
    batches id log ++ (note.batch? id).toList := by
  rw [batches, List.filterMap_append, ← batches]
  cases h : note.batch? id <;> simp [h]

theorem attempt_concat : attempt id (log ++ [note]) = (attempt id log).hear id note :=
  List.foldl_append

/-- The end of a call is answered as the attempt demands that it belongs to. -/
structure Fits (before : List Note) (call : Call) (result : Option TaskResult)
    (answer : Settled) (a : Attempt) : Prop where
  latest : attempt call.assignment.taskId (before ++ [.ended call result answer]) = a
  answer : answer = a.answer call.assignment.taskId
  once : (a.ends.map (·.1)).Subperm a.calls
  of : a.Of call.assignment.taskId call.assignment.attempt
  distinct : (a.results.map (·.workerId)).Nodup

end Notes

-- ---------------------------------------------------------------------------
-- Runs
-- ---------------------------------------------------------------------------

structure Session.Still (s s' : Session) : Prop where
  lastAssignment : s'.lastAssignment = s.lastAssignment
  results : s'.results = s.results
  batchOf : ∀ id, s'.batchOf id = s.batchOf id

theorem Session.still_cancel (s : Session) : s.Still s.cancel := ⟨rfl, rfl, s.batchOf_cancel⟩

namespace Run

variable {run run' : Run} {task : Task} {id : String} {now : Nat}

def callsFor (run : Run) (id : String) : List Call := run.calls.filter (·.assignment.taskId = id)

theorem Sound.length_callsFor (hs : run.Sound) (id : String) :
    (run.callsFor id).length = run.session.callsOf id := by
  rw [Session.callsOf, ← hs.calls, List.countP_map, List.countP_eq_length_filter]
  rfl

theorem Sound.running_of_callsFor (hs : run.Sound) {p : Progress}
    (hp : run.session.progress? id = some p) (hc : run.callsFor id ≠ []) : p.state = .running := by
  refine (hs.books.running hp).mpr ?_
  rw [← hs.length_callsFor]
  exact List.length_pos_iff.mpr hc

theorem Round.numbers (h : Round run run') :
    run'.session.lastAssignment + run.calls.length =
      run.session.lastAssignment + run'.calls.length := by
  cases h with
  | turns _ _ ht =>
    cases ht with
    | lacks => unfold Session.markWaiting; split <;> rfl
    | givesUp => unfold Session.markWaiting; split <;> rfl
    | @sends attempt leases =>
      rw [lastAssignment_foldl_place, foldl_place_calls, List.length_append, length_issued]
      simp only [opened, withSession, Session.beginAttempt, Session.clearWaiting,
        Session.lastAssignment_update]
      omega
    | _ => rfl
  | _ => rfl

theorem Rounds.numbers (h : Rounds run run') :
    run'.session.lastAssignment + run.calls.length =
      run.session.lastAssignment + run'.calls.length := by
  induction h with
  | refl => rfl
  | tail _ hr ih =>
    have h := hr.numbers
    omega

theorem Rounds.still (hs : run.Sound) (h : Rounds run run') (hc : run'.calls = run.calls)
    (hb : ∀ id, run.callsFor id = [] → run.session.batchOf id = []) :
    run.session.Still run'.session := by
  refine ⟨?_, h.results, fun id => ?_⟩
  · -- a number that was given out would show as a further call
    have hn := h.numbers
    rw [hc] at hn
    omega
  · cases hp : run.session.progress? id with
    | none =>
      have hunknown := (Session.progress?_isSome_iff (hs.rounds h).books.keys).trans
        (by rw [h.graph, ← Session.progress?_isSome_iff hs.books.keys, hp])
      rw [Session.batchOf, Session.batchOf, hp, Option.not_isSome_iff_eq_none.mp fun hx =>
        Bool.noConfusion (hunknown.mp hx)]
    | some p =>
      obtain ⟨task, ht, rfl⟩ := hs.books.exists_task hp
      rw [Session.batchOf_of_progress? hp]
      -- nothing is kept of a task without calls, and one with calls is left alone by a pass
      by_cases hcalls : run.callsFor task.id = []
      · have hbatch := hb task.id hcalls
        rw [Session.batchOf_of_progress? hp] at hbatch
        obtain ⟨p', hp', hbatch'⟩ := h.progress (R := (·.batch = [])) hs ht hp hbatch
          fun hq hround => hround.retriesUsed.2 hq
        rw [Session.batchOf_of_progress? hp', hbatch, hbatch']
      · have hrunning := hs.running_of_callsFor hp hcalls
        obtain ⟨p', hp', rfl⟩ := h.progress (R := (· = p)) hs ht hp rfl
          fun he hround => (hround.eq_of_running (he ▸ hrunning)).trans he
        rw [Session.batchOf_of_progress? hp']

theorem Sound.callsFor_of_isReady (hs : run.Sound) (hr : run.session.isReady task) :
    run.callsFor task.id = [] := by
  obtain ⟨p, hp, hpending⟩ := Session.state?_eq_some.mp (Session.isReady_iff.mp hr).1
  by_contra hne
  cases hpending.symm.trans (hs.running_of_callsFor hp hne)

theorem callsFor_foldl_place {attempt : Nat} (leases : List Lease) (id : String) :
    (leases.foldl (place task attempt now) run).callsFor id = run.callsFor id ++
      if task.id = id then issued task attempt now leases run.session.lastAssignment else [] := by
  rw [callsFor, foldl_place_calls, List.filter_append, ← callsFor]
  congr 1
  split
  next he =>
    refine List.filter_eq_self.mpr fun call hc => ?_
    simp [(mem_issued hc).1, he]
  next he =>
    refine List.filter_eq_nil_iff.mpr fun call hc => ?_
    simp [(mem_issued hc).1, he]

theorem batchOf_foldl_place {attempt : Nat} (leases : List Lease) (id : String) :
    (leases.foldl (place task attempt now) (run.opened task)).session.batchOf id =
      if task.id = id then [] else run.session.batchOf id := by
  rw [Session.batchOf, progress?_foldl_place, opened, withSession, Session.beginAttempt,
    Session.clearWaiting]
  by_cases he : task.id = id
  · subst he
    cases hp : run.session.progress? task.id <;>
      simp [Session.progress?_update, Progress.begin, hp]
  · rw [if_neg (Ne.symm he), if_neg he, Session.progress?_update_ne _ _ _ (Ne.symm he),
      Session.progress?_update_ne _ _ _ (Ne.symm he), ← Session.batchOf]

variable {a : Assignment} {call : Call} {result : Option TaskResult} {answer : Settled}

/-- The end of a call is answered by what the other calls of the attempt have come to. -/
theorem answer_settle {s : Session} (hb : s.Books) (ha : a ∈ s.inFlight)
    (result : Option TaskResult) (now : Nat) : (s.settle a.id result now).2 =
      .of a.taskId (1 < s.callsOf a.taskId) (s.batchOf a.taskId ++ result.toList) := by
  obtain ⟨p, hp, -⟩ := hb.running_of_mem ha
  have hout : 0 < (p.account result).outstanding ↔ 1 < s.callsOf a.taskId := by
    rw [← hb.outstanding hp]
    exact Nat.sub_pos_iff_lt
  rw [Session.settle_of_find? (hb.find? ha) hp, Session.batchOf_of_progress? hp]
  simp only [hout, Settled.of, decide_eq_true_eq]
  split
  · rfl
  · exact apply_ite Prod.snd _ _ _

theorem Return.batchOf (h : Return run a.id result run') (hb : run.session.Books)
    (ha : a ∈ run.session.inFlight) : run'.session.batchOf a.taskId =
      if 1 < run.session.callsOf a.taskId then run.session.batchOf a.taskId ++ result.toList
      else [] := by
  obtain ⟨p, hp, -⟩ := hb.running_of_mem ha
  obtain ⟨task, ht, hid⟩ := hb.exists_task hp
  rw [← hid] at hp ⊢
  obtain ⟨p', hp', hreturn⟩ := h.progress hb ha ht hid.symm hp
  rw [Session.batchOf_of_progress? hp', Session.batchOf_of_progress? hp]
  -- the number of calls left must be a variable for the cases to be told apart
  generalize run'.session.callsOf task.id = n' at hreturn
  cases hreturn with
  | hear _ hn =>
    rw [if_pos hn]
    rfl
  | requeue _ hn hnil =>
    rw [if_neg (by omega)]
    exact hnil
  | close _ hn _ he => rw [if_neg (by omega), he.batch]

/-- A call of a run in order ends with a result of its own, if any, and is answered. -/
structure Hears (run : Run) (call : Call) (result : Option TaskResult) (answer : Settled)
    (run' : Run) : Prop where
  sound : run.Sound
  mem : call ∈ run.calls
  back : Return run call.assignment.id result run'
  answer : answer = .of call.assignment.taskId
    (1 < run.session.callsOf call.assignment.taskId)
    (run.session.batchOf call.assignment.taskId ++ result.toList)
  of : ∀ r ∈ result.toList,
    r.taskId = call.assignment.taskId ∧ r.attempt = call.assignment.attempt
  distinct : ((run.session.batchOf call.assignment.taskId ++ result.toList).map
    (·.workerId)).Nodup

namespace Hears

theorem callsFor_perm (h : run.Hears call result answer run') (id : String) :
    (run.callsFor id).Perm
      ((if call.assignment.taskId = id then [call] else []) ++ run'.callsFor id) := by
  have hperm := (h.back.calls_perm h.sound h.mem).filter (·.assignment.taskId = id)
  rw [callsFor, callsFor]
  by_cases he : call.assignment.taskId = id
  · rw [List.filter_cons_of_pos (by simpa using he)] at hperm
    rwa [if_pos he]
  · rw [List.filter_cons_of_neg (by simpa using he)] at hperm
    rwa [if_neg he]

theorem open_iff (h : run.Hears call result answer run') :
    1 < run.session.callsOf call.assignment.taskId ↔
      run'.callsFor call.assignment.taskId ≠ [] := by
  have hlength := (h.callsFor_perm call.assignment.taskId).length_eq
  rw [h.sound.length_callsFor, if_pos rfl, List.length_append, List.length_singleton] at hlength
  rw [hlength, ← List.length_pos_iff]
  omega

theorem results (h : run.Hears call result answer run') :
    run'.session.results = run.session.results ++ result.toList :=
  h.back.heard h.sound.books (h.sound.mem_inFlight h.mem)

theorem batchOf_ne {id : String} (h : run.Hears call result answer run')
    (hne : call.assignment.taskId ≠ id) : run'.session.batchOf id = run.session.batchOf id := by
  rw [Session.batchOf, Session.batchOf,
    h.back.progress?_ne h.sound.books (h.sound.mem_inFlight h.mem) (Ne.symm hne)]

theorem batchOf_self (h : run.Hears call result answer run') :
    run'.session.batchOf call.assignment.taskId =
      if run'.callsFor call.assignment.taskId = [] then []
      else run.session.batchOf call.assignment.taskId ++ result.toList := by
  rw [h.back.batchOf h.sound.books (h.sound.mem_inFlight h.mem)]
  simp only [h.open_iff, ite_not]

theorem batch (h : run.Hears call result answer run') (id : String) :
    ((Note.ended call result answer).batch? id).toList.flatten ++ run'.session.batchOf id =
      run.session.batchOf id ++ result.toList.filter (·.taskId = id) := by
  by_cases he : call.assignment.taskId = id
  · subst he
    have hall : result.toList.filter (·.taskId = call.assignment.taskId) = result.toList :=
      List.filter_eq_self.mpr fun r hr => by simpa using (h.of r hr).1
    have hanswer := h.answer
    rw [h.batchOf_self, hall]
    simp only [Settled.of, h.open_iff, ne_eq, decide_eq_true_eq, ite_not] at hanswer
    by_cases hcalls : run'.callsFor call.assignment.taskId = []
    · rw [if_pos hcalls] at hanswer ⊢
      split at hanswer
      next hnil =>
        rw [hanswer]
        simpa [Note.batch?] using hnil
      · simp [hanswer, Note.batch?]
    · rw [if_neg hcalls] at hanswer ⊢
      simp [hanswer, Note.batch?]
  · have hnone : result.toList.filter (·.taskId = id) = [] :=
      List.filter_eq_nil_iff.mpr fun r hr => by simpa [(h.of r hr).1] using he
    rw [h.batchOf_ne he, hnone, List.append_nil, h.answer, Settled.of]
    split
    · simp [Note.batch?]
    · split <;> simp [Note.batch?, he]

end Hears

end Run

namespace Notes

/-- The notes agree with the books of the session. -/
structure Kept (log : List Note) (run : Run) : Prop where
  numbers : (made log).map (·.assignment.id) = List.range' 1 run.session.lastAssignment
  ended : (ended log).Subperm (made log)
  arrived : run.session.results = arrived log
  batches : ∀ id, (batches id log).flatten ++ run.session.batchOf id =
    run.session.results.filter (·.taskId = id)
  uniform : ∀ id, ∃ n, (attempt id log).Of id n
  fits : ∀ before call result answer, before ++ [.ended call result answer] <+: log →
    ∃ a, Fits before call result answer a

structure Open (log : List Note) (run : Run) : Prop extends Kept log run where
  calls : (made log).Perm (Notes.ended log ++ run.calls)
  attempt : ∀ id, (attempt id log).calls.Perm ((attempt id log).ends.map (·.1) ++ run.callsFor id)
  batch : ∀ id, run.session.batchOf id =
    if run.callsFor id = [] then [] else (Notes.attempt id log).results

variable {run run' : Run} {reg reg' : Registry} {task : Task} {attempt now : Nat}
  {leases : List Lease} {runId : String}

-- ---------------------------------------------------------------------------
-- Passes
-- ---------------------------------------------------------------------------

theorem Kept.still (h : Kept log run) (hs : run.session.Still run'.session) : Kept log run' :=
  ⟨by rw [hs.lastAssignment, h.numbers], h.ended, hs.results.trans h.arrived,
    fun id => by rw [hs.batchOf, hs.results, h.batches], h.uniform, h.fits⟩

theorem Open.still (h : Open log run) (hs : run.session.Still run'.session)
    (hc : run'.calls = run.calls) : Open log run' := by
  have hcalls (id : String) : run'.callsFor id = run.callsFor id := by
    rw [Run.callsFor, hc, ← Run.callsFor]
  refine { h.toKept.still hs with
    calls := by rw [hc]; exact h.calls
    attempt := fun id => by rw [hcalls]; exact h.attempt id
    batch := fun id => by rw [hs.batchOf, hcalls]; exact h.batch id }

theorem Open.batch_nil {id : String} (h : Open log run) (hc : run.callsFor id = []) :
    run.session.batchOf id = [] := by
  rw [h.batch, if_pos hc]

theorem Open.send (h : Open log run) (hs : run.Sound) (hm : task ∈ run.session.graph.tasks)
    (hr : run.session.isReady task) (hsend : run.Sending reg task attempt leases)
    (runId : String) (now : Nat) :
    Open (log ++ [.sent task (Registry.moments runId reg
        (Run.issued task attempt now leases run.session.lastAssignment))])
      (leases.foldl (Run.place task attempt now) (run.opened task)) := by
  let issued := Run.issued task attempt now leases run.session.lastAssignment
  let note : Note := .sent task (Registry.moments runId reg issued)
  have hround := hsend.round hm hr now
  have hidle := hs.callsFor_of_isReady hr
  have hcalls : note.calls.map (·.2) = issued := Registry.map_snd_moments runId reg issued
  have hended : Notes.ended (log ++ [note]) = Notes.ended log :=
    ended_concat.trans (List.append_nil _)
  have hmade : made (log ++ [note]) = made log ++ issued := by rw [made_concat, hcalls]
  have hattempt (id : String) : Notes.attempt id (log ++ [note]) =
      if task.id = id then ⟨issued, []⟩ else Notes.attempt id log := by
    rw [attempt_concat]
    exact congrArg (fun calls => if task.id = id then Attempt.mk calls [] else _) hcalls
  refine { numbers := ?_, ended := ?_, arrived := ?_, batches := fun id => ?_,
           uniform := fun id => ?_, fits := fun before call result answer hp => ?_, calls := ?_,
           attempt := fun id => ?_, batch := fun id => ?_ }
  · have hlast : (leases.foldl (Run.place task attempt now)
        (run.opened task)).session.lastAssignment =
          run.session.lastAssignment + leases.length :=
      Run.lastAssignment_foldl_place leases (run.opened task)
    rw [hmade, List.map_append, h.numbers, Run.map_id_issued, hlast, Nat.add_comm _ 1,
      List.range'_append_1]
  · rw [hended, hmade]
    exact h.ended.trans (List.sublist_append_left _ _).subperm
  · rw [hround.keeps.2, h.arrived, arrived_concat]
    exact (List.append_nil _).symm
  · rw [hround.keeps.2, ← h.batches id, batches_concat, Run.batchOf_foldl_place]
    split
    next he => simp [← he, h.batch_nil hidle, Note.batch?]
    · simp [Note.batch?]
  · rw [hattempt]
    split
    next he =>
      refine ⟨attempt, fun call hc => ?_, List.forall_mem_nil _⟩
      obtain ⟨hid, -, hnumber, -⟩ := Run.mem_issued hc
      exact ⟨hid.trans he, hnumber⟩
    · exact h.uniform id
  · rcases List.prefix_concat_iff.mp hp with he | hp
    · cases (List.append_inj' he rfl).2
    · exact h.fits before call result answer hp
  · have hrun : (leases.foldl (Run.place task attempt now) (run.opened task)).calls =
        run.calls ++ issued := Run.foldl_place_calls leases (run.opened task)
    rw [hmade, hended, hrun, ← List.append_assoc]
    exact h.calls.append_right issued
  · rw [hattempt, Run.callsFor_foldl_place]
    split
    next he =>
      have hnone : (run.opened task).callsFor id = [] := he ▸ hidle
      rw [hnone]
      exact .refl _
    · rw [List.append_nil]
      exact h.attempt id
  · rw [hattempt, Run.callsFor_foldl_place, Run.batchOf_foldl_place]
    split
    · exact (ite_self _).symm
    · rw [List.append_nil]
      exact h.batch id

theorem Open.passage {notes : List Note} (h : Open log run) (hs : run.Sound)
    (hp : run.Passage now reg notes run' reg') : Open (log ++ notes) run' := by
  -- a task is sent out only if it is ready, so that no call of it is in flight and its latest
  -- attempt is complete
  induction hp with
  | start =>
    rw [List.append_nil]
    exact h
  | idles hp hr hc _ ih =>
    exact ih.still (hr.still (hs.rounds hp.rounds) hc fun _ => ih.batch_nil) hc
  | sends hp hm hr hsend ih =>
    rw [← List.append_assoc]
    exact ih.send (hs.rounds hp.rounds) hm hr hsend _ _

-- ---------------------------------------------------------------------------
-- Ends of calls
-- ---------------------------------------------------------------------------

section
variable {call : Call} {result : Option TaskResult} {answer : Settled}

theorem attempt_ended (log : List Note) (call : Call) (result : Option TaskResult)
    (answer : Settled) (id : String) :
    Notes.attempt id (log ++ [.ended call result answer]) =
      if call.assignment.taskId = id then
        { Notes.attempt id log with ends := (Notes.attempt id log).ends ++ [(call, result)] }
      else Notes.attempt id log :=
  attempt_concat

theorem Open.batchOf_call (h : Open log run) (hc : call ∈ run.calls) :
    run.session.batchOf call.assignment.taskId =
      (Notes.attempt call.assignment.taskId log).results := by
  have hcalls : call ∈ run.callsFor call.assignment.taskId :=
    List.mem_filter.mpr ⟨hc, decide_eq_true rfl⟩
  rw [h.batch, if_neg (List.ne_nil_of_mem hcalls)]

theorem Open.mem_attempt (h : Open log run) (hc : call ∈ run.calls) :
    call ∈ (Notes.attempt call.assignment.taskId log).calls :=
  (h.attempt _).mem_iff.mpr
    (List.mem_append_right _ (List.mem_filter.mpr ⟨hc, decide_eq_true rfl⟩))

theorem Open.of_ended (h : Open log run) (he : run.Hears call result answer run') :
    (Notes.attempt call.assignment.taskId (log ++ [.ended call result answer])).Of
      call.assignment.taskId call.assignment.attempt := by
  obtain ⟨n, hof⟩ := h.uniform call.assignment.taskId
  obtain rfl : call.assignment.attempt = n := (hof.calls call (h.mem_attempt he.mem)).2
  rw [attempt_ended, if_pos rfl]
  refine ⟨hof.calls, fun r hr => ?_⟩
  rw [Attempt.results_append, List.mem_append] at hr
  rcases hr with hr | hr
  · exact hof.results r hr
  · exact he.of r hr

theorem Open.attempt_perm (h : Open log run) (he : run.Hears call result answer run')
    (id : String) : (Notes.attempt id (log ++ [.ended call result answer])).calls.Perm
      ((Notes.attempt id (log ++ [.ended call result answer])).ends.map (·.1) ++
        run'.callsFor id) := by
  have hperm := (h.attempt id).trans ((he.callsFor_perm id).append_left _)
  rw [attempt_ended]
  split
  next hid =>
    rw [if_pos hid, ← List.append_assoc] at hperm
    rw [List.map_append]
    exact hperm
  next hid =>
    rw [if_neg hid] at hperm
    exact hperm

/-- The end of a call completes the account of its attempt. -/
theorem Open.exists_fits (h : Open log run) (he : run.Hears call result answer run') :
    ∃ a, Fits log call result answer a := by
  have hperm := h.attempt_perm he call.assignment.taskId
  have hresults : (Notes.attempt call.assignment.taskId
      (log ++ [.ended call result answer])).results =
        run.session.batchOf call.assignment.taskId ++ result.toList := by
    rw [attempt_ended, if_pos rfl, Attempt.results_append, h.batchOf_call he.mem]
  have hof := h.of_ended he
  generalize ha : Notes.attempt call.assignment.taskId (log ++ [.ended call result answer]) = a
    at hperm hresults hof
  refine ⟨a, ha, ?_, ?_, hof, hresults ▸ he.distinct⟩
  · have hlength := hperm.length_eq
    rw [List.length_append, List.length_map] at hlength
    have hopen : 1 < run.session.callsOf call.assignment.taskId ↔
        a.ends.length < a.calls.length := by
      rw [he.open_iff, ← List.length_pos_iff]
      omega
    rw [he.answer, Attempt.answer, hresults]
    simp only [hopen]
  · exact (List.sublist_append_left _ _).subperm.trans hperm.symm.subperm

theorem Open.hear (h : Open log run) (he : run.Hears call result answer run') :
    Open (log ++ [.ended call result answer]) run' := by
  have hmade : made (log ++ [.ended call result answer]) = made log :=
    made_concat.trans (List.append_nil _)
  have hended : Notes.ended (log ++ [.ended call result answer]) = Notes.ended log ++ [call] :=
    ended_concat
  have hcalls : (made log).Perm ((Notes.ended log ++ [call]) ++ run'.calls) := by
    rw [List.append_assoc]
    exact h.calls.trans ((he.back.calls_perm he.sound he.mem).append_left _)
  refine { numbers := ?_, ended := ?_, arrived := ?_, batches := fun id => ?_,
           uniform := fun id => ?_, fits := fun before call result answer hp => ?_, calls := ?_,
           attempt := h.attempt_perm he, batch := fun id => ?_ }
  · rw [hmade, h.numbers, he.back.fields.2.2.2.1]
  · rw [hmade, hended]
    exact (List.sublist_append_left _ _).subperm.trans hcalls.symm.subperm
  · rw [he.results, h.arrived, arrived_concat]
    rfl
  · rw [batches_concat, List.flatten_append, List.append_assoc, he.batch, ← List.append_assoc,
      h.batches, he.results, List.filter_append]
  · by_cases hid : call.assignment.taskId = id
    · subst hid
      exact ⟨_, h.of_ended he⟩
    · rw [attempt_ended, if_neg hid]
      exact h.uniform id
  · -- of the ends that are noted only the last is new
    rcases List.prefix_concat_iff.mp hp with hlast | hp
    · obtain ⟨rfl, hnote⟩ := List.append_inj' hlast rfl
      cases hnote
      exact h.exists_fits he
    · exact h.toKept.fits before call result answer hp
  · rw [hmade, hended]
    exact hcalls
  · by_cases hid : call.assignment.taskId = id
    · subst hid
      rw [he.batchOf_self, attempt_ended, if_pos rfl, Attempt.results_append,
        h.batchOf_call he.mem]
    · have hperm := he.callsFor_perm id
      rw [if_neg hid, List.nil_append] at hperm
      rw [he.batchOf_ne hid, attempt_ended, if_neg hid, h.batch]
      simp only [← List.length_eq_zero_iff, hperm.length_eq]

end

end Notes

end Crew
