import Crew.Proofs.Run.Tales

/-!
# What a run announces with what it does

Every small change that a pass is made of is announced by certain events, and so is the end of a
call; they say of each task just what tells of the change to it (`Session.Announces`). A pass is a
sequence of such changes, its announcements the events of them all (`Run.pass_tells`), and the end
of a call is one such change (`Run.complete_announces`). The announcements are made elsewhere than
the changes; here both are brought together.
-/

namespace Crew

theorem wordsOf_eq_nil {log : List Event} {id : String} (h : ∀ e ∈ log, e.taskId? = none) :
    wordsOf log id = [] :=
  List.filterMap_eq_nil_iff.mpr fun e he => Event.word?_of_taskId?_ne (by simp [h e he])

namespace Session

variable {s s' : Session} {said : List Event} {id : String} {p p' : Progress}

/-- The words that tell of the change from one session to another, for one task. -/
def news (s s' : Session) (id : String) : List Word :=
  match s.progress? id, s'.progress? id with
  | some p, some p' => p.news p'
  | _, _ => []

theorem news_of_progress? (hp : s.progress? id = some p) (hp' : s'.progress? id = some p') :
    s.news s' id = p.news p' := by
  rw [news, hp, hp']

theorem news_of_eq (h : s'.progress? id = s.progress? id) : s.news s' id = [] := by
  rw [news, h]
  cases s.progress? id with
  | none => rfl
  | some p => exact p.news_self

/-- The events tell of the change from one session to another, for every task. -/
structure Announces (s : Session) (said : List Event) (s' : Session) : Prop where
  inner : ∀ e ∈ said, e.IsInner
  words : ∀ id, wordsOf said id = s.news s' id

theorem Announces.silent (h : ∀ id p p', s.progress? id = some p → s'.progress? id = some p' →
    p.news p' = []) : s.Announces [] s' := by
  refine ⟨List.forall_mem_nil _, fun id => ?_⟩
  unfold news
  split
  next hp hp' => exact (h id _ _ hp hp').symm
  · rfl

theorem Announces.one (hne : ∀ other, other ≠ id → s'.progress? other = s.progress? other)
    (hp : s.progress? id = some p) (hp' : s'.progress? id = some p')
    (hinner : ∀ e ∈ said, e.IsInner) (hself : wordsOf said id = p.news p')
    (hothers : ∀ other, other ≠ id → wordsOf said other = []) : s.Announces said s' := by
  refine ⟨hinner, fun other => ?_⟩
  by_cases he : other = id
  · rw [he, hself, news_of_progress? hp hp']
  · rw [hothers other he, news_of_eq (hne other he)]

theorem Announces.ends {status : TaskStatus} {attempts : Nat} (runId : String)
    (hne : ∀ other, other ≠ id → s'.progress? other = s.progress? other)
    (hp : s.progress? id = some p) (hp' : s'.progress? id = some p')
    (hnews : p.news p' = [.ended status attempts]) :
    s.Announces [.taskResolved runId id status attempts] s' := by
  refine .one hne hp hp' (by simp [Event.IsInner]) ?_ fun other he => ?_
  · simp [wordsOf, Event.word?, hnews]
  · simp [wordsOf, Event.word?, Ne.symm he]

theorem Announces.aside {aside : List Event} (h : s.Announces said s')
    (hi : ∀ e ∈ aside, e.IsInner) (ha : ∀ e ∈ aside, e.taskId? = none) :
    s.Announces (aside ++ said) s' := by
  refine ⟨List.forall_mem_append.mpr ⟨hi, h.inner⟩, fun id => ?_⟩
  rw [wordsOf_append, wordsOf_eq_nil ha, List.nil_append, h.words]

def attemptsOf (s : Session) (id : String) : Nat := ((s.progress? id).map (·.attempts)).getD 0

theorem attemptsOf_update_skip (s : Session) (id dep other : String) :
    (s.update id (·.skip dep)).attemptsOf other = s.attemptsOf other := by
  rw [attemptsOf, attemptsOf, progress?_update]
  split
  · rw [Option.map_map]
    rfl
  · rfl

theorem attemptsOf_skipDownstream (ids : List String) (s : Session) (id : String) :
    (s.skipDownstream ids).1.attemptsOf id = s.attemptsOf id := by
  induction ids generalizing s with
  | nil => rfl
  | cons other rest ih =>
    unfold skipDownstream
    split
    · split
      · exact (ih _).trans (s.attemptsOf_update_skip _ _ _)
      · exact ih _
    · exact ih _

theorem runId_skipDownstream (ids : List String) (s : Session) :
    (s.skipDownstream ids).1.runId = s.runId := by
  induction ids generalizing s with
  | nil => rfl
  | cons other rest ih =>
    unfold skipDownstream
    split
    · split
      · exact ih _
      · exact ih _
    · exact ih _

end Session

theorem Registry.journal_reportOutcome (reg : Registry) (workerId : String)
    (success : Bool) (now : Nat) :
    ∃ said, (reg.reportOutcome workerId success now).1.journal = reg.journal ++ said ∧
      (∀ e ∈ said, e.IsInner) ∧ ∀ e ∈ said, e.taskId? = none := by
  unfold Registry.reportOutcome
  split
  · exact ⟨[], (List.append_nil _).symm, by simp, by simp⟩
  · dsimp only
    split
    · exact ⟨_, rfl, by simp [Event.IsInner], by simp [Event.taskId?]⟩
    · exact ⟨_, rfl, by simp [Event.IsInner], by simp [Event.taskId?]⟩
    · exact ⟨[], (List.append_nil _).symm, by simp, by simp⟩
    · exact ⟨[], (List.append_nil _).symm, by simp, by simp⟩

theorem Call.journal_told (call : Call) (cancelled : Bool) (reg : Registry) (outcome : Outcome)
    (now : Nat) : ∃ said, (call.told cancelled reg outcome now).journal = reg.journal ++ said ∧
      (∀ e ∈ said, e.IsInner) ∧ ∀ e ∈ said, e.taskId? = none := by
  unfold told
  split
  · exact ⟨[], (List.append_nil _).symm, by simp, by simp⟩
  · exact reg.journal_reportOutcome _ _ _

namespace Run

variable {run run' run₁ run₂ : Run} {reg reg' : Registry} {task : Task} {now : Nat}
  {said more : List Event}

-- ---------------------------------------------------------------------------
-- Deeds
-- ---------------------------------------------------------------------------

/-- One part of a pass, with what is announced of it. No more calls are announced of a task than it
asks for. -/
structure Deed (run : Run) (said : List Event) (run' : Run) : Prop where
  round : Round run run'
  announces : run.session.Announces said run'.session
  fair : ∀ task ∈ run.session.graph.tasks,
    (wordsOf said task.id).countP (·.isSent) ≤ run.policy.redundancyFor task

inductive Deeds (run : Run) : List Event → Run → Prop
  | start : Deeds run [] run
  | step {said more : List Event} {run₁ run₂ : Run} (h : Deeds run said run₁)
    (hd : Deed run₁ more run₂) : Deeds run (said ++ more) run₂

theorem Deeds.rounds (h : Deeds run said run') : Rounds run run' := by
  induction h with
  | start => exact .refl
  | step _ hd ih => exact ih.tail hd.round

theorem Deeds.inner (h : Deeds run said run') : ∀ e ∈ said, e.IsInner := by
  induction h with
  | start => exact List.forall_mem_nil _
  | step _ hd ih => exact List.forall_mem_append.mpr ⟨ih, hd.announces.inner⟩

theorem Deeds.trans (h : Deeds run said run₁) (h' : Deeds run₁ more run₂) :
    Deeds run (said ++ more) run₂ := by
  induction h' with
  | start =>
    rw [List.append_nil]
    exact h
  | step _ hd ih =>
    rw [← List.append_assoc]
    exact ih.step hd

theorem Deed.single (h : Deed run said run') : Deeds run said run' := .step .start h

/-- A run comes to another by changes that are put into the journal. -/
def Tells (run : Run) (reg : Registry) (run' : Run) (reg' : Registry) : Prop :=
  ∃ said, reg'.journal = reg.journal ++ said ∧ run.Deeds said run'

theorem Tells.refl (run : Run) (h : reg'.journal = reg.journal) : run.Tells reg run reg' :=
  ⟨[], by rw [h, List.append_nil], .start⟩

theorem Tells.trans {reg₁ reg₂ : Registry} (h : run.Tells reg run₁ reg₁)
    (h' : run₁.Tells reg₁ run₂ reg₂) : run.Tells reg run₂ reg₂ := by
  obtain ⟨said, hj, hd⟩ := h
  obtain ⟨more, hj', hd'⟩ := h'
  exact ⟨said ++ more, by rw [hj', hj, List.append_assoc], hd.trans hd'⟩

theorem Deed.tells {reg : Registry} (h : Deed run [] run') : run.Tells reg run' reg :=
  ⟨[], (List.append_nil _).symm, h.single⟩

theorem Deed.silent (hr : Round run run') (h : ∀ id p p', run.session.progress? id = some p →
    run'.session.progress? id = some p' → p.news p' = []) : Deed run [] run' :=
  ⟨hr, .silent h, fun _ _ => Nat.zero_le _⟩

theorem Deed.aside (hr : Round run run') (h : run'.session = run.session)
    (hi : ∀ e ∈ said, e.IsInner) (ha : ∀ e ∈ said, e.taskId? = none) : Deed run said run' := by
  refine ⟨hr, ⟨hi, fun id => ?_⟩, fun task _ => ?_⟩
  · rw [wordsOf_eq_nil ha, Session.news_of_eq (by rw [h])]
  · rw [wordsOf_eq_nil ha]
    exact Nat.zero_le _

theorem Deed.ends {id : String} {p p' : Progress} {status : TaskStatus} {attempts : Nat}
    (runId : String) (hr : Round run run')
    (hne : ∀ other, other ≠ id → run'.session.progress? other = run.session.progress? other)
    (hp : run.session.progress? id = some p) (hp' : run'.session.progress? id = some p')
    (hnews : p.news p' = [.ended status attempts]) :
    Deed run [.taskResolved runId id status attempts] run' := by
  refine ⟨hr, .ends runId hne hp hp' hnews, fun task _ => ?_⟩
  by_cases he : id = task.id
  · simp [wordsOf, Event.word?, he, Word.isSent]
  · simp [wordsOf, Event.word?, he]

-- ---------------------------------------------------------------------------
-- Passes
-- ---------------------------------------------------------------------------

theorem skip_deed {id dep : String} (hs : run.session.state? id = some .pending)
    (hd : run.session.failedDependency? id = some dep) :
    Deed run [.taskResolved run.session.runId id .skipped (run.session.attemptsOf id)]
      (run.withSession (run.session.update id (·.skip dep))) := by
  obtain ⟨p, hp, hstate⟩ := Session.state?_eq_some.mp hs
  refine .ends _ (.skips hs hd) (fun other he => Session.progress?_update_ne _ _ _ he) hp
    (Session.progress?_update_self _ _ _ hp) ?_
  rw [Session.attemptsOf, hp]
  exact Progress.news_ended rfl rfl (by rw [hstate]; rfl) rfl

theorem skipDownstream_deeds (ids : List String) (run : Run) :
    Deeds run ((run.session.skipDownstream ids).2.map fun x =>
        .taskResolved run.session.runId x.1 .skipped (run.session.attemptsOf x.1))
      (run.withSession (run.session.skipDownstream ids).1) := by
  induction ids generalizing run with
  | nil => exact .start
  | cons id rest ih =>
    rw [Session.skipDownstream]
    split
    next hs =>
      split
      next dep hd =>
        have hrest := ih (run.withSession (run.session.update id (·.skip dep)))
        have hattempts (x : String × String) : (run.session.update id (·.skip dep)).attemptsOf x.1 =
            run.session.attemptsOf x.1 := run.session.attemptsOf_update_skip _ _ _
        simp only [withSession, hattempts] at hrest
        exact (skip_deed hs hd).single.trans hrest
      · exact ih run
    · exact ih run

theorem journal_announceEnd {id : String} {p : Progress}
    (hp : run.session.progress? id = some p) (reg : Registry) (status : TaskStatus) :
    (run.announceEnd reg id status).journal =
      reg.journal ++ [.taskResolved run.session.runId id status p.attempts] := by
  rw [announceEnd, hp]
  rfl

theorem journal_announceEnds (skipped : List (String × String)) (run : Run) (reg : Registry) :
    (skipped.foldl (fun reg x => run.announceEnd reg x.1 .skipped) reg).journal =
      reg.journal ++ skipped.map fun x =>
        .taskResolved run.session.runId x.1 .skipped (run.session.attemptsOf x.1) := by
  induction skipped generalizing reg with
  | nil => exact (List.append_nil _).symm
  | cons x rest ih =>
    rw [List.foldl_cons, ih, List.map_cons, List.append_cons]
    rfl

theorem propagateFailures_tells (run : Run) (reg : Registry) :
    run.Tells reg (run.propagateFailures reg).1 (run.propagateFailures reg).2 := by
  refine ⟨_, (journal_announceEnds _ _ reg).trans ?_, skipDownstream_deeds run.session.order run⟩
  simp only [withSession, Session.attemptsOf_skipDownstream, Session.runId_skipDownstream]

theorem releaseBackoffs_deed (run : Run) (now : Nat) :
    Deed run [] (run.withSession (run.session.releaseBackoffs now).1) := by
  refine .silent (.releases now) fun id p p' hp hp' => ?_
  have hreleased := hp'
  rw [withSession, Session.progress?_releaseBackoffs, hp] at hreleased
  obtain rfl := Option.some.inj hreleased
  change p.news (p.release now) = []
  unfold Progress.release
  split
  · split
    · exact Progress.news_eq_nil (Nat.le_refl _) (Nat.le_refl _) (.inl rfl)
    · exact p.news_self
  · exact p.news_self

theorem Turn.deed {p p' : Progress} (ht : Turn run task now run')
    (hm : task ∈ run.session.graph.tasks) (hr : run.session.isReady task)
    (hp : run.session.progress? task.id = some p) (hp' : run'.session.progress? task.id = some p')
    (hinner : ∀ e ∈ said, e.IsInner) (hself : wordsOf said task.id = p.news p')
    (hothers : ∀ other, other ≠ task.id → wordsOf said other = [])
    (hfair : (wordsOf said task.id).countP (·.isSent) ≤ run.policy.redundancyFor task)
    (hn : run.session.graph.ids.Nodup) : Deed run said run' := by
  refine ⟨.turns hm hr ht, .one (fun other => ht.progress?_ne) hp hp' hinner hself hothers,
    fun other ho => ?_⟩
  by_cases he : other.id = task.id
  · obtain rfl := TaskGraph.eq_of_id_eq hn hm ho he
    exact hfair
  · rw [hothers other.id he]
    exact Nat.zero_le _

theorem Turn.deed_silent {p p' : Progress} (ht : Turn run task now run')
    (hm : task ∈ run.session.graph.tasks) (hr : run.session.isReady task)
    (hp : run.session.progress? task.id = some p) (hp' : run'.session.progress? task.id = some p')
    (hnews : p.news p' = []) (hn : run.session.graph.ids.Nodup) : Deed run [] run' :=
  ht.deed hm hr hp hp' (List.forall_mem_nil _) hnews.symm (fun _ _ => rfl) (Nat.zero_le _) hn

theorem checkUnavailable_tells (reg : Registry) (now : Nat)
    (hm : task ∈ run.session.graph.tasks) (hr : run.session.isReady task)
    (hn : run.session.graph.ids.Nodup) :
    run.Tells reg (run.checkUnavailable reg task now).1 (run.checkUnavailable reg task now).2.1 := by
  obtain ⟨p, hp, hs⟩ := Session.state?_eq_some.mp (Session.isReady_iff.mp hr).1
  have hturn := checkUnavailable_turn run reg task now
  unfold checkUnavailable at hturn ⊢
  rw [Session.markWaiting_of_progress? hp] at hturn ⊢
  dsimp only at hturn ⊢
  split at hturn
  next hlt =>
    rw [if_pos hlt]
    refine ⟨[], (List.append_nil _).symm, (hturn.deed_silent hm hr hp
      (Session.progress?_update_self _ _ _ hp) p.news_self hn).single⟩
  next hlt =>
    rw [if_neg hlt]
    have hp' := Session.progress?_update_self _ task.id
      (·.fail (UnavailableError.mk task.capability (now - p.pendingSince.getD now)).message)
      (Session.progress?_update_self _ _ (fun q => { q with
        pendingSince := some (p.pendingSince.getD now) }) hp)
    refine ⟨_, journal_announceEnd hp' reg _, (Deed.ends _ (.turns hm hr hturn)
      (fun _ => hturn.progress?_ne) hp hp' ?_).single⟩
    exact Progress.news_ended rfl rfl (by rw [hs]; rfl) rfl

theorem wordsOf_dispatched (runId taskId id : String) (attempt : Nat) (leases : List Lease) :
    wordsOf (leases.map fun lease => .taskDispatched runId taskId lease.workerId attempt) id =
      if taskId = id then List.replicate leases.length (.sent attempt) else [] := by
  rw [wordsOf, List.filterMap_map]
  change leases.filterMap (fun _ => if taskId = id then some (Word.sent attempt) else none) = _
  split
  · rw [List.filterMap_eq_map', List.map_const']
  · exact List.filterMap_eq_nil_iff.mpr fun _ _ => rfl

theorem sends_deed {attempt : Nat} {leases : List Lease} (hm : task ∈ run.session.graph.tasks)
    (hr : run.session.isReady task) (hn : run.session.graph.ids.Nodup)
    (ha : (run.session.progress? task.id).map (·.attempts + 1) = some attempt)
    (hne : leases ≠ []) (hfree : leases.length ≤ run.slots.free)
    (hle : leases.length ≤ run.policy.redundancyFor task) (runId : String) :
    Deed run (leases.map fun lease => .taskDispatched runId task.id lease.workerId attempt)
      (leases.foldl (place task attempt now) (run.opened task)) := by
  obtain ⟨p, hp, -⟩ := Session.state?_eq_some.mp (Session.isReady_iff.mp hr).1
  obtain rfl : p.attempts + 1 = attempt := by simpa [hp] using ha
  have hwords := wordsOf_dispatched runId task.id task.id (p.attempts + 1) leases
  rw [if_pos rfl] at hwords
  refine (Turn.sends ha hne hfree).deed hm hr hp (progress?_sends hp) (fun e he => ?_) ?_
    (fun other ho => ?_) ?_ hn
  · obtain ⟨lease, -, rfl⟩ := List.mem_map.mp he
    trivial
  · rw [hwords, Progress.news_sent (Nat.lt_succ_self _)]
    rfl
  · rw [wordsOf_dispatched, if_neg (Ne.symm ho)]
  · rw [hwords, List.countP_replicate]
    simpa [Word.isSent] using hle

theorem sendOut_tells {attempt : Nat} (workers : List WorkerSnapshot) (reg : Registry) (now : Nat)
    (hm : task ∈ run.session.graph.tasks) (hr : run.session.isReady task)
    (hn : run.session.graph.ids.Nodup)
    (ha : (run.session.progress? task.id).map (·.attempts + 1) = some attempt)
    (hle : workers.length ≤ run.policy.redundancyFor task) :
    let sent := sendOut task attempt now workers (run.opened task) reg
    run.Tells reg
      (if sent.2.2 = 0 then sent.1.withSession (sent.1.session.abortAttempt task.id) else sent.1)
      sent.2.1 := by
  obtain ⟨leases, hrun, hcount, hfree, hsub, hj⟩ :=
    sendOut_eq task attempt now workers (run.opened task) reg
  dsimp only
  split
  next h0 =>
    obtain ⟨p, hp, hs⟩ := Session.state?_eq_some.mp (Session.isReady_iff.mp hr).1
    obtain rfl : leases = [] := List.length_eq_zero_iff.mp (hcount.trans h0)
    have hp' : ((run.opened task).session.abortAttempt task.id).progress? task.id =
        some p.begin.abort := Session.progress?_update_self _ _ _ (progress?_opened hp)
    have habort : p.begin.abort = { p.begin with state := .pending, attempts := p.attempts } := by
      simp [Progress.begin, Progress.abort]
    have hnews : p.news p.begin.abort = [] := by
      rw [habort]
      exact Progress.news_eq_nil (Nat.le_refl _) (Nat.le_refl _) (.inl rfl)
    rw [hrun]
    have hdeed := (Turn.withdraws : Turn run task now _).deed_silent hm hr hp hp' hnews hn
    exact ⟨[], hj, hdeed.single⟩
  next h0 =>
    have hne : leases ≠ [] := by
      rintro rfl
      exact h0 hcount.symm
    have hlength := hsub.length_le
    rw [List.length_map, List.length_map] at hlength
    rw [hrun]
    exact ⟨_, hj, (sends_deed hm hr hn ha hne hfree (Nat.le_trans hlength hle) _).single⟩

theorem dispatchTask_tells (reg : Registry) (now : Nat) (hm : task ∈ run.session.graph.tasks)
    (hr : run.session.isReady task) (hn : run.session.graph.ids.Nodup) :
    run.Tells reg (run.dispatchTask reg task now).1 (run.dispatchTask reg task now).2.1 := by
  obtain ⟨p, hp, hs⟩ := Session.state?_eq_some.mp (Session.isReady_iff.mp hr).1
  have hwaits : Deed run [] (run.withSession (run.session.clearWaiting task.id)) :=
    (Turn.waits : Turn run task now _).deed_silent hm hr hp
      (Session.progress?_update_self _ _ _ hp) p.news_self hn
  have hselect : run.Tells reg run (reg.selectFor task.capability now).1 := .refl run rfl
  unfold dispatchTask
  split
  next reg' he =>
    rw [he] at hselect
    split
    · exact hselect.trans hwaits.tells
    · exact hselect.trans (checkUnavailable_tells reg' now hm hr hn)
  next reg' candidates _ he =>
    rw [he] at hselect
    dsimp only
    split
    · exact hselect.trans hwaits.tells
    · split
      next session hnone => exact hselect.trans hwaits.tells
      next session attempt ha =>
        obtain ⟨rfl, hattempt⟩ := beginAttempt_eq_some ha
        have hsent := sendOut_tells (run.policy.choose task
            (((run.session.clearWaiting task.id).progress? task.id).bind (·.lastFailedWorker))
            candidates) reg' now hm hr hn hattempt (List.length_take_le _ _)
        refine hselect.trans ?_
        dsimp only at hsent
        split at hsent
        next h0 =>
          rw [if_pos (by exact h0)]
          exact hsent
        next h0 =>
          rw [if_neg (by exact h0)]
          exact hsent

theorem dispatchAll_tells {tasks : List Task} (run : Run) (reg : Registry) (now : Nat)
    (hd : (tasks.map (·.id)).Nodup) (hm : ∀ task ∈ tasks, task ∈ run.session.graph.tasks)
    (hr : ∀ task ∈ tasks, run.session.isReady task) (hn : run.session.graph.ids.Nodup) :
    run.Tells reg (dispatchAll now tasks run reg).1 (dispatchAll now tasks run reg).2.1 := by
  induction tasks generalizing run reg with
  | nil => exact .refl run rfl
  | cons task rest ih =>
    rw [List.map_cons, List.nodup_cons] at hd
    obtain ⟨hm, hms⟩ := List.forall_mem_cons.mp hm
    obtain ⟨hr, hrs⟩ := List.forall_mem_cons.mp hr
    have ht := dispatchTask_turn run reg task now
    refine (dispatchTask_tells reg now hm hr hn).trans (ih _ _ hd.2 ?_ ?_ (by rwa [ht.graph]))
    · rwa [ht.graph]
    · exact fun other ho => ht.isReady hr (hrs other ho) fun he =>
        hd.1 (List.mem_map.mpr ⟨other, ho, he⟩)

theorem dispatchReady_tells (run : Run) (reg : Registry) (now : Nat)
    (hn : run.session.graph.ids.Nodup) :
    run.Tells reg (run.dispatchReady reg now).1 (run.dispatchReady reg now).2.1 := by
  have hlearn : Deed run [] (run.withSession (run.session.refreshTrust reg.trustTable)) :=
    .silent (.learns _) fun id p p' hp hp' => by
      obtain rfl : p = p' := Option.some.inj (hp.symm.trans hp')
      exact p.news_self
  unfold dispatchReady
  split
  · exact .refl run rfl
  · exact hlearn.tells.trans (dispatchAll_tells _ reg now (nodup_readyTasks hn)
      (fun task ht => (mem_readyTasks.mp ht).1) (fun task ht => (mem_readyTasks.mp ht).2) hn)

theorem observeScaling_tells (run : Run) (reg : Registry) (waiting now : Nat) :
    run.Tells reg (run.observeScaling reg waiting now).1
      (run.observeScaling reg waiting now).2 := by
  have hlooks (detector : ScalingDetector) {said : List Event} (hi : ∀ e ∈ said, e.IsInner)
      (ha : ∀ e ∈ said, e.taskId? = none) : run.Deeds said { run with detector } :=
    (Deed.aside (.looks detector) rfl hi ha).single
  unfold observeScaling
  dsimp only
  split
  · exact ⟨[], (List.append_nil _).symm, hlooks _ (by simp) (by simp)⟩
  · exact ⟨_, rfl, hlooks _ (by simp [Event.IsInner]) (by simp [Event.taskId?])⟩
  · exact ⟨_, rfl, hlooks _ (by simp [Event.IsInner]) (by simp [Event.taskId?])⟩

theorem pass_tells (run : Run) (reg : Registry) (now : Nat) (hn : run.session.graph.ids.Nodup) :
    run.Tells reg (run.pass reg now).1 (run.pass reg now).2 := by
  have hprepare : run.Tells reg (run.prepare reg now).1 (run.prepare reg now).2 :=
    (propagateFailures_tells run reg).trans (releaseBackoffs_deed _ now).tells
  have hready := dispatchReady_tells (run.prepare reg now).1 (run.prepare reg now).2 now
    (by rwa [Rounds.graph (run.prepare_rounds reg now)])
  rw [pass_eq]
  exact ((hprepare.trans hready).trans (propagateFailures_tells _ _)).trans
    (observeScaling_tells _ _ _ _)

-- ---------------------------------------------------------------------------
-- Ends of calls
-- ---------------------------------------------------------------------------

section
variable {s : Session} {id : String} {p q : Progress}

/-- The end of a complete attempt is announced as the change of its task, whose books were just
brought up to date. -/
theorem closeAttempt_announces (reg : Registry) (results : List TaskResult) (now : Nat)
    (hne : ∀ other, other ≠ id → run.session.progress? other = s.progress? other)
    (hp : s.progress? id = some p) (hq : run.session.progress? id = some q)
    (hs : p.state = .running) (hstate : q.state = .running) (ha : q.attempts = p.attempts)
    (hr : q.retriesUsed = p.retriesUsed) :
    ∃ said, (run.closeAttempt reg id results now).2.journal = reg.journal ++ said ∧
      s.Announces said (run.closeAttempt reg id results now).1.session := by
  have hopen : p.state.isTerminal = false := by rw [hs]; rfl
  have hothers (f : Progress → Progress) : ∀ other, other ≠ id →
      (run.session.update id f).progress? other = s.progress? other := fun other he =>
    (Session.progress?_update_ne _ _ _ he).trans (hne other he)
  have hself (f : Progress → Progress) : (run.session.update id f).progress? id = some (f q) :=
    Session.progress?_update_self _ _ _ hq
  unfold closeAttempt
  split
  next canonical _ =>
    exact ⟨_, journal_announceEnd (hself (·.succeed canonical)) reg _,
      .ends _ (hothers _) hp (hself _) (Progress.news_ended ha hr hopen rfl)⟩
  · split
    · refine ⟨[], (List.append_nil _).symm,
        .one hne hp hq (List.forall_mem_nil _) ?_ fun _ _ => rfl⟩
      rw [Progress.news_eq_nil (Nat.le_of_eq ha) (Nat.le_of_eq hr) (.inl (by rw [hstate]; rfl))]
      rfl
    next task _ =>
      dsimp only
      split
      next delay _ =>
        have hnews (expiry : Nat) (worker : Option String) (error : String) :
            p.news (q.backOff expiry worker error) = [.again (q.attempts + 1)] :=
          Progress.news_again ha (Nat.lt_succ_of_le (Nat.le_of_eq hr.symm))
        refine ⟨_, rfl, .one (hothers _) hp (hself _) (by simp [Event.IsInner]) ?_
          fun other he => ?_⟩
        · simp [wordsOf, Event.word?, hnews, hq]
        · simp [wordsOf, Event.word?, Ne.symm he]
      · exact ⟨_, journal_announceEnd (hself (·.fail _)) reg _,
          .ends _ (hothers _) hp (hself _) (Progress.news_ended ha hr hopen rfl)⟩

theorem account_announces {call : Call} (hs : run.Sound) (hc : call ∈ run.calls) (reg : Registry)
    (completion : Completion) (now : Nat) :
    let accounted := (run.giveBack call.assignment.id).account reg call.assignment.id completion now
    ∃ said, accounted.2.journal = reg.journal ++ said ∧
      run.session.Announces said accounted.1.session := by
  have ha := hs.mem_inFlight hc
  obtain ⟨p, hp, hrunning⟩ := hs.books.running_of_mem ha
  have hopen : p.state.isTerminal = false := by rw [hrunning]; rfl
  unfold account
  dsimp only
  split
  next s taskId results hsettle =>
    obtain ⟨rfl, -, -, rfl, rfl⟩ := closed_of_settle hs.books ha hp hsettle
    exact closeAttempt_announces reg _ now (fun other he => Session.progress?_update_ne _ _ _ he) hp
      (Session.progress?_update_self _ _ _ hp) hrunning hrunning rfl rfl
  next s settled hopens hsettle =>
    change run.session.settle _ _ _ = _ at hsettle
    have hne (other : String) (he : other ≠ call.assignment.taskId) :
        s.progress? other = run.session.progress? other := by
      rw [← Session.progress?_settle_ne completion.result? now (hs.books.find? ha) he, hsettle]
    refine ⟨[], (List.append_nil _).symm, ?_⟩
    have hone {q : Progress} (hq : s.progress? call.assignment.taskId = some q)
        (hnews : p.news q = []) : run.session.Announces [] s :=
      .one hne hp hq (List.forall_mem_nil _) hnews.symm fun _ _ => rfl
    rw [Session.settle_of_find? (hs.books.find? ha) hp] at hsettle
    split at hsettle
    · cases hsettle
      exact hone (Session.progress?_update_self _ _ _ hp)
        (Progress.news_eq_nil (Nat.le_refl _) (Nat.le_refl _) (.inl hopen))
    · split at hsettle
      · cases hsettle
        exact hone (Session.progress?_update_self _ _ _ hp)
          (Progress.news_eq_nil (Nat.sub_le _ _) (Nat.le_refl _) (.inl rfl))
      · cases hsettle
        exact absurd rfl (hopens _ _)

theorem complete_announces (hs : run.Sound) (reg : Registry) (n : Nat) (cancelled : Bool)
    (outcome : Outcome) (now : Nat) :
    ∃ said, (run.complete reg n cancelled outcome now).2.journal = reg.journal ++ said ∧
      run.session.Announces said (run.complete reg n cancelled outcome now).1.session := by
  cases hf : run.calls.find? (·.assignment.id = n) with
  | none =>
    rw [complete, hf]
    refine ⟨[], (List.append_nil _).symm, .silent fun id p p' hp hp' => ?_⟩
    obtain rfl : p = p' := Option.some.inj (hp.symm.trans hp')
    exact p.news_self
  | some call =>
    obtain rfl : call.assignment.id = n := by simpa using List.find?_some hf
    obtain ⟨completion, -, he⟩ := complete_account hf reg cancelled outcome now
    obtain ⟨said, hj, hannounces⟩ := account_announces hs (List.mem_of_find?_eq_some hf)
      ((call.told cancelled reg outcome now).release call.lease) completion now
    obtain ⟨aside, htold, hinner, habout⟩ := call.journal_told cancelled reg outcome now
    rw [he]
    refine ⟨aside ++ said, ?_, hannounces.aside hinner habout⟩
    rw [hj, ← List.append_assoc, ← htold]
    rfl

end

end Run

end Crew
