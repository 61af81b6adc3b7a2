import Crew.Proofs.Retry
import Crew.Proofs.Run.Announcements
import Crew.Proofs.Run.Cancellation
import Crew.Proofs.Run.Dispatched
import Crew.Proofs.Run.Queues

/-!
# Backoffs are kept

A run announces a retry where an attempt has ended without a result, and nowhere else. The wait
that it announces is the one its strategy gives (`Run.complete_schedules`), and the task backs off
for just as long, since no wait of a checked configuration is longer than the longest backoff
(`keepsBackoffs`). No pass finds the task ready before (`Course.Steps.holds`), and only what a pass
finds ready is sent out (`Course.Own.ready_of_dispatched`).
-/

namespace Crew

namespace Progress

variable {p p' : Progress}

theorem not_again_of_retriesUsed (h : p'.retriesUsed = p.retriesUsed) :
    ∀ w ∈ p.news p', w.isAgain = false := by
  intro w hw
  unfold news at hw
  split at hw
  · rw [List.eq_of_mem_replicate hw]
    rfl
  · rw [if_neg (by omega)] at hw
    split at hw
    · rw [List.mem_singleton.mp hw]
      rfl
    · cases hw

/-- No pass before the given time makes the task ready. -/
def Held (expiry : Nat) (p : Progress) : Prop := p.state = .backoff expiry ∨ p.state.isTerminal

theorem Held.release {expiry now : Nat} (h : p.Held expiry) (hn : now < expiry) :
    p.release now = p := by
  unfold Progress.release
  rcases h with hs | ht
  · simp [hs, Nat.not_le.mpr hn]
  · cases hs : p.state <;> simp_all [TaskState.isTerminal]

theorem Held.not_pending {expiry : Nat} (h : p.Held expiry) : p.state ≠ .pending := by
  intro hp
  rcases h with hs | ht
  · cases hp.symm.trans hs
  · rw [hp] at ht
    cases ht

end Progress

namespace Run

variable {run run' : Run} {reg : Registry} {said : List Event} {now n attempt delay : Nat}
  {id runId taskId error : String} {results : List TaskResult} {q : Progress}

-- ---------------------------------------------------------------------------
-- Announcements of retries
-- ---------------------------------------------------------------------------

theorem Deeds.not_again (hs : run.Sound) (h : run.Deeds said run') :
    ∀ w ∈ wordsOf said id, w.isAgain = false := by
  induction h with
  | start => simp
  | step h hd ih =>
    rw [wordsOf_append]
    refine List.forall_mem_append.mpr ⟨ih, ?_⟩
    have hbooks := (hs.rounds h.rounds).books
    rw [hd.announces.words id, Session.news]
    split
    next p p' hp hp' =>
      obtain ⟨task, ht, rfl⟩ := hbooks.exists_task hp
      obtain ⟨q, hq, hround⟩ := hd.round.progress hbooks.distinct ht hp
      obtain rfl : q = p' := Option.some.inj (hq.symm.trans hp')
      exact Progress.not_again_of_retriesUsed hround.retriesUsed.1
    · simp

theorem mem_wordsOf_of_retry (h : .taskRetryScheduled runId id attempt delay error ∈ said) :
    .again attempt ∈ wordsOf said id :=
  List.mem_filterMap.mpr ⟨_, h, by simp [Event.word?]⟩

/-- Where the end of an attempt is announced as a retry, its task backs off. -/
theorem closeAttempt_schedules (run : Run) (reg : Registry) (results : List TaskResult) (now : Nat)
    (hq : run.session.progress? taskId = some q) :
    ∃ said, (run.closeAttempt reg taskId results now).2.journal = reg.journal ++ said ∧
      ∀ runId id attempt delay error, .taskRetryScheduled runId id attempt delay error ∈ said →
        id = taskId ∧ delay = run.policy.retry.delay q.retriesUsed ∧
        ∃ worker, (run.closeAttempt reg taskId results now).1.session.progress? taskId =
          some (q.backOff (deadline now delay) worker error) := by
  have hself (f : Progress → Progress) :
      (run.session.update taskId f).progress? taskId = some (f q) :=
    Session.progress?_update_self _ _ _ hq
  unfold closeAttempt
  split
  · exact ⟨_, journal_announceEnd (hself (·.succeed _)) reg _, by simp⟩
  · split
    · exact ⟨[], (List.append_nil _).symm, by simp⟩
    · dsimp only
      split
      next wait hd =>
        refine ⟨_, rfl, fun runId id attempt delay error he => ?_⟩
        simp only [List.mem_singleton, Event.taskRetryScheduled.injEq] at he
        obtain ⟨-, rfl, -, rfl, rfl⟩ := he
        rw [hq] at hd
        exact ⟨rfl, RetryStrategy.eq_delay_of_decide hd, _, hself _⟩
      · exact ⟨_, journal_announceEnd (hself (·.fail _)) reg _, by simp⟩

theorem complete_schedules (hs : run.Sound) (reg : Registry) (n : Nat) (cancelled : Bool)
    (outcome : Outcome) (now : Nat) :
    ∃ said, (run.complete reg n cancelled outcome now).2.journal = reg.journal ++ said ∧
      ∀ runId id attempt delay error, .taskRetryScheduled runId id attempt delay error ∈ said →
        (∃ p, run.session.progress? id = some p ∧ delay = run.policy.retry.delay p.retriesUsed) ∧
        (run.complete reg n cancelled outcome now).1.session.state? id =
          some (.backoff (deadline now delay)) := by
  cases hf : run.calls.find? (·.assignment.id = n) with
  | none =>
    rw [complete, hf]
    exact ⟨[], (List.append_nil _).symm, by simp⟩
  | some call =>
    obtain rfl : call.assignment.id = n := by simpa using List.find?_some hf
    obtain ⟨completion, -, heq⟩ := complete_account hf reg cancelled outcome now
    obtain ⟨aside, htold, -, habout⟩ := call.journal_told cancelled reg outcome now
    have hnone (e : Event) (he : e ∈ aside) (runId id : String) (attempt delay : Nat)
        (error : String) : e ≠ .taskRetryScheduled runId id attempt delay error := by
      rintro rfl
      cases habout _ he
    have ha := hs.mem_inFlight (List.mem_of_find?_eq_some hf)
    obtain ⟨p, hp, -⟩ := hs.books.running_of_mem ha
    rw [heq]
    unfold account
    split
    next s taskId results hsettle =>
      obtain ⟨rfl, -, -, rfl, hclosed⟩ := closed_of_settle hs.books ha hp hsettle
      have hq : s.progress? call.assignment.taskId =
          some { p.account completion.result? with batch := [] } := by
        rw [hclosed]
        exact Session.progress?_update_self _ _ _ hp
      obtain ⟨said, hj, hretry⟩ := closeAttempt_schedules
        ((run.giveBack call.assignment.id).withSession s)
        ((call.told cancelled reg outcome now).release call.lease)
        (p.account completion.result?).batch now hq
      have hjournal : ((call.told cancelled reg outcome now).release call.lease).journal =
          reg.journal ++ aside := htold
      refine ⟨aside ++ said, ?_, fun runId id attempt delay error he => ?_⟩
      · rw [← List.append_assoc, ← hjournal]
        exact hj
      · rcases List.mem_append.mp he with he | he
        · exact absurd rfl (hnone _ he runId id attempt delay error)
        · obtain ⟨rfl, hdelay, worker, hafter⟩ := hretry runId id attempt delay error he
          exact ⟨⟨p, hp, hdelay⟩, Session.state?_eq_some.mpr ⟨_, hafter, rfl⟩⟩
    next =>
      exact ⟨aside, htold, fun runId id attempt delay error he =>
        absurd rfl (hnone _ he runId id attempt delay error)⟩

end Run

-- ---------------------------------------------------------------------------
-- Courses
-- ---------------------------------------------------------------------------

namespace Course

variable {c c' : Course} {said : List Event} {task : Task} {id : String} {expiry : Nat}

/-- The run itself takes the step, and announces the event with it. -/
def Says (c : Course) (e : Event) (c' : Course) : Prop :=
  c.Own c' ∧ ∃ said, c'.registry.journal = c.registry.journal ++ said ∧ e ∈ said

theorem Own.ready_of_dispatched {runId workerId : String} {attempt : Nat} (h : c.Own c')
    (hj : c'.registry.journal = c.registry.journal ++ said)
    (he : .taskDispatched runId id workerId attempt ∈ said) :
    ∃ task ∈ (c.run.prepare c.registry c.now).1.session.readyTasks, task.id = id := by
  have hid : id ∈ said.filterMap Event.dispatched? := List.mem_filterMap.mpr ⟨_, he, rfl⟩
  have hdispatched : c'.registry.dispatched =
      c.registry.dispatched ++ said.filterMap Event.dispatched? := by
    rw [Registry.dispatched, hj, List.filterMap_append]
    rfl
  have hsilent (h : c'.registry.dispatched = c.registry.dispatched) : False := by
    rw [List.append_cancel_left ((List.append_nil _).trans (h.symm.trans hdispatched)).symm] at hid
    cases hid
  cases h with
  | pass =>
    obtain ⟨sent, hsent, hturns⟩ := Run.dispatched_pass c.run c.registry c.now
    rw [← List.append_cancel_left (hsent.symm.trans hdispatched)] at hid
    obtain ⟨turn, hturn, rfl⟩ := hturns id hid
    exact ⟨turn.2, Run.turns_subset hturn, rfl⟩
  | complete _ n outcome => exact (hsilent (Run.dispatched_complete _ _ _ _ _ _)).elim
  | wake | leave => exact (hsilent rfl).elim
  | stop => exact (hsilent (Run.dispatched_cancel _ _)).elim

/-- The task has not become ready before the given time. -/
def Holds (c : Course) (id : String) (expiry : Nat) : Prop :=
  expiry ≤ c.now ∨ ∃ p, c.run.session.progress? id = some p ∧ p.Held expiry

theorem not_ready_of_held {p : Progress} (hp : c.run.session.progress? task.id = some p)
    (h : p.Held expiry) (hn : c.now < expiry) :
    task ∉ (c.run.prepare c.registry c.now).1.session.readyTasks := by
  intro hm
  obtain ⟨q, hq, hpending⟩ := Session.state?_eq_some.mp
    (Session.isReady_iff.mp (Run.mem_readyTasks.mp hm).2).1
  obtain ⟨q', hq', hprepared⟩ := Run.prepare_progress c.registry c.now hp
  obtain rfl : q = q' := Option.some.inj (hq.symm.trans hq')
  have hheld : q.Held expiry := by
    rcases hprepared with ht | rfl
    · exact .inr ht
    · rwa [h.release hn]
  exact hheld.not_pending hpending

theorem pass_held {p : Progress} (hs : c.Sound) (ht : task ∈ c.run.session.graph.tasks)
    (hp : c.run.session.progress? task.id = some p) (h : p.Held expiry) (hn : c.now < expiry) :
    ∃ p', c.pass.run.session.progress? task.id = some p' ∧ p'.Held expiry := by
  obtain ⟨p', hp', hsame⟩ :=
    Run.pass_progress_of_not_ready (not_ready_of_held hp h hn) hs.run ht hp
  refine ⟨p', hp', ?_⟩
  rcases hsame with hterminal | rfl
  · exact .inr hterminal
  · rwa [h.release hn]

theorem Own.held {p : Progress} (hs : c.Sound) (ht : task ∈ c.run.session.graph.tasks)
    (hp : c.run.session.progress? task.id = some p) (h : p.Held expiry) (hn : c.now < expiry)
    (hown : c.Own c') : ∃ p', c'.run.session.progress? task.id = some p' ∧ p'.Held expiry := by
  cases hown with
  | pass => exact pass_held hs ht hp h hn
  | complete _ n outcome =>
    rcases complete_progress hs n outcome ht hp with hsame | ⟨_, -, -, -, _, -, hreturn⟩
    · exact ⟨p, hsame, h⟩
    · -- the task of a call runs, so it does not back off
      have hrunning := hreturn.running
      rcases h with hbackoff | hterminal
      · cases hrunning.symm.trans hbackoff
      · rw [hrunning] at hterminal
        cases hterminal
  | wake | leave => exact ⟨p, hp, h⟩
  | stop =>
    have hstopped : c.run.session.cancel.progress? task.id = some p.cancel := by
      rw [Session.progress?_cancel, hp]
      rfl
    refine ⟨p.cancel, ?_, .inr (Session.over_cancel _ hstopped)⟩
    rwa [session_stop]

theorem Step.holds (hs : c.Sound) (ht : task ∈ c.run.session.graph.tasks)
    (h : c.Holds task.id expiry) (hstep : c.Step c') : c'.Holds task.id expiry := by
  cases hstep with
  | own hown =>
    have hnow : c'.now = c.now := by cases hown <;> rfl
    rcases h with hle | ⟨p, hp, hheld⟩
    · exact .inl (hnow ▸ hle)
    · rcases Nat.lt_or_ge c.now expiry with hlt | hle
      · exact .inr (hown.held hs ht hp hheld hlt)
      · exact .inl (hnow ▸ hle)
  | advances hnow => exact h.imp hnow.trans' id
  | _ => exact h

theorem Steps.holds (hs : c.Sound) (ht : task ∈ c.run.session.graph.tasks)
    (h : c.Holds task.id expiry) (hsteps : c.Steps c') : c'.Holds task.id expiry := by
  induction hsteps with
  | refl => exact h
  | tail hbefore hstep ih =>
    refine hstep.holds (Steps.sound hs hbefore) ?_ ih
    rwa [(Steps.follows hs hbefore).graph]

theorem Says.schedules {runId error : String} {attempt delay : Nat} (hs : c.Sound)
    (h : c.Says (.taskRetryScheduled runId id attempt delay error) c') :
    (∃ p, c.run.session.progress? id = some p ∧
      delay = c.run.policy.retry.delay p.retriesUsed) ∧
    c'.run.session.state? id = some (.backoff (Run.deadline c.now delay)) := by
  obtain ⟨hown, said, hj, he⟩ := h
  have hsaid {more : List Event} (h : c'.registry.journal = c.registry.journal ++ more) :
      .taskRetryScheduled runId id attempt delay error ∈ more :=
    List.append_cancel_left (h.symm.trans hj) ▸ he
  have hsilent (h : c'.registry.journal = c.registry.journal) : False := by
    simpa using hsaid (h.trans (List.append_nil _).symm)
  cases hown with
  | pass =>
    obtain ⟨more, hmore, hdeeds⟩ := Run.pass_tells c.run c.registry c.now hs.run.books.distinct
    have hagain := hdeeds.not_again hs.run _ (Run.mem_wordsOf_of_retry (hsaid hmore))
    cases hagain
  | complete _ n outcome =>
    obtain ⟨more, hmore, hretry⟩ := Run.complete_schedules hs.run c.registry n c.cancelled outcome
      c.now
    exact hretry runId id attempt delay error (hsaid hmore)
  | wake | leave => exact (hsilent rfl).elim
  | stop => exact (hsilent (by rw [registry_stop])).elim

end Course

namespace Opening

variable {o : Opening}

/-- Retries are carried out as they are announced. -/
structure KeepsBackoffs (o : Opening) : Prop where
  schedules : ∀ {c c' : Course} {runId id error : String} {attempt delay : Nat}, o.Reaches c →
    c.Says (.taskRetryScheduled runId id attempt delay error) c' →
    (∃ p, c.run.session.progress? id = some p ∧
      delay = o.coordinator.retry.formula p.retriesUsed) ∧
    c'.run.session.state? id = some (.backoff (c.now + delay))
  waits : ∀ {c c' c₁ c₂ : Course} {runId runId' id error workerId : String}
    {attempt attempt' delay : Nat}, o.Reaches c →
    c.Says (.taskRetryScheduled runId id attempt delay error) c' → c'.Steps c₁ →
    c₁.Says (.taskDispatched runId' id workerId attempt') c₂ → c.now + delay ≤ c₁.now

theorem keepsBackoffs {s : RetryStrategy} (ho : o.coordinator.retry = s) (hs : s.Exact) :
    o.KeepsBackoffs := by
  have hschedules {c c' : Course} {runId id error : String} {attempt delay : Nat}
      (hc : o.Reaches c) (h : c.Says (.taskRetryScheduled runId id attempt delay error) c') :
      (∃ p, c.run.session.progress? id = some p ∧
        delay = o.coordinator.retry.formula p.retriesUsed) ∧
      c'.run.session.state? id = some (.backoff (c.now + delay)) := by
    obtain ⟨⟨p, hp, hdelay⟩, hstate⟩ := h.schedules hc.sound
    rw [hc.policy] at hdelay
    change delay = o.coordinator.retry.delay p.retriesUsed at hdelay
    subst ho
    have hle : delay ≤ Run.waitLimit := hdelay ▸ hs.bounded p.retriesUsed
    rw [Run.deadline, Nat.min_eq_left hle] at hstate
    exact ⟨⟨p, hp, hdelay.trans (hs.delay _)⟩, hstate⟩
  refine ⟨hschedules, ?_⟩
  intro c c' c₁ c₂ runId runId' id error workerId attempt attempt' delay hc hretry hsteps hsent
  obtain ⟨-, hbackoff⟩ := hschedules hc hretry
  obtain ⟨p, hp, hstate⟩ := Session.state?_eq_some.mp hbackoff
  have hc' : o.Reaches c' := hc.trans (.single (.own hretry.1))
  obtain ⟨task, ht, rfl⟩ := hc'.sound.run.books.exists_task hp
  have hholds : c₁.Holds task.id (c.now + delay) :=
    Course.Steps.holds hc'.sound ht (.inr ⟨p, hp, .inl hstate⟩) hsteps
  obtain ⟨hown, said, hj, he⟩ := hsent
  obtain ⟨task', hready, hid⟩ := hown.ready_of_dispatched hj he
  rcases hholds with hle | ⟨q, hq, hheld⟩
  · exact hle
  · by_contra hlt
    rw [← hid] at hq
    exact Course.not_ready_of_held hq hheld (Nat.lt_of_not_le hlt) hready

/-- With the delays of a checked configuration waits are given by their formulas, whichever strategy
it names, and every run keeps them. -/
theorem retries_exact {config : Config} (h : config.check = .ok ()) :
    (∀ s ∈ config.retry.strategies, s.Exact) ∧
    (∀ s, RetryStrategy.ofConfig config.retry = .ok s → s ∈ config.retry.strategies) ∧
    ∀ o : Opening, o.coordinator.retry ∈ config.retry.strategies → o.KeepsBackoffs :=
  ⟨fun _ => RetryStrategy.exact_of_check h, fun _ => RetryStrategy.mem_strategies_of_ofConfig,
    fun _ hs => keepsBackoffs rfl (RetryStrategy.exact_of_check h hs)⟩

def soloWaiting : Course := { soloStart.pass with now := 10 }

def soloFailed : Course := soloWaiting.complete 1 (.failure "lost")

theorem soloWaiting_says :
    soloWaiting.Says (.taskRetryScheduled "solo" "only" 2 100 "lost") soloFailed := by
  have hown : soloWaiting.Own soloFailed :=
    .complete (by decide +kernel) 1 (.failure "lost")
  have hj : soloFailed.registry.journal = soloWaiting.registry.journal ++
      [.circuitOpened "runner" 1, .taskRetryScheduled "solo" "only" 2 100 "lost"] := by
    decide +kernel
  exact ⟨hown, _, hj, by simp⟩

theorem solo_retries : solo.coordinator.config.check = .ok () ∧
    soloFailed.run.session.state? "only" = some (.backoff 110) := by
  have hcheck : solo.coordinator.config.check = .ok () := by decide +kernel
  have hkeeps := (retries_exact hcheck).2.2 solo (by decide +kernel)
  have hsent : soloStart.Step soloStart.pass := .own (.pass rfl rfl)
  have hreaches : solo.Reaches soloWaiting :=
    ⟨soloStart, course_solo, .tail (.single hsent) (.advances (by decide +kernel))⟩
  exact ⟨hcheck, (hkeeps.schedules hreaches soloWaiting_says).2⟩

end Opening

end Crew
