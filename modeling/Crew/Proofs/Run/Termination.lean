import Crew.Proofs.Rehearsal.Ends

/-!
# Runs end

A run that has its registry to itself ends, whatever its workers make of their calls, and it does
not send out a task more often than its retries and its redundancy allow (`Opening.terminates`). As
long as no worker leaves, attempts are not taken back, and every attempt is announced with no more
calls than the task asks for (`Run.Metered`).
-/

namespace Crew

namespace Progress

variable {s : Session} {task : Task} {p p' : Progress} {n n' : Nat} {result : TaskResult}

theorem Round.attempts_le (h : p.Round s task n p' n') : p.attempts ≤ p'.attempts := by
  cases h with
  | send => exact Nat.le_succ _
  | withdraw => simp [Progress.begin, Progress.abort]
  | _ => exact Nat.le_refl _

theorem Return.attempts (h : p.Return task (some result) n p' n') : p'.attempts = p.attempts := by
  cases h with
  | hear => rfl
  | requeue _ _ hb => simp [Progress.account] at hb
  | close _ _ _ he => cases he <;> rfl

theorem Return.attempts_le {result : Option TaskResult} (h : p.Return task result n p' n') :
    p'.attempts ≤ p.attempts := by
  cases h with
  | hear => exact Nat.le_refl _
  | requeue => exact Nat.sub_le _ _
  | close _ _ _ he => cases he <;> exact Nat.le_refl _

theorem countP_isSent_news (h : p'.attempts ≤ p.attempts) :
    (p.news p').countP (·.isSent) = 0 := by
  rw [news, if_neg (Nat.not_lt.mpr h)]
  split
  · rfl
  · split <;> rfl

theorem kept_tried :
    Session.Kept fun _ task p => p.Budgeted task ∧ p.attempts ≤ task.maxRetries + 1 where
  mono _ h := h
  round h hr := by
    obtain ⟨hb, hle⟩ := h
    refine ⟨hb.round hr, ?_⟩
    have hretries := hb.retries
    cases hr with
    | send _ hp =>
      have hspent := hb.waiting (.inl hp)
      change _ + 1 ≤ _
      omega
    | withdraw => simpa [Progress.begin, Progress.abort] using hle
    | _ => exact hle
  back h hr := by
    obtain ⟨hb, hle⟩ := h
    refine ⟨hb.back hr, ?_⟩
    cases hr with
    | hear => exact hle
    | requeue => exact Nat.le_trans (Nat.sub_le _ _) hle
    | close _ _ _ he => cases he <;> exact hle
  cancel hc h := by
    obtain ⟨hb, hle⟩ := h
    refine ⟨kept_budgeted.cancel hc hb, ?_⟩
    unfold Progress.cancel
    split <;> exact hle

end Progress

namespace Run

variable {run run' : Run} {log said : List Event}

/-- Of every attempt at a task no more calls were announced than the task asks for. -/
def Metered (run : Run) (log : List Event) : Prop :=
  ∀ task ∈ run.session.graph.tasks, ∀ p, run.session.progress? task.id = some p →
    (wordsOf log task.id).countP (·.isSent) ≤ run.policy.redundancyFor task * p.attempts

def Within (run : Run) (log : List Event) : Prop :=
  ∀ task ∈ run.session.graph.tasks,
    (wordsOf log task.id).countP (·.isSent) ≤
      run.policy.redundancyFor task * (task.maxRetries + 1)

theorem Deed.metered (hs : run.Sound) (h : run.Metered log) (hd : Deed run said run') :
    run'.Metered (log ++ said) := by
  intro task ht p' hp'
  rw [hd.round.graph] at ht
  obtain ⟨p, hp, -⟩ := hs.books.progress ht
  obtain ⟨q, hq, hround⟩ := hd.round.progress hs.books.distinct ht hp
  obtain rfl : q = p' := Option.some.inj (hq.symm.trans hp')
  have hbefore := h task ht p hp
  have hle := Nat.mul_le_mul_left (run.policy.redundancyFor task) hround.attempts_le
  rw [hd.round.policy, wordsOf_append, List.countP_append]
  rcases Nat.lt_or_ge p.attempts q.attempts with hlt | hge
  · -- a new attempt, which makes room for the calls that are announced of it
    have hroom := Nat.mul_le_mul_left (run.policy.redundancyFor task) (Nat.succ_le_of_lt hlt)
    have hfair := hd.fair task ht
    rw [Nat.mul_succ] at hroom
    omega
  · rw [hd.announces.words, Session.news_of_progress? hp hp', Progress.countP_isSent_news hge]
    omega

theorem Deeds.metered (hs : run.Sound) (h : run.Metered log) (hd : Deeds run said run') :
    run'.Metered (log ++ said) := by
  induction hd with
  | start =>
    rw [List.append_nil]
    exact h
  | step hd hdeed ih =>
    rw [← List.append_assoc]
    exact hdeed.metered (hs.rounds hd.rounds) ih

end Run

theorem Opening.Reaches.attempts_le {o : Opening} {c : Course} {task : Task} {p : Progress}
    (h : o.Reaches c) (ht : task ∈ c.run.session.graph.tasks)
    (hp : c.run.session.progress? task.id = some p) : p.attempts ≤ task.maxRetries + 1 :=
  (h.all Progress.kept_tried
    (fun _ _ => ⟨⟨Nat.zero_le _, by simp, by simp, by simp⟩, Nat.zero_le _⟩) task ht p hp).2

theorem Opening.Reaches.within {o : Opening} {c : Course} {log : List Event} (h : o.Reaches c)
    (hm : c.run.Metered log) : c.run.Within log := by
  intro task ht
  obtain ⟨p, hp, -⟩ := h.sound.run.books.progress ht
  exact Nat.le_trans (hm task ht p hp) (Nat.mul_le_mul_left _ (h.attempts_le ht hp))

namespace Watch

variable {o : Opening} {w w' : Watch} {log : List Event}

/-- Once the run is cancelled an attempt may be taken back whose calls were announced, but then none
is announced any more. -/
structure Metered (w : Watch) (log : List Event) : Prop where
  within : w.course.run.Within log
  attempts : w.course.cancelled = false → w.course.run.Metered log

theorem countP_isSent_complete {task : Task} {said : List Event} (h : InOrder o w) (n : Nat)
    (outcome : Outcome) (log : List Event)
    (ha : w.course.run.session.Announces said (w.course.complete n outcome).run.session)
    (ht : task ∈ w.course.run.session.graph.tasks) :
    (wordsOf (log ++ said) task.id).countP (·.isSent) =
      (wordsOf log task.id).countP (·.isSent) := by
  obtain ⟨p, hp, -⟩ := h.reaches.sound.run.books.progress ht
  obtain ⟨p', hp', hle⟩ : ∃ p', (w.course.complete n outcome).run.session.progress? task.id =
      some p' ∧ p'.attempts ≤ p.attempts := by
    rcases Course.complete_progress h.reaches.sound n outcome ht hp with
      hsame | ⟨_, -, -, -, p', hp', hreturn⟩
    · exact ⟨p, hsame, Nat.le_refl _⟩
    · exact ⟨p', hp', hreturn.attempts_le⟩
  rw [wordsOf_append, List.countP_append, ha.words, Session.news_of_progress? hp hp',
    Progress.countP_isSent_news hle, Nat.add_zero]

theorem metered_complete (h : InOrder o w) (hm : w.Metered log) (n : Nat) (outcome : Outcome)
    {said : List Event}
    (ha : w.course.run.session.Announces said (w.course.complete n outcome).run.session) :
    Metered { w with course := w.course.complete n outcome } (log ++ said) := by
  have hgraph := (Course.complete_follows h.reaches.sound n outcome).graph
  refine ⟨fun task ht => ?_, fun hc task ht p' hp' => ?_⟩
  · rw [hgraph] at ht
    rw [w.course.policy_complete, countP_isSent_complete h n outcome log ha ht]
    exact hm.within task ht
  · rw [hgraph] at ht
    obtain ⟨p, hp, -⟩ := h.reaches.sound.run.books.progress ht
    have hattempts : p'.attempts = p.attempts := by
      obtain ⟨q, hq, hcase⟩ := h.progress_complete hc n outcome ht hp
      obtain rfl : q = p' := Option.some.inj (hq.symm.trans hp')
      rcases hcase with rfl | ⟨result, k, k', hreturn⟩
      · rfl
      · exact hreturn.attempts
    rw [w.course.policy_complete, countP_isSent_complete h n outcome log ha ht, hattempts]
    exact hm.attempts hc task ht p hp

theorem Step.metered (h : InOrder o w) (hs : w.Step w') (hm : w.Metered log) :
    ∃ said, w'.course.registry.journal = w.course.registry.journal ++ said ∧
      w'.Metered (log ++ said) := by
  have hsound := h.reaches.sound.run
  have hquiet (hm : w'.Metered log) : w'.Metered (log ++ []) := by
    rwa [List.append_nil]
  have h' := h.step hs
  cases hs with
  | passes _ hc =>
    obtain ⟨said, hj, hd⟩ :=
      Run.pass_tells w.course.run w.course.registry w.course.now hsound.books.distinct
    have hpassed := hd.metered hsound (hm.attempts hc)
    exact ⟨said, hj, h'.reaches.within hpassed, fun _ => hpassed⟩
  | ends _ _ outcome =>
    obtain ⟨said, hj, ha⟩ := Run.complete_announces hsound w.course.registry _ w.course.cancelled
      outcome w.course.now
    exact ⟨said, hj, metered_complete h hm _ outcome ha⟩
  | wakes | leaves | jumps =>
    exact ⟨[], (List.append_nil _).symm, hquiet ⟨hm.within, hm.attempts⟩⟩
  | cancels => exact ⟨[], (List.append_nil _).symm, hquiet ⟨hm.within, nofun⟩⟩
  | stops _ hc =>
    refine ⟨[], ?_, hquiet ⟨fun task ht => ?_, fun hn => ?_⟩⟩
    · rw [Course.registry_stop, List.append_nil]
    · rw [w.course.policy_stop]
      rw [Course.session_stop] at ht
      exact hm.within task ht
    · cases hc.symm.trans hn

/-- What is announced on the way stays within the bounds of attempts and redundancy. -/
theorem Steps.metered (h : InOrder o w) (hs : w.Steps w') (hm : w.Metered log) :
    InOrder o w' ∧ ∃ said, w'.course.registry.journal = w.course.registry.journal ++ said ∧
      w'.Metered (log ++ said) := by
  induction hs with
  | refl =>
    refine ⟨h, [], (List.append_nil _).symm, ?_⟩
    rwa [List.append_nil]
  | tail _ hstep ih =>
    obtain ⟨h', said, hj, hm'⟩ := ih
    obtain ⟨more, hj', hm''⟩ := hstep.metered h' hm'
    refine ⟨h'.step hstep, said ++ more, ?_, ?_⟩
    · rw [hj', hj, List.append_assoc]
    · rw [← List.append_assoc]
      exact hm''

end Watch

namespace Opening

variable {o : Opening} {c : Course} {w : Watch}

theorem Reaches.mem_tasks {task : Task} (h : o.Reaches c) (ht : task ∈ o.tasks) :
    { task with dependencies := task.dependencies.eraseDups } ∈ c.run.session.graph.tasks := by
  rw [(TaskGraph.build_eq_ok h.graph).2]
  exact List.mem_map_of_mem ht

theorem countP_dispatched (log : List Event) (id : String) :
    (log.countP fun e => e.kind = "task_dispatched" && e.taskId? = some id) =
      (wordsOf log id).countP (·.isSent) := by
  rw [← countP_speaks]
  refine List.countP_congr fun e _ => ?_
  cases e with
  | taskDispatched runId taskId workerId attempt =>
    by_cases he : taskId = id <;> simp [Event.kind, Event.taskId?, Event.speaks, Event.word?, he,
      Word.isSent]
  | taskRetryScheduled runId taskId | taskResolved runId taskId =>
    by_cases he : taskId = id <;> simp [Event.kind, Event.speaks, Event.word?, he, Word.isSent]
  | _ => simp [Event.kind, Event.speaks, Event.word?]

/-- A run ends that has its registry to itself, so that only the run changes it: no step of a watch
lets workers come or go, and no load stands at the start, as that would be the lease of somebody
else, who may give it back or keep it. However its calls end, at the latest by their deadlines, and
whenever it is cancelled if it is, after finitely many steps nothing is left to do. So whatever its
players do, its rehearsal ends. And no task is sent out more often than its redundancy allows for
each of the attempts that its retries allow. -/
theorem terminates (h : o.course = .ok c) (hb : o.registry.Built)
    (hl : ∀ r ∈ o.registry.workers, r.load = 0) :
    Watch.Inevitably Watch.Over ⟨c, o.now⟩ ∧
    (∀ cast, ∃ fuel wake, let r := Rehearsal.play fuel (.undisturbed c cast)
      Watch.Steps ⟨c, o.now⟩ ⟨r.course, wake⟩ ∧ r.phase = .ended ∧ r.run.session.isFinished) ∧
    ∀ w, Watch.Steps ⟨c, o.now⟩ w → ∃ log, w.course.registry.journal = o.registry.journal ++ log ∧
      ∀ task ∈ o.tasks,
        (log.countP fun e => e.kind = "task_dispatched" && e.taskId? = some task.id) ≤
          o.coordinator.policy.redundancyFor task * (task.maxRetries + 1) := by
  have hstart : Watch.InOrder o ⟨c, o.now⟩ := Watch.inOrder_start h (hb.loaded hl) o.now
  have hends : Watch.Inevitably Watch.Over ⟨c, o.now⟩ := hstart.inevitable hb
  refine ⟨hends, fun cast => ?_, fun w hs => ?_⟩
  · obtain ⟨hphase, hnow⟩ : c.phase = .pass ∧ c.now = o.now := by
      obtain ⟨graph, registry, count, -, -, -, -, rfl⟩ := course_eq_ok.mp h
      exact ⟨rfl, rfl⟩
    have hwatch : (Rehearsal.undisturbed c cast).watch = ⟨c, o.now⟩ := by
      rw [← hnow]
      rfl
    have hkept := Rehearsal.kept_undisturbed hphase cast
    exact hwatch ▸ hkept.ends (hwatch ▸ hstart) (hwatch ▸ hends)
  · obtain ⟨slots, hj⟩ := journal_course h
    have hnone : Watch.Metered ⟨c, o.now⟩ [.runStarted o.runId o.tasks.length slots] :=
      ⟨fun _ _ => Nat.zero_le _, fun _ _ _ _ _ => Nat.zero_le _⟩
    obtain ⟨hw, said, hj', hm⟩ := Watch.Steps.metered hstart hs hnone
    refine ⟨.runStarted o.runId o.tasks.length slots :: said, ?_, fun task ht => ?_⟩
    · rw [hj', hj, List.append_assoc]
      rfl
    · have ht' := hw.reaches.mem_tasks ht
      have hwithin := hm.within _ ht'
      rw [hw.reaches.policy] at hwithin
      rw [countP_dispatched]
      exact hwithin

/-- Whatever the only worker of the relay does, the relay ends. -/
theorem relay_terminates : relay.course = .ok relayStart ∧ relay.registry.Built ∧
    (∀ r ∈ relay.registry.workers, r.load = 0) ∧
    Watch.Inevitably Watch.Over ⟨relayStart, 0⟩ ∧
    ∀ cast, ∃ fuel, (Rehearsal.play fuel (.undisturbed relayStart cast)).phase = .ended := by
  have hb : relay.registry.Built :=
    ⟨.ofLimits 3 30000, .single (.registers ⟨"runner", ["run"], 1.0⟩ 0)⟩
  have hl : ∀ r ∈ relay.registry.workers, r.load = 0 := List.forall_mem_singleton.mpr rfl
  obtain ⟨hends, hrehearsed, -⟩ := terminates course_relay hb hl
  refine ⟨course_relay, hb, hl, hends, fun cast => ?_⟩
  obtain ⟨fuel, _, -, hended, -⟩ := hrehearsed cast
  exact ⟨fuel, hended⟩

end Opening

end Crew
