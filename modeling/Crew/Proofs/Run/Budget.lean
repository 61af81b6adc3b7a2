import Crew.Proofs.Run.Dependencies

/-!
# Attempts and retries

What a task has spent follows from its state (`Progress.Budgeted`): every attempt but the current
one cost a retry, and no task has more retries than it is allowed. An attempt that lost all its
workers costs nothing, however often that happens (`attempts_within_budget`).
-/

namespace Crew

namespace Progress

variable {s : Session} {task : Task} {p p' : Progress} {n n' : Nat} {result : Option TaskResult}

structure Budgeted (task : Task) (p : Progress) : Prop where
  retries : p.retriesUsed ≤ task.maxRetries
  waiting : p.state = .pending ∨ (∃ expiry, p.state = .backoff expiry) →
    p.attempts = p.retriesUsed
  tried : p.state = .running ∨ p.state = .succeeded → p.attempts = p.retriesUsed + 1
  failed : p.state = .permanentlyFailed → p.attempts = p.retriesUsed ∨
    p.retriesUsed = task.maxRetries ∧ p.attempts = task.maxRetries + 1

/-- No results are kept between two attempts. -/
def Cleared (p : Progress) : Prop :=
  p.state = .pending ∨ (∃ expiry, p.state = .backoff expiry) → p.batch = []

theorem Budgeted.round (h : p.Budgeted task) (hr : p.Round s task n p' n') : p'.Budgeted task := by
  cases hr with
  | same => exact h
  | skip => exact ⟨h.retries, by simp [Progress.skip], by simp [Progress.skip],
      by simp [Progress.skip]⟩
  | release hp => exact ⟨h.retries, fun _ => h.waiting (.inr ⟨_, hp⟩), by simp, by simp⟩
  | wait since hp => exact ⟨h.retries, fun _ => h.waiting (.inl hp), by simp [hp], by simp [hp]⟩
  | giveUp waited hp =>
    exact ⟨h.retries, by simp [Progress.fail], by simp [Progress.fail],
      fun _ => .inl (h.waiting (.inl hp))⟩
  | send hk hp =>
    refine ⟨h.retries, by simp [Progress.begin], fun _ => ?_, by simp [Progress.begin]⟩
    exact congrArg (· + 1) (h.waiting (.inl hp))
  | withdraw hp =>
    have hb : p.begin.abort = { p.begin with state := .pending, attempts := p.attempts } := by
      simp [Progress.begin, Progress.abort]
    rw [hb]
    exact ⟨h.retries, fun _ => h.waiting (.inl hp), by simp, by simp⟩

theorem Budgeted.back (h : p.Budgeted task) (hr : p.Return task result n p' n') :
    p'.Budgeted task := by
  have hp := hr.running
  have htried := h.tried (.inl hp)
  cases hr with
  | hear =>
    exact ⟨h.retries, by simp [Progress.account, hp], fun _ => htried,
      by simp [Progress.account, hp]⟩
  | requeue =>
    refine ⟨h.retries, fun _ => ?_, by simp [Progress.requeue], by simp [Progress.requeue]⟩
    change p.attempts - 1 = p.retriesUsed
    omega
  | close _ _ _ he =>
    cases he with
    | succeed hc =>
      exact ⟨h.retries, by simp [Progress.succeed], fun _ => htried, by simp [Progress.succeed]⟩
    | backOff hr expiry worker error =>
      exact ⟨hr, fun _ => htried, by simp [Progress.backOff], by simp [Progress.backOff]⟩
    | exhaust hr error =>
      have hu : p.retriesUsed = task.maxRetries := Nat.le_antisymm h.retries hr
      exact ⟨h.retries, by simp [Progress.fail], by simp [Progress.fail],
        fun _ => .inr ⟨hu, hu ▸ htried⟩⟩

theorem kept_budgeted : Session.Kept fun _ task p => p.Budgeted task where
  mono _ h := h
  round h hr := h.round hr
  back h hr := h.back hr
  cancel _ h := by
    unfold Progress.cancel
    split
    · exact h
    · exact ⟨h.retries, by simp, by simp, by simp⟩

theorem kept_cleared : Session.Kept fun _ _ p => p.Cleared where
  mono _ h := h
  round h hr := by
    cases hr with
    | same => exact h
    | skip => simp [Cleared, Progress.skip]
    | release hp => exact fun _ => h (.inr ⟨_, hp⟩)
    | wait since hp => exact fun _ => h (.inl hp)
    | giveUp => simp [Cleared, Progress.fail]
    | send => simp [Cleared, Progress.begin]
    | withdraw => simp [Cleared, Progress.begin, Progress.abort]
  back h hr := by
    cases hr with
    | hear hp => simp [Cleared, Progress.account, hp]
    | requeue _ _ hb => exact fun _ => hb
    | close _ _ _ he => cases he <;> exact fun _ => rfl
  cancel _ h := by
    unfold Progress.cancel
    split
    · exact h
    · simp [Cleared]

/-- If the task has failed, then for want of a worker, and each of its attempts cost a retry. -/
def GivenUp (task : Task) (p : Progress) : Prop :=
  p.state = .permanentlyFailed → p.attempts = p.retriesUsed ∧
    ∃ waited, p.error = some (UnavailableError.mk task.capability waited).message

theorem GivenUp.round (h : p.GivenUp task) (hb : p.Budgeted task)
    (hr : p.Round s task n p' n') : p'.GivenUp task := by
  intro hf
  cases hr with
  | same => exact h hf
  | giveUp waited hp => exact ⟨hb.waiting (.inl hp), waited, rfl⟩
  | wait since hp => cases hp.symm.trans hf
  | withdraw => simp [Progress.begin, Progress.abort] at hf
  | _ => cases hf

theorem Round.retriesUsed (h : p.Round s task n p' n') :
    p'.retriesUsed = p.retriesUsed ∧ (p.batch = [] → p'.batch = []) := by
  cases h with
  | send => exact ⟨rfl, fun _ => rfl⟩
  | withdraw => simp [Progress.begin, Progress.abort]
  | _ => exact ⟨rfl, id⟩

/-- Without a result an attempt can only go on or be taken back. -/
theorem Return.retriesUsed_of_none (h : p.Return task none n p' n') (hb : p.batch = []) :
    p'.retriesUsed = p.retriesUsed ∧ p'.batch = [] := by
  have hnone : (p.account none).batch = [] := (List.append_nil _).trans hb
  cases h with
  | hear => exact ⟨rfl, hnone⟩
  | requeue => exact ⟨rfl, hnone⟩
  | close _ _ hne => exact absurd hnone hne

theorem Return.exhausted (h : p.Return task result n p' n') (hb : p.Budgeted task)
    (hf : p'.state = .permanentlyFailed) :
    p'.retriesUsed = task.maxRetries ∧ p'.attempts = task.maxRetries + 1 := by
  have hp := h.running
  have htried := hb.tried (.inl hp)
  cases h with
  | hear => cases hp.symm.trans hf
  | requeue => cases hf
  | close _ _ _ he =>
    cases he with
    | exhaust hr error =>
      have hu : p.retriesUsed = task.maxRetries := Nat.le_antisymm hb.retries hr
      exact ⟨hu, hu ▸ htried⟩
    | _ => cases hf

end Progress

-- ---------------------------------------------------------------------------
-- How tasks fail
-- ---------------------------------------------------------------------------

namespace Course

variable {c c' : Course} {task : Task} {p : Progress}

/-- A task that fails in a pass has found no worker, and its attempts do not count. -/
theorem pass_gives_up (hs : c.Sound) (ht : task ∈ c.run.session.graph.tasks)
    (hp : c.run.session.progress? task.id = some p) (hb : p.Budgeted task)
    (hf : p.state ≠ .permanentlyFailed) :
    ∃ p', c.pass.run.session.progress? task.id = some p' ∧ p'.GivenUp task := by
  obtain ⟨p', hp', -, h⟩ := Run.Rounds.progress hs.run (pass_rounds hs) ht hp
    (R := fun q => q.Budgeted task ∧ q.GivenUp task) ⟨hb, fun h => absurd h hf⟩
    fun hq hr => ⟨hq.1.round hr, hq.2.round hq.1 hr⟩
  exact ⟨p', hp', h⟩

theorem complete_exhausts (hs : c.Sound) (ht : task ∈ c.run.session.graph.tasks)
    (hp : c.run.session.progress? task.id = some p) (hb : p.Budgeted task)
    (hf : p.state ≠ .permanentlyFailed) (n : Nat) (outcome : Outcome) :
    ∃ p', (c.complete n outcome).run.session.progress? task.id = some p' ∧
      (p'.state = .permanentlyFailed →
        p'.retriesUsed = task.maxRetries ∧ p'.attempts = task.maxRetries + 1) := by
  rcases complete_progress hs n outcome ht hp with h | ⟨call, -, -, -, p', hp', hr⟩
  · exact ⟨p, h, fun hstate => absurd hstate hf⟩
  · exact ⟨p', hp', hr.exhausted hb⟩

theorem Step.fails {id : String} (h : c.Step c')
    (hf : c.run.session.state? id ≠ some .permanentlyFailed)
    (hf' : c'.run.session.state? id = some .permanentlyFailed) :
    c' = c.pass ∨ ∃ n outcome, c' = c.complete n outcome := by
  cases h with
  | own h =>
    cases h with
    | pass => exact .inl rfl
    | complete _ n outcome => exact .inr ⟨n, outcome, rfl⟩
    | wake | leave => exact absurd hf' hf
    | stop =>
      rw [session_stop] at hf'
      obtain ⟨q, hq, hstate⟩ := Session.state?_eq_some.mp hf'
      rw [Session.progress?_cancel] at hq
      obtain ⟨p, hp, rfl⟩ := Option.map_eq_some_iff.mp hq
      unfold Progress.cancel at hstate
      split at hstate
      · exact absurd (Session.state?_eq_some.mpr ⟨p, hp, hstate⟩) hf
      · cases hstate
  | _ => exact absurd hf' hf

-- ---------------------------------------------------------------------------
-- Attempts of which nothing came back
-- ---------------------------------------------------------------------------

/-- The number of results that came back for a task. -/
def heard (c : Course) (id : String) : Nat := c.run.session.results.countP (·.taskId = id)

theorem heard_complete (hs : c.Sound) (n : Nat) (outcome : Outcome) (id : String) :
    c.heard id ≤ (c.complete n outcome).heard id := by
  unfold heard
  rcases c.complete_cases n outcome with h | ⟨call, hc, rfl, h⟩
  · exact Nat.le_of_eq (by rw [h])
  · rw [h.heard hs.run.books (hs.run.mem_inFlight hc), List.countP_append]
    exact Nat.le_add_right _ _

theorem taskId_of_yield {call : Call} {cancelled : Bool} {reg : Registry} {outcome : Outcome}
    {now : Nat} {r : TaskResult} (h : call.yield cancelled reg outcome now = some r) :
    r.taskId = call.assignment.taskId :=
  congrArg TaskResult.taskId (Call.eq_of_yield h)

theorem Step.unheard (hs : c.Sound) (h : c.Step c') (ht : task ∈ c.run.session.graph.tasks)
    (hp : c.run.session.progress? task.id = some p) :
    c.heard task.id ≤ c'.heard task.id ∧ ∃ p', c'.run.session.progress? task.id = some p' ∧
      (c'.heard task.id = c.heard task.id → p.batch = [] →
        p'.retriesUsed = p.retriesUsed ∧ p'.batch = []) := by
  cases h with
  | own h =>
    cases h with
    | pass =>
      have hr := pass_rounds hs
      have hheard : c.pass.heard task.id = c.heard task.id :=
        congrArg (List.countP _) (Run.Rounds.results hr)
      obtain ⟨p', hp', hu, hb⟩ := Run.Rounds.progress hs.run hr ht hp
        (R := fun q => q.retriesUsed = p.retriesUsed ∧ (p.batch = [] → q.batch = []))
        ⟨rfl, id⟩ fun h hr => ⟨hr.retriesUsed.1.trans h.1, fun he => hr.retriesUsed.2 (h.2 he)⟩
      exact ⟨Nat.le_of_eq hheard.symm, p', hp', fun _ he => ⟨hu, hb he⟩⟩
    | complete hphase n outcome =>
      refine ⟨heard_complete hs n outcome task.id, ?_⟩
      rcases complete_progress hs n outcome ht hp with h | ⟨call, -, hid, hresults, p', hp', hr⟩
      · exact ⟨p, h, fun _ he => ⟨rfl, he⟩⟩
      · refine ⟨p', hp', fun hheard he => ?_⟩
        cases hy : call.yield c.cancelled c.registry outcome c.now with
        | none =>
          rw [hy] at hr
          exact hr.retriesUsed_of_none he
        | some r =>
          -- a result of the task would have been heard
          rw [heard, hresults, hy, List.countP_append] at hheard
          simp [heard, (taskId_of_yield hy).trans hid] at hheard
    | wake | leave => exact ⟨Nat.le_refl _, p, hp, fun _ he => ⟨rfl, he⟩⟩
    | stop =>
      have hheard : c.stop.heard task.id = c.heard task.id := by
        rw [heard, session_stop]
        rfl
      refine ⟨Nat.le_of_eq hheard.symm, p.cancel, ?_, fun _ he => ?_⟩
      · rw [session_stop, Session.progress?_cancel, hp]
        rfl
      · unfold Progress.cancel
        split
        · exact ⟨rfl, he⟩
        · exact ⟨rfl, he⟩
  | _ => exact ⟨Nat.le_refl _, p, hp, fun _ he => ⟨rfl, he⟩⟩

theorem Steps.unheard (hs : c.Sound) (h : c.Steps c') (ht : task ∈ c.run.session.graph.tasks)
    (hp : c.run.session.progress? task.id = some p) (hb : p.batch = []) :
    c.heard task.id ≤ c'.heard task.id ∧ ∃ p', c'.run.session.progress? task.id = some p' ∧
      (c'.heard task.id = c.heard task.id → p'.retriesUsed = p.retriesUsed ∧ p'.batch = []) := by
  induction h with
  | refl => exact ⟨Nat.le_refl _, p, hp, fun _ => ⟨rfl, hb⟩⟩
  | @tail d d' h hr ih =>
    obtain ⟨hle, q, hq, hunheard⟩ := ih
    have hd := Steps.sound hs h
    have ht' : task ∈ d.run.session.graph.tasks := by
      rw [(Steps.follows hs h).graph]
      exact ht
    obtain ⟨hle', q', hq', hunheard'⟩ := hr.unheard hd ht' hq
    refine ⟨Nat.le_trans hle hle', q', hq', fun he => ?_⟩
    obtain ⟨hu, hbatch⟩ := hunheard (by omega)
    obtain ⟨hu', hbatch'⟩ := hunheard' (by omega) hbatch
    exact ⟨hu'.trans hu, hbatch'⟩

theorem results_of_isRevoked (hs : c.Sound) {call : Call} (hc : call ∈ c.run.calls)
    (hr : c.registry.isRevoked call.lease) (outcome : Outcome) :
    (c.complete call.assignment.id outcome).run.session.results = c.run.session.results := by
  rcases c.complete_cases call.assignment.id outcome with h | ⟨other, ho, hid, h⟩
  · rw [h]
  · obtain rfl := List.inj_on_of_nodup_map hs.run.nodup_calls ho hc hid
    have hy : other.yield c.cancelled c.registry outcome c.now = none := by
      rw [Call.yield, hr, Bool.or_true, if_pos rfl]
    rw [hy] at h
    rw [h.heard hs.run.books (hs.run.mem_inFlight hc)]
    exact List.append_nil _

end Course

-- ---------------------------------------------------------------------------
-- Whole runs
-- ---------------------------------------------------------------------------

namespace Opening

variable {o : Opening} {c c₁ : Course} {task : Task} {p : Progress}

theorem Reaches.budgeted (hc : o.Reaches c) (ht : task ∈ c.run.session.graph.tasks)
    (hp : c.run.session.progress? task.id = some p) : p.Budgeted task :=
  hc.all Progress.kept_budgeted (fun _ _ => ⟨Nat.zero_le _, by simp, by simp, by simp⟩) task ht p hp

theorem Reaches.cleared (hc : o.Reaches c) (ht : task ∈ c.run.session.graph.tasks)
    (hp : c.run.session.progress? task.id = some p) : p.Cleared :=
  hc.all Progress.kept_cleared (fun _ _ _ => rfl) task ht p hp

/-- A task skipped for one of its dependencies was never tried. -/
theorem Reaches.untouched (hc : o.Reaches c) (ht : task ∈ c.run.session.graph.tasks)
    (hp : c.run.session.progress? task.id = some p) {dep : String}
    (hr : p.skipReason = some (.dependencyFailed dep)) : p.Untouched := by
  obtain ⟨hd, hf⟩ := (hc.blamed ht hp).dependency hr
  rcases hc.enabled ht hp with h | h
  · exact h
  · exact absurd hf (h.not_hasFailed hd)

theorem Reaches.fails (hc : o.Reaches c) (ht : task ∈ c.run.session.graph.tasks)
    (hf : c.run.session.state? task.id ≠ some .permanentlyFailed) (h : c.Step c₁)
    (hf₁ : c₁.run.session.state? task.id = some .permanentlyFailed) :
    ∃ p, c₁.run.session.progress? task.id = some p ∧ p.state = .permanentlyFailed ∧
      (c₁ = c.pass ∧ p.attempts = p.retriesUsed ∧
          (∃ waited, p.error = some (UnavailableError.mk task.capability waited).message) ∨
        (∃ n outcome, c₁ = c.complete n outcome) ∧
          p.retriesUsed = task.maxRetries ∧ p.attempts = task.maxRetries + 1) := by
  obtain ⟨p₁, hp₁, hs₁⟩ := Session.state?_eq_some.mp hf₁
  obtain ⟨p, hp, -⟩ := hc.sound.run.books.progress ht
  have hs : p.state ≠ .permanentlyFailed := by
    rwa [Session.state?_of_progress? hp, ne_eq, Option.some.injEq] at hf
  refine ⟨p₁, hp₁, hs₁, ?_⟩
  rcases h.fails hf hf₁ with rfl | ⟨n, outcome, rfl⟩
  · obtain ⟨q, hq, hgiven⟩ := Course.pass_gives_up hc.sound ht hp (hc.budgeted ht hp) hs
    obtain rfl : q = p₁ := Option.some.inj (hq.symm.trans hp₁)
    exact .inl ⟨rfl, hgiven hs₁⟩
  · obtain ⟨q, hq, hexhausted⟩ :=
      Course.complete_exhausts hc.sound ht hp (hc.budgeted ht hp) hs n outcome
    obtain rfl : q = p₁ := Option.some.inj (hq.symm.trans hp₁)
    exact .inr ⟨⟨n, outcome, rfl⟩, hexhausted hs₁⟩

/-- Wherever a run has come to, what each task has spent follows from its state. A task that fails
in a pass has waited too long for a worker and has nothing spent that was not made up for; one that
fails at the end of a call has spent all it may; and so it stays. A call whose worker has left
brings nothing, and while nothing is brought for a task that was pending, neither attempts nor
retries of it are used up. -/
theorem attempts_within_budget (hc : o.Reaches c) :
    (∀ task ∈ c.run.session.graph.tasks, ∃ p, c.run.session.progress? task.id = some p ∧
      p.retriesUsed ≤ task.maxRetries ∧
      (p.state = .pending ∨ (∃ expiry, p.state = .backoff expiry) →
        p.attempts = p.retriesUsed) ∧
      (p.state = .running ∨ p.state = .succeeded → p.attempts = p.retriesUsed + 1) ∧
      (p.state = .permanentlyFailed → p.attempts = p.retriesUsed ∨
        p.retriesUsed = task.maxRetries ∧ p.attempts = task.maxRetries + 1) ∧
      ∀ dep, p.skipReason = some (.dependencyFailed dep) → p.attempts = 0 ∧ p.retriesUsed = 0) ∧
    (∀ task ∈ c.run.session.graph.tasks,
      c.run.session.state? task.id ≠ some .permanentlyFailed → ∀ c₁, c.Step c₁ →
      c₁.run.session.state? task.id = some .permanentlyFailed → ∀ c', c₁.Steps c' →
      ∃ p, c'.run.session.progress? task.id = some p ∧ p.state = .permanentlyFailed ∧
        (c₁ = c.pass ∧ p.attempts = p.retriesUsed ∧
            (∃ waited, p.error = some (UnavailableError.mk task.capability waited).message) ∨
          (∃ n outcome, c₁ = c.complete n outcome) ∧
            p.retriesUsed = task.maxRetries ∧ p.attempts = task.maxRetries + 1)) ∧
    (∀ call ∈ c.run.calls, c.registry.isRevoked call.lease → ∀ outcome,
      (c.complete call.assignment.id outcome).run.session.results = c.run.session.results) ∧
    (∀ task ∈ c.run.session.graph.tasks, ∀ p, c.run.session.progress? task.id = some p →
      p.state = .pending → ∀ c', c.Steps c' → c'.heard task.id = c.heard task.id →
      ∃ p', c'.run.session.progress? task.id = some p' ∧ p'.retriesUsed = p.retriesUsed ∧
        (p'.state = .pending → p'.attempts = p.attempts)) := by
  refine ⟨?_, ?_, ?_, ?_⟩
  · intro task ht
    obtain ⟨p, hp, -⟩ := hc.sound.run.books.progress ht
    have hb := hc.budgeted ht hp
    refine ⟨p, hp, hb.retries, hb.waiting, hb.tried, hb.failed, fun dep hr => ?_⟩
    obtain ⟨ha, hu, -⟩ := hc.untouched ht hp hr
    exact ⟨ha, hu⟩
  · intro task ht hf c₁ h hf₁ c' h'
    obtain ⟨p, hp, hs, hcause⟩ := hc.fails ht hf h hf₁
    have hs₁ := h.sound hc.sound
    refine ⟨p, (Course.Steps.follows hs₁ h').ended hp ?_, hs, hcause⟩
    rw [hs]
    rfl
  · intro call hm hr outcome
    exact Course.results_of_isRevoked hc.sound hm hr outcome
  · intro task ht p hp hs c' h hheard
    obtain ⟨-, p', hp', hunheard⟩ :=
      Course.Steps.unheard hc.sound h ht hp (hc.cleared ht hp (.inl hs))
    obtain ⟨hu, -⟩ := hunheard hheard
    have ht' : task ∈ c'.run.session.graph.tasks := by
      rw [(Course.Steps.follows hc.sound h).graph]
      exact ht
    refine ⟨p', hp', hu, fun hs' => ?_⟩
    rw [((hc.trans h).budgeted ht' hp').waiting (.inl hs'), hu,
      (hc.budgeted ht hp).waiting (.inl hs)]

theorem first_attempt_of_relay :
    ∃ p, relayStart.pass.run.session.progress? "first" = some p ∧ p.state = .running ∧
      p.attempts = 1 ∧ p.retriesUsed = 0 := by
  have hreaches : relay.Reaches relayStart.pass := ⟨_, course_relay, relay_sends⟩
  obtain ⟨hb, -⟩ := attempts_within_budget hreaches
  obtain ⟨p, hp, hretries, -, htried, -⟩ :=
    hb { id := "first", capability := "run" } (by decide +kernel)
  have hrunning : relayStart.pass.run.session.state? "first" = some .running := by decide +kernel
  have hs : p.state = .running := by
    rwa [Session.state?_of_progress? hp, Option.some.injEq] at hrunning
  have hu : p.retriesUsed = 0 := Nat.le_zero.mp hretries
  refine ⟨p, hp, hs, ?_, hu⟩
  rw [htried (.inl hs), hu]

end Opening

end Crew
