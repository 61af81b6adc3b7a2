import Mathlib.Algebra.Order.BigOperators.Group.List
import Mathlib.Algebra.Order.Group.Nat
import Crew.Proofs.Run.Announcements

/-!
# What is left to do

An attempt of a task goes from pending to running and ends the task or costs a retry, after which
the task backs off and is pending again. How far a task is from its end is one number
(`Progress.effort`), which no part of a pass raises (`Round.effort`) and no result
(`Return.effort`). A task whose capability nobody serves makes one more step: it is marked as
waiting before it is given up (`Progress.weight`). What a run has left to do is the sum over its
tasks (`Session.weight`); as long as that stays the same nothing happens to any task.
-/

namespace Crew

namespace Progress

variable {s : Session} {task : Task} {p p' p'' : Progress} {n n' now : Nat} {served : Bool}
  {result : TaskResult}

/-- How far a task is from its end. -/
def effort (task : Task) (p : Progress) : Nat :=
  let left := task.maxRetries - p.retriesUsed
  match p.state with
  | .running => 3 * left + 1
  | .pending => 3 * left + 2
  | .backoff _ => 3 * left + 3
  | .succeeded | .permanentlyFailed | .skipped => 0

theorem effort_of_isTerminal (h : p.state.isTerminal) : p.effort task = 0 := by
  unfold effort
  cases hs : p.state <;> simp_all [TaskState.isTerminal]

theorem effort_pos (h : p.state.isTerminal = false) : 0 < p.effort task := by
  unfold effort
  cases hs : p.state <;> simp_all [TaskState.isTerminal]

theorem effort_congr (hs : p'.state = p.state) (hr : p'.retriesUsed = p.retriesUsed) :
    p'.effort task = p.effort task := by
  unfold effort
  rw [hs, hr]

theorem effort_lt_of_ends (h : p.state.isTerminal = false) (h' : p'.state.isTerminal) :
    p'.effort task < p.effort task := by
  rw [effort_of_isTerminal h']
  exact effort_pos h

theorem effort_lt_of_runs (h : p.state = .pending) (h' : p'.state = .running)
    (hr : p'.retriesUsed = p.retriesUsed) : p'.effort task < p.effort task := by
  simp only [effort, h, h', hr]
  omega

theorem Round.effort (h : p.Round s task n p' n') : p'.effort task < p.effort task ∨
    p'.state = p.state ∧ p'.retriesUsed = p.retriesUsed := by
  cases h with
  | same => exact .inr ⟨rfl, rfl⟩
  | skip hp => exact .inl (effort_lt_of_ends (by rw [hp]; rfl) rfl)
  | release hp =>
    refine .inl ?_
    simp only [Progress.effort, hp]
    omega
  | wait => exact .inr ⟨rfl, rfl⟩
  | giveUp waited hp => exact .inl (effort_lt_of_ends (by rw [hp]; rfl) rfl)
  | send hk hp => exact .inl (effort_lt_of_runs hp rfl rfl)
  | withdraw hp =>
    have hb : p.begin.abort = { p.begin with state := .pending, attempts := p.attempts } := by
      simp [Progress.begin, Progress.abort]
    exact .inr ⟨hb ▸ hp.symm, hb ▸ rfl⟩

/-- A result brings a task forward, or it is not the last of its attempt. -/
theorem Return.effort (h : p.Return task (some result) n p' n') : p'.effort task < p.effort task ∨
    p' = p.account (some result) := by
  have hp := h.running
  have hopen : p.state.isTerminal = false := by rw [hp]; rfl
  cases h with
  | hear => exact .inr rfl
  | requeue _ _ hb => simp [Progress.account] at hb
  | close _ _ _ he =>
    refine .inl ?_
    cases he with
    | succeed => exact effort_lt_of_ends hopen rfl
    | backOff hr =>
      simp only [Progress.account] at hr
      simp only [Progress.effort, hp, Progress.backOff, Progress.account]
      omega
    | exhaust => exact effort_lt_of_ends hopen rfl

-- ---------------------------------------------------------------------------
-- Tasks without a worker
-- ---------------------------------------------------------------------------

/-- What a pass does to the mark of a task whose capability nobody serves: unless the task ends, a
mark is kept, and one that is missing may be made. -/
inductive Lingers (now : Nat) (p : Progress) : Progress → Prop
  | same : Lingers now p p
  | ends {p' : Progress} (h : p'.state.isTerminal) : Lingers now p p'
  | keeps {p' : Progress} (hp : p.state.isTerminal = false)
      (h : p'.pendingSince = p.pendingSince) : Lingers now p p'
  | marks {p' : Progress} (hp : p.state.isTerminal = false)
      (h : p'.pendingSince = some (p.pendingSince.getD now)) : Lingers now p p'

/-- What is left to do for a task, with one step more before it is known to wait in vain. -/
def weight (served : Bool) (task : Task) (p : Progress) : Nat :=
  2 * p.effort task +
    if p.state = .pending ∧ served = false ∧ p.pendingSince = none then 1 else 0

/-- Nothing that matters has happened to a task. -/
structure Idle (served : Bool) (p p' : Progress) : Prop where
  state : p'.state = p.state
  retriesUsed : p'.retriesUsed = p.retriesUsed
  mark : served = false → p.state = .pending → p'.pendingSince = p.pendingSince

theorem Idle.trans (h : p.Idle served p') (h' : p'.Idle served p'') : p.Idle served p'' :=
  ⟨h'.state.trans h.state, h'.retriesUsed.trans h.retriesUsed,
    fun hs hp => (h'.mark hs (h.state.trans hp)).trans (h.mark hs hp)⟩

theorem Idle.refl (p : Progress) : p.Idle served p := ⟨rfl, rfl, fun _ _ => rfl⟩

theorem Idle.weight (h : p.Idle served p') : p'.weight served task = p.weight served task := by
  unfold Progress.weight
  rw [effort_congr h.state h.retriesUsed, h.state]
  congr 1
  refine if_congr (and_congr_right fun hp => and_congr_right fun hs => ?_) rfl rfl
  rw [h.mark hs hp]

theorem weight_lt_of_effort (h : p'.effort task < p.effort task) :
    p'.weight served task < p.weight served task := by
  unfold weight
  split <;> split <;> omega

theorem weight_lt_or_idle (he : p'.effort task < p.effort task ∨
      p'.state = p.state ∧ p'.retriesUsed = p.retriesUsed)
    (hl : served = false → p.Lingers now p') :
    p'.weight served task < p.weight served task ∨ p.Idle served p' := by
  rcases he with hlt | ⟨hs, hr⟩
  · exact .inl (weight_lt_of_effort hlt)
  · by_cases hmatters : served = false ∧ p.state = .pending
    · obtain ⟨hserved, hp⟩ := hmatters
      have hidle (h : p'.pendingSince = p.pendingSince) : p.Idle served p' :=
        ⟨hs, hr, fun _ _ => h⟩
      cases hl hserved with
      | same => exact .inr (hidle rfl)
      | ends ht =>
        rw [hs, hp] at ht
        cases ht
      | keeps _ hk => exact .inr (hidle hk)
      | marks _ hm =>
        cases hsince : p.pendingSince with
        | some since =>
          rw [hsince] at hm
          exact .inr (hidle (hm.trans hsince.symm))
        | none =>
          refine .inl ?_
          simp [weight, effort_congr hs hr, hs, hp, hserved, hm, hsince]
    · exact .inr ⟨hs, hr, fun hserved hp => absurd ⟨hserved, hp⟩ hmatters⟩

theorem Return.weight (h : p.Return task (some result) n p' n') :
    p'.weight served task < p.weight served task ∨ p.Idle served p' := by
  rcases h.effort with hlt | rfl
  · exact .inl (weight_lt_of_effort hlt)
  · exact .inr ⟨rfl, rfl, fun _ _ => rfl⟩

-- ---------------------------------------------------------------------------
-- When tasks are due
-- ---------------------------------------------------------------------------

/-- By then a backoff is over, and a task that nobody serves has waited for long enough. -/
structure Ripe (served : Bool) (patience bound : Nat) (p : Progress) : Prop where
  backoff : ∀ {expiry}, p.state = .backoff expiry → expiry ≤ bound
  mark : served = false → p.state = .pending → ∀ {since}, p.pendingSince = some since →
    since + patience ≤ bound

theorem Idle.ripe {patience bound : Nat} (h : p.Idle served p')
    (hr : p.Ripe served patience bound) : p'.Ripe served patience bound := by
  refine ⟨fun hs => hr.backoff (h.state.symm.trans hs), fun hserved hs since hsince => ?_⟩
  have hp := h.state.symm.trans hs
  exact hr.mark hserved hp ((h.mark hserved hp).symm.trans hsince)

theorem Ripe.mono {patience bound bound' : Nat} (h : p.Ripe served patience bound)
    (hle : bound ≤ bound') : p.Ripe served patience bound' :=
  ⟨fun hs => Nat.le_trans (h.backoff hs) hle,
    fun hserved hs _ hsince => Nat.le_trans (h.mark hserved hs hsince) hle⟩

def dueBy (patience : Nat) (p : Progress) : Nat :=
  match p.state with
  | .backoff expiry => expiry
  | _ => p.pendingSince.getD 0 + patience

theorem ripe_of_dueBy_le {patience bound : Nat} (h : p.dueBy patience ≤ bound) :
    p.Ripe served patience bound := by
  unfold dueBy at h
  refine ⟨fun hs => ?_, fun _ hs since hsince => ?_⟩
  · rw [hs] at h
    exact h
  · rw [hs, hsince] at h
    exact h

end Progress

-- ---------------------------------------------------------------------------
-- All tasks together
-- ---------------------------------------------------------------------------

namespace Session

variable {s s' s'' : Session} {served : String → Bool}

def weight (served : String → Bool) (s : Session) : Nat :=
  (s.graph.tasks.map fun task =>
    ((s.progress? task.id).map (·.weight (served task.capability) task)).getD 0).sum

def Idle (served : String → Bool) (s s' : Session) : Prop :=
  ∀ task ∈ s.graph.tasks, ∀ p, s.progress? task.id = some p →
    ∃ p', s'.progress? task.id = some p' ∧ p.Idle (served task.capability) p'

theorem Idle.refl (s : Session) : s.Idle served s := fun _ _ p hp => ⟨p, hp, .refl p⟩

theorem Idle.trans (hg : s'.graph = s.graph) (h : s.Idle served s') (h' : s'.Idle served s'') :
    s.Idle served s'' := by
  intro task ht p hp
  obtain ⟨p', hp', hidle⟩ := h task ht p hp
  obtain ⟨p'', hp'', hidle'⟩ := h' task (hg ▸ ht) p' hp'
  exact ⟨p'', hp'', hidle.trans hidle'⟩

def Ripe (served : String → Bool) (patience bound : Nat) (s : Session) : Prop :=
  ∀ task ∈ s.graph.tasks, ∀ p, s.progress? task.id = some p →
    p.Ripe (served task.capability) patience bound

theorem Idle.ripe {patience bound : Nat} (hg : s'.graph = s.graph) (h : s.Idle served s')
    (hr : s.Ripe served patience bound) (hb : s.Books) : s'.Ripe served patience bound := by
  intro task ht p' hp'
  rw [hg] at ht
  obtain ⟨p, hp, -⟩ := hb.progress ht
  obtain ⟨q, hq, hidle⟩ := h task ht p hp
  obtain rfl : q = p' := Option.some.inj (hq.symm.trans hp')
  exact hidle.ripe (hr task ht p hp)

theorem Ripe.mono {patience bound bound' : Nat} (h : s.Ripe served patience bound)
    (hle : bound ≤ bound') : s.Ripe served patience bound' :=
  fun task ht p hp => (h task ht p hp).mono hle

theorem exists_ripe (served : String → Bool) (patience : Nat) (s : Session) :
    ∃ bound, s.Ripe served patience bound := by
  let due (task : Task) : Nat := ((s.progress? task.id).map (·.dueBy patience)).getD 0
  refine ⟨(s.graph.tasks.map due).sum, fun task ht p hp => Progress.ripe_of_dueBy_le ?_⟩
  have hle := List.le_sum_of_mem (List.mem_map_of_mem (f := due) ht)
  simpa only [due, hp, Option.map_some, Option.getD_some] using hle

theorem Idle.state? {id : String} (hb : s.Books) (hb' : s'.Books) (hg : s'.graph = s.graph)
    (h : s.Idle served s') : s'.state? id = s.state? id := by
  cases hp : s.progress? id with
  | some p =>
    obtain ⟨task, ht, rfl⟩ := hb.exists_task hp
    obtain ⟨p', hp', hidle⟩ := h task ht p hp
    rw [state?_of_progress? hp, state?_of_progress? hp', hidle.state]
  | none =>
    rw [Session.state?, Session.state?, hp, (hb.progress?_eq_none hb' hg).mpr hp]

/-- If every task is brought forward or stays still, either there is less to do or all is still. -/
theorem weight_lt_or_idle (hg : s'.graph = s.graph) (hb : s.Books)
    (h : ∀ task ∈ s.graph.tasks, ∀ p, s.progress? task.id = some p →
      ∃ p', s'.progress? task.id = some p' ∧
        (p'.weight (served task.capability) task < p.weight (served task.capability) task ∨
          p.Idle (served task.capability) p')) :
    s'.weight served < s.weight served ∨
      s'.weight served = s.weight served ∧ s.Idle served s' := by
  unfold weight
  rw [hg]
  by_cases hless : ∃ task ∈ s.graph.tasks, ∃ p p', s.progress? task.id = some p ∧
      s'.progress? task.id = some p' ∧
      p'.weight (served task.capability) task < p.weight (served task.capability) task
  · obtain ⟨task, ht, p, p', hp, hp', hlt⟩ := hless
    refine .inl (List.sum_lt_sum _ _ (fun other ho => ?_) ⟨task, ht, ?_⟩)
    · obtain ⟨q, hq, -⟩ := hb.progress ho
      obtain ⟨q', hq', hcase⟩ := h other ho q hq
      rw [hq, hq', Option.map_some, Option.map_some, Option.getD_some, Option.getD_some]
      rcases hcase with hlt | hidle
      · exact Nat.le_of_lt hlt
      · exact Nat.le_of_eq hidle.weight
    · rw [hp, hp']
      exact hlt
  · have hidle : s.Idle served s' := fun task ht p hp => by
      obtain ⟨p', hp', hcase⟩ := h task ht p hp
      rcases hcase with hlt | hidle
      · exact absurd ⟨task, ht, p, p', hp, hp', hlt⟩ hless
      · exact ⟨p', hp', hidle⟩
    refine .inr ⟨congrArg List.sum (List.map_congr_left fun task ht => ?_), hidle⟩
    obtain ⟨p, hp, -⟩ := hb.progress ht
    obtain ⟨p', hp', hsame⟩ := hidle task ht p hp
    rw [hp, hp', Option.map_some, Option.map_some, hsame.weight]

end Session

namespace Run

variable {run run' : Run}

def Forwards (run run' : Run) : Prop :=
  ∃ task ∈ run.session.graph.tasks, ∃ p p', run.session.progress? task.id = some p ∧
    run'.session.progress? task.id = some p' ∧ p'.effort task < p.effort task

theorem Round.calls_or_forwards (h : Round run run') :
    run'.calls = run.calls ∨ run.Forwards run' := by
  cases h with
  | turns hm hr ht =>
    cases ht with
    | sends =>
      obtain ⟨p, hp, hs⟩ := Session.state?_eq_some.mp (Session.isReady_iff.mp hr).1
      exact .inr ⟨_, hm, p, _, hp, progress?_sends hp, Progress.effort_lt_of_runs hs rfl rfl⟩
    | _ => exact .inl rfl
  | _ => exact .inl rfl

end Run

end Crew
