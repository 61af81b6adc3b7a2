import Crew.Proofs.Run.Accounts
import Crew.Proofs.Run.Stretches
import Crew.Proofs.Run.Waiting

/-!
# Passes that change nothing

A run that waits for no call does not pass over its tasks in vain for ever: once all backoffs are
over, all breakers have cooled down and whoever waits for a worker that there is not has waited long
enough, a pass leaves less to do (`Opening.Reaches.pass_lowers`). Between passes the run sleeps,
each time until after the pass (`Run.Later.lt_wakeAt`).
-/

namespace Crew

open Registry (Rests Uses)

variable {served : String → Bool} {now : Nat}

namespace Run

variable {run run' : Run} {reg reg' : Registry} {task : Task} {notes : List Note}

-- ---------------------------------------------------------------------------
-- Backoffs
-- ---------------------------------------------------------------------------

/-- Whatever is left of a backoff ends later. -/
def Later (now : Nat) (run : Run) : Prop :=
  ∀ id p expiry, run.session.progress? id = some p → p.state = .backoff expiry → now < expiry

theorem later_prepare (run : Run) (reg : Registry) : (run.prepare reg now).1.Later now := by
  intro id p expiry hp hs
  obtain ⟨q, -, rfl⟩ := Option.map_eq_some_iff.mp (Session.progress?_releaseBackoffs.symm.trans hp)
  unfold Progress.release at hs
  split at hs
  next e he =>
    split at hs
    · cases hs
    next hlt =>
      cases he.symm.trans hs
      omega
  next hother => exact absurd hs (hother expiry)

theorem Later.rounds (h : run.Later now) (hs : run.Sound) (hr : Rounds run run') :
    run'.Later now := by
  intro id p' expiry hp' hexpiry
  have hb' := (hs.rounds hr).books
  obtain ⟨task, ht, rfl⟩ := hb'.exists_task hp'
  rw [Rounds.graph hr] at ht
  obtain ⟨p, hp, -⟩ := hs.books.progress ht
  obtain ⟨q, hq, hlater⟩ := hr.progress hs ht hp
    (R := fun q => ∀ expiry, q.state = .backoff expiry → now < expiry)
    (fun expiry => h _ p expiry hp)
    fun hR hround expiry he => by
      cases hround with
      | same => exact hR expiry he
      | wait => exact hR expiry he
      | withdraw => simp [Progress.begin, Progress.abort] at he
      | _ => cases he
  obtain rfl : q = p' := Option.some.inj (hq.symm.trans hp')
  exact hlater expiry hexpiry

theorem later_pass (hs : run.Sound) (reg : Registry) : (run.pass reg now).1.Later now :=
  (run.later_prepare reg).rounds (hs.rounds (run.prepare_rounds reg now))
    (Stretch.rounds (run.send_stretch reg rfl hs.books.distinct))

theorem Later.lt_wakeAt (h : run.Later now) (hn : run.session.progress.keys.Nodup) :
    now < run.wakeAt now := by
  have hpoll : now < deadline now run.policy.execution.poll := by
    have hpos : 0 < run.policy.execution.poll := Nat.le_max_right _ _
    have hlimit : 0 < waitLimit := by decide
    unfold deadline
    omega
  unfold wakeAt
  dsimp only
  split
  next expiry he =>
    refine Nat.lt_min.mpr ⟨hpoll, ?_⟩
    obtain ⟨p, hp, hexpiry⟩ := List.mem_filterMap.mp (List.min?_mem he)
    obtain ⟨row, hrow, rfl⟩ := List.mem_map.mp hp
    split at hexpiry
    next e hs =>
      cases hexpiry
      exact h _ _ _ (Session.progress?_of_mem_rows hn hrow) hs
    · cases hexpiry
  · exact hpoll

-- ---------------------------------------------------------------------------
-- Ready tasks
-- ---------------------------------------------------------------------------

theorem dispatchAll_lowers {rest : List Task} (hs : run.Sound)
    (hids : ((task :: rest).map (·.id)).Nodup)
    (hready : ∀ other ∈ task :: rest, other ∈ run.session.graph.tasks ∧ run.session.isReady other)
    (hc : reg.covers = served) (hcool : reg.Cooled now)
    (hload : ∀ r ∈ reg.workers, r.load = 0) (hf : run.slots.free ≠ 0)
    (hripe : run.session.Ripe served run.policy.execution.unavailableTimeout now) :
    (dispatchAll now (task :: rest) run reg).1.session.weight served <
      run.session.weight served := by
  rw [List.map_cons, List.nodup_cons] at hids
  obtain ⟨⟨hm, hr⟩, hrest⟩ := List.forall_mem_cons.mp hready
  have hturn := run.dispatchTask_turn reg task now
  have hothers : Stretch served now (run.dispatchTask reg task now).1
      (dispatchAll now (task :: rest) run reg).1 := by
    refine dispatchAll_stretch _ _ ?_ hids.2 (fun other ho => ?_) (fun other ho => ?_) ?_
    · exact (run.uses_dispatchTask reg task now).covers.trans hc
    · rw [hturn.graph]
      exact (hrest other ho).1
    · exact hturn.isReady hr (hrest other ho).2 fun he =>
        hids.1 (List.mem_map.mpr ⟨other, ho, he⟩)
    · rw [hturn.graph]
      exact hs.books.distinct
  exact Nat.lt_of_le_of_lt (hothers.eases (hs.rounds (.single (.turns hm hr hturn)))).le
    (dispatchTask_lowers hs hm hr hc hcool hload hf hripe)

theorem dispatchReady_lowers (hs : run.Sound) (hready : run.session.readyTasks ≠ [])
    (hc : reg.covers = served) (hcool : reg.Cooled now)
    (hload : ∀ r ∈ reg.workers, r.load = 0) (hf : run.slots.free ≠ 0)
    (hripe : run.session.Ripe served run.policy.execution.unavailableTimeout now) :
    (run.dispatchReady reg now).1.session.weight served < run.session.weight served := by
  have hids := nodup_readyTasks hs.books.distinct
  have hmem : ∀ task ∈ run.session.readyTasks, task ∈ run.session.graph.tasks ∧
      run.session.isReady task := fun _ => mem_readyTasks.mp
  have hlearned : (run.withSession (run.session.refreshTrust reg.trustTable)).Sound :=
    hs.rounds (.single (.learns _))
  unfold dispatchReady
  cases htasks : run.session.readyTasks with
  | nil => exact absurd htasks hready
  | cons task rest =>
    rw [htasks] at hids hmem
    exact dispatchAll_lowers hlearned hids hmem hc hcool hload hf hripe

end Run

namespace Opening

variable {o : Opening} {c : Course}

theorem Reaches.capacity_pos (h : o.Reaches c) : 0 < c.run.slots.capacity := by
  obtain ⟨c₀, h₀, hs⟩ := h
  rw [Course.Steps.capacity (sound_of_course h₀) hs]
  obtain ⟨graph, registry, count, -, -, hcount, -, rfl⟩ := course_eq_ok.mp h₀
  have hpos := o.coordinator.slotCount_pos o.registry graph.size o.now
  rwa [hcount] at hpos

theorem Reaches.send_lowers (h : o.Reaches c) (hc : c.registry.covers = served)
    (hcalls : c.run.calls = []) (hl : c.registry.Loaded []) (hcool : c.registry.Cooled c.now)
    (hripe : (c.run.prepare c.registry c.now).1.session.Ripe served
      c.run.policy.execution.unavailableTimeout c.now)
    (hready : (c.run.prepare c.registry c.now).1.session.readyTasks ≠ []) :
    c.pass.run.session.weight served <
      (c.run.prepare c.registry c.now).1.session.weight served := by
  have hs := h.sound.run
  have hrounds := c.run.prepare_rounds c.registry c.now
  have hrests := c.run.rests_propagateFailures c.registry
  have hs₁ := hs.rounds hrounds
  have hloaded : (c.run.prepare c.registry c.now).2.Loaded [] := hl.rests hrests
  have hfree : (c.run.prepare c.registry c.now).1.slots.free ≠ 0 := by
    have hslots := hs.slots
    have hpos := h.capacity_pos
    rw [hcalls, List.length_nil] at hslots
    change c.run.slots.free ≠ 0
    omega
  have hsent := Run.dispatchReady_lowers hs₁ hready (hrests.uses.covers.trans hc)
    (hcool.rests hrests) hloaded.load hfree hripe
  have hsettled : Run.Stretch served c.now _ c.pass.run := c.run.settle_stretch c.registry
  refine Nat.lt_of_le_of_lt (hsettled.eases (hs₁.rounds ?_)).le hsent
  refine (Run.dispatchReady_rounds _ _ c.now ?_).1
  rw [Run.Rounds.graph hrounds]
  exact hs.books.distinct

/-- A pass after which no call is in flight, no task backs off and none is ready leaves nothing to
do. -/
theorem Reaches.isFinished_pass (h : o.Reaches c) (hcalls : c.pass.run.calls = [])
    (hbacks : ∀ id expiry, c.pass.run.session.state? id ≠ some (.backoff expiry))
    (hready : c.pass.run.session.readyTasks = []) : c.pass.run.session.isFinished := by
  have hrounds : Run.Rounds c.run c.pass.run := Run.pass_rounds h.sound.run.books.distinct
  have hs : c.pass.run.Sound := h.sound.run.rounds hrounds
  by_contra hopen
  obtain ⟨id, hmoving⟩ := Session.exists_moving (Run.Rounds.graph hrounds ▸ h.valid)
    (fun id hid => (Session.progress?_isSome_iff hs.books.keys).mpr hid)
    (hs.books.keys ▸ hs.books.distinct) h.not_doomed_pass (Bool.eq_false_iff.mpr hopen)
  cases hmoving with
  | runs hr =>
    obtain ⟨p, hp, hrunning⟩ := Session.state?_eq_some.mp hr
    obtain ⟨a, ha, -⟩ := Session.callsOf_pos.mp ((hs.books.running hp).mp hrunning)
    rw [← hs.calls, hcalls] at ha
    cases ha
  | backsOff hb => exact hbacks _ _ hb
  | mayRun hp hd =>
    obtain ⟨p, hq, -⟩ := Session.state?_eq_some.mp hp
    obtain ⟨task, ht, rfl⟩ := hs.books.exists_task hq
    have hm : task ∈ c.pass.run.session.readyTasks := by
      refine Run.mem_readyTasks.mpr ⟨ht, Session.isReady_iff.mpr ⟨hp, fun dep hdep => hd dep ?_⟩⟩
      rw [TaskGraph.DependsOn, TaskGraph.dependencies_of_mem hs.books.distinct ht]
      exact hdep
    rw [hready] at hm
    cases hm

/-- A pass over tasks that are all due, with no call in flight, leaves less to do or nothing. -/
theorem Reaches.pass_lowers (h : o.Reaches c) (hc : c.registry.covers = served)
    (hcalls : c.run.calls = []) (hl : c.registry.Loaded []) (hcool : c.registry.Cooled c.now)
    (hripe : c.run.session.Ripe served c.run.policy.execution.unavailableTimeout c.now) :
    c.pass.run.session.isFinished ∨
      c.pass.run.session.weight served < c.run.session.weight served := by
  have hs := h.sound.run
  let ready := c.run.prepare c.registry c.now
  have hprepare : Run.Stretch served c.now c.run ready.1 := c.run.prepare_stretch c.registry
  have hsend : Run.Stretch served c.now ready.1 c.pass.run :=
    c.run.send_stretch c.registry hc hs.books.distinct
  have hs₁ : ready.1.Sound := hs.rounds hprepare.rounds
  have hs₂ : c.pass.run.Sound := hs₁.rounds hsend.rounds
  have hg₁ := Run.Rounds.graph hprepare.rounds
  have hg₂ := Run.Rounds.graph hsend.rounds
  rcases hprepare.eases hs with hlt | ⟨hsame, hidle₁, hcalls₁⟩
  · exact .inr (Nat.lt_of_le_of_lt (hsend.eases hs₁).le hlt)
  by_cases hready : ready.1.session.readyTasks = []
  case neg =>
    exact .inr (hsame ▸ h.send_lowers hc hcalls hl hcool (hidle₁.ripe hg₁ hripe hs.books) hready)
  rcases hsend.eases hs₁ with hlt | ⟨-, hidle₂, hcalls₂⟩
  · exact .inr (hsame ▸ hlt)
  -- nothing has happened, so what is due now was so before
  have hstate (id : String) : c.pass.run.session.state? id = ready.1.session.state? id :=
    hidle₂.state? hs₁.books hs₂.books hg₂
  refine .inl (h.isFinished_pass ((hcalls₂.trans hcalls₁).trans hcalls) (fun id expiry hb => ?_) ?_)
  · obtain ⟨p, hp, he⟩ := Session.state?_eq_some.mp hb
    have hlater := Run.later_pass hs c.registry id p _ hp he
    rw [hstate, hidle₁.state? hs.books hs₁.books hg₁] at hb
    obtain ⟨q, hq, he⟩ := Session.state?_eq_some.mp hb
    obtain ⟨task, ht, rfl⟩ := hs.books.exists_task hq
    exact Nat.not_le.mpr hlater ((hripe task ht q hq).backoff he)
  · refine List.eq_nil_iff_forall_not_mem.mpr fun task hm => ?_
    obtain ⟨ht, hr⟩ := Run.mem_readyTasks.mp hm
    have hbefore : task ∈ ready.1.session.readyTasks := by
      rw [Session.isReady_iff] at hr
      simp only [Session.Enables, hstate] at hr
      exact Run.mem_readyTasks.mpr ⟨hg₂ ▸ ht, Session.isReady_iff.mpr hr⟩
    rw [hready] at hbefore
    cases hbefore

end Opening

end Crew
