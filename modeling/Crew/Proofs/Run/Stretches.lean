import Crew.Proofs.Run.Effort
import Crew.Proofs.Run.Upshots

/-!
# What a pass achieves

A pass is a stretch of small changes none of which makes more work (`Stretch.eases`): there is less
to do afterwards, or nothing that matters has happened. The first task that has its turn gets ahead,
if a worker serves it, none of the workers has load and all breakers have cooled down, or if no
worker serves it and it has waited long enough (`dispatchTask_lowers`).
-/

namespace Crew

variable {served : String → Bool} {now : Nat}

namespace Session

variable {s s' : Session}

/-- What becomes of the marks of those tasks that nobody serves. -/
def Lingers (served : String → Bool) (now : Nat) (s s' : Session) : Prop :=
  ∀ task ∈ s.graph.tasks, served task.capability = false → ∀ p p',
    s.progress? task.id = some p → s'.progress? task.id = some p' → p.Lingers now p'

theorem Lingers.one {id : String}
    (hne : ∀ other, other ≠ id → s'.progress? other = s.progress? other)
    (h : ∀ task ∈ s.graph.tasks, served task.capability = false → task.id = id → ∀ p p',
      s.progress? task.id = some p → s'.progress? task.id = some p' → p.Lingers now p') :
    s.Lingers served now s' := by
  intro task ht hs p p' hp hp'
  by_cases he : task.id = id
  · exact h task ht hs he p p' hp hp'
  · obtain rfl : p = p' := Option.some.inj (hp.symm.trans ((hne _ he).symm.trans hp'))
    exact .same

theorem Lingers.of_eq (h : ∀ id, s'.progress? id = s.progress? id) : s.Lingers served now s' := by
  intro task _ _ p p' hp hp'
  obtain rfl : p = p' := Option.some.inj (hp.symm.trans ((h _).symm.trans hp'))
  exact .same

end Session

namespace Run

variable {run run' run₁ : Run} {reg : Registry} {task : Task}

-- ---------------------------------------------------------------------------
-- Strides
-- ---------------------------------------------------------------------------

/-- A part of a pass where just the given capabilities are served. -/
structure Stride (served : String → Bool) (now : Nat) (run run' : Run) : Prop where
  round : Round run run'
  lingers : run.session.Lingers served now run'.session

abbrev Stretch (served : String → Bool) (now : Nat) : Run → Run → Prop :=
  Relation.ReflTransGen (Stride served now)

/-- There is less to do than before, or nothing that matters has happened. -/
def Eases (served : String → Bool) (run run' : Run) : Prop :=
  run'.session.weight served < run.session.weight served ∨
    run'.session.weight served = run.session.weight served ∧
      run.session.Idle served run'.session ∧ run'.calls = run.calls

theorem Eases.refl (served : String → Bool) (run : Run) : run.Eases served run :=
  .inr ⟨rfl, .refl _, rfl⟩

theorem Eases.le (h : run.Eases served run') :
    run'.session.weight served ≤ run.session.weight served := by
  rcases h with hlt | ⟨heq, -⟩
  · exact Nat.le_of_lt hlt
  · exact Nat.le_of_eq heq

theorem Eases.trans (hg : run₁.session.graph = run.session.graph) (h : run.Eases served run₁)
    (h' : run₁.Eases served run') : run.Eases served run' := by
  rcases h with hlt | ⟨heq, hidle, hcalls⟩
  · exact .inl (Nat.lt_of_le_of_lt h'.le hlt)
  · rcases h' with hlt | ⟨heq', hidle', hcalls'⟩
    · exact .inl (heq ▸ hlt)
    · exact .inr ⟨heq'.trans heq, hidle.trans hg hidle', hcalls'.trans hcalls⟩

theorem Stride.eases (hs : run.Sound) (h : Stride served now run run') :
    run.Eases served run' := by
  have hcases : _ < run.session.weight served ∨ _ :=
    Session.weight_lt_or_idle h.round.graph hs.books fun task ht p hp => by
      obtain ⟨p', hp', hround⟩ := h.round.progress hs.books.distinct ht hp
      exact ⟨p', hp', Progress.weight_lt_or_idle hround.effort fun hserved =>
        h.lingers task ht hserved p p' hp hp'⟩
  rcases hcases with hlt | ⟨heq, hidle⟩
  · exact .inl hlt
  · refine .inr ⟨heq, hidle, ?_⟩
    rcases h.round.calls_or_forwards with hcalls | ⟨task, ht, p, p', hp, hp', hlt⟩
    · exact hcalls
    · -- a task that was brought forward is not idle
      obtain ⟨q, hq, hsame⟩ := hidle task ht p hp
      obtain rfl : q = p' := Option.some.inj (hq.symm.trans hp')
      rw [Progress.effort_congr hsame.state hsame.retriesUsed] at hlt
      exact absurd hlt (Nat.lt_irrefl _)

theorem Stretch.rounds (h : Stretch served now run run') : Rounds run run' := by
  induction h with
  | refl => exact .refl
  | tail _ hs ih => exact ih.tail hs.round

theorem Stretch.eases (hs : run.Sound) (h : Stretch served now run run') :
    run.Eases served run' := by
  induction h with
  | refl => exact .refl _ _
  | tail h hstride ih =>
    have hrounds := Stretch.rounds h
    exact ih.trans (Rounds.graph hrounds) (hstride.eases (hs.rounds hrounds))

-- ---------------------------------------------------------------------------
-- The parts of a pass
-- ---------------------------------------------------------------------------

theorem skipDownstream_stretch (ids : List String) (run : Run) :
    Stretch served now run (run.withSession (run.session.skipDownstream ids).1) := by
  induction ids generalizing run with
  | nil => exact .refl
  | cons id rest ih =>
    unfold Session.skipDownstream
    split
    next hs =>
      split
      next dep hd =>
        refine .head ⟨.skips hs hd, .one (fun _ => Session.progress?_update_ne _ _ _) ?_⟩ (ih _)
        rintro task - - rfl p p' hp hp'
        obtain rfl := Option.some.inj
          ((Session.progress?_update_self _ _ _ hp).symm.trans hp')
        exact .ends rfl
      · exact ih run
    · exact ih run

theorem propagateFailures_stretch (run : Run) (reg : Registry) :
    Stretch served now run (run.propagateFailures reg).1 :=
  skipDownstream_stretch run.session.order run

theorem releaseBackoffs_stride (run : Run) (instant : Nat) :
    Stride served now run (run.withSession (run.session.releaseBackoffs instant).1) := by
  refine ⟨.releases instant, fun task _ _ p p' hp hp' => ?_⟩
  rw [withSession, Session.progress?_releaseBackoffs, hp] at hp'
  obtain rfl : p.release instant = p' := Option.some.inj hp'
  unfold Progress.release
  split
  next expiry hs =>
    split
    · exact .keeps (by rw [hs]; rfl) rfl
    · exact .same
  · exact .same

theorem prepare_stretch (run : Run) (reg : Registry) :
    Stretch served now run (run.prepare reg now).1 :=
  (propagateFailures_stretch run reg).tail (releaseBackoffs_stride _ now)

theorem dispatchTask_stride (hc : reg.covers = served) (hm : task ∈ run.session.graph.tasks)
    (hr : run.session.isReady task) (hn : run.session.graph.ids.Nodup) :
    Stride served now run (run.dispatchTask reg task now).1 := by
  have hturn := run.dispatchTask_turn reg task now
  refine ⟨.turns hm hr hturn, .one (fun _ => hturn.progress?_ne) ?_⟩
  intro other ho hserved he p p' hp hp'
  obtain rfl := TaskGraph.eq_of_id_eq hn hm ho he
  obtain ⟨q, hq, hs⟩ := Session.state?_eq_some.mp (Session.isReady_iff.mp hr).1
  obtain rfl : q = p := Option.some.inj (hq.symm.trans hp)
  rcases dispatchTask_unserved hp (by rw [hc, hserved]) with ⟨-, hmarked⟩ | ⟨-, hgiven⟩
  · obtain rfl := Option.some.inj (hp'.symm.trans hmarked)
    exact .marks (by rw [hs]; rfl) rfl
  · obtain rfl := Option.some.inj (hp'.symm.trans hgiven)
    exact .ends rfl

theorem dispatchAll_stretch {tasks : List Task} (run : Run) (reg : Registry)
    (hc : reg.covers = served) (hd : (tasks.map (·.id)).Nodup)
    (hm : ∀ task ∈ tasks, task ∈ run.session.graph.tasks)
    (hr : ∀ task ∈ tasks, run.session.isReady task) (hn : run.session.graph.ids.Nodup) :
    Stretch served now run (dispatchAll now tasks run reg).1 := by
  induction tasks generalizing run reg with
  | nil => exact .refl
  | cons task rest ih =>
    rw [List.map_cons, List.nodup_cons] at hd
    obtain ⟨hm, hms⟩ := List.forall_mem_cons.mp hm
    obtain ⟨hr, hrs⟩ := List.forall_mem_cons.mp hr
    have ht := dispatchTask_turn run reg task now
    refine .head (dispatchTask_stride hc hm hr hn) (ih _ _ ?_ hd.2 ?_ ?_ (by rwa [ht.graph]))
    · exact (run.uses_dispatchTask reg task now).covers.trans hc
    · rwa [ht.graph]
    · exact fun other ho => ht.isReady hr (hrs other ho) fun he =>
        hd.1 (List.mem_map.mpr ⟨other, ho, he⟩)

theorem learns_stride (run : Run) (latest : TrustTable) :
    Stride served now run (run.withSession (run.session.refreshTrust latest)) :=
  ⟨.learns latest, .of_eq fun _ => rfl⟩

theorem dispatchReady_stretch (run : Run) (reg : Registry) (hc : reg.covers = served)
    (hn : run.session.graph.ids.Nodup) :
    Stretch served now run (run.dispatchReady reg now).1 := by
  unfold dispatchReady
  split
  · exact .refl
  · exact .head (run.learns_stride _) (dispatchAll_stretch _ reg hc (nodup_readyTasks hn)
      (fun task ht => (mem_readyTasks.mp ht).1) (fun task ht => (mem_readyTasks.mp ht).2) hn)

theorem observeScaling_stretch (run : Run) (reg : Registry) (waiting : Nat) :
    Stretch served now run (run.observeScaling reg waiting now).1 := by
  rw [observeScaling_eq]
  exact .single ⟨.looks _, .of_eq fun _ => rfl⟩

theorem settle_stretch (run : Run) (reg : Registry) : Stretch served now
    ((run.prepare reg now).1.dispatchReady (run.prepare reg now).2 now).1
    (run.pass reg now).1 := by
  rw [pass_eq]
  exact (propagateFailures_stretch _ _).trans (observeScaling_stretch _ _ _)

theorem send_stretch (run : Run) (reg : Registry) (hc : reg.covers = served)
    (hn : run.session.graph.ids.Nodup) :
    Stretch served now (run.prepare reg now).1 (run.pass reg now).1 := by
  have hcovers : (run.prepare reg now).2.covers = served := by
    rw [← hc]
    exact (run.rests_propagateFailures reg).uses.covers
  have hready : Stretch served now (run.prepare reg now).1
      ((run.prepare reg now).1.dispatchReady (run.prepare reg now).2 now).1 :=
    dispatchReady_stretch _ _ hcovers (by rwa [Rounds.graph (run.prepare_rounds reg now)])
  exact hready.trans (run.settle_stretch reg)

theorem pass_stretch (run : Run) (reg : Registry) (hc : reg.covers = served)
    (hn : run.session.graph.ids.Nodup) : Stretch served now run (run.pass reg now).1 :=
  (run.prepare_stretch reg).trans (run.send_stretch reg hc hn)

-- ---------------------------------------------------------------------------
-- The first turn
-- ---------------------------------------------------------------------------

/-- A ready task that is due gets ahead, once all breakers have cooled down and nobody is at
work. -/
theorem dispatchTask_lowers (hs : run.Sound) (hm : task ∈ run.session.graph.tasks)
    (hr : run.session.isReady task) (hc : reg.covers = served)
    (hcool : reg.Cooled now) (hload : ∀ r ∈ reg.workers, r.load = 0) (hf : run.slots.free ≠ 0)
    (hripe : run.session.Ripe served run.policy.execution.unavailableTimeout now) :
    (run.dispatchTask reg task now).1.session.weight served < run.session.weight served := by
  obtain ⟨p, hp, hpending⟩ := Session.state?_eq_some.mp (Session.isReady_iff.mp hr).1
  have hahead : ∃ p', (run.dispatchTask reg task now).1.session.progress? task.id = some p' ∧
      ¬ p.Idle (served task.capability) p' := by
    cases hserved : served task.capability with
    | true =>
      have hw : (reg.selectFor task.capability now).2 ≠ [] :=
        Registry.selectFor_ne_nil hcool hload (by rw [hc, hserved])
      have hoffers := not_not.mp (Registry.selectFor_eq_nil_iff.not.mp hw)
      obtain ⟨k, hsent⟩ := dispatchTask_offered hp hoffers hf
      refine ⟨_, hsent, fun hidle => ?_⟩
      exact TaskState.noConfusion (hidle.state.trans hpending)
    | false =>
      rcases dispatchTask_unserved hp (by rw [hc, hserved]) with
        ⟨hearly, hmarked⟩ | ⟨-, hgiven⟩
      · refine ⟨_, hmarked, fun hidle => ?_⟩
        have hmark := hidle.mark rfl hpending
        have hdue := (hripe task hm p hp).mark hserved hpending hmark.symm
        omega
      · refine ⟨_, hgiven, fun hidle => ?_⟩
        exact TaskState.noConfusion (hidle.state.trans hpending)
  obtain ⟨p', hp', hahead⟩ := hahead
  rcases (dispatchTask_stride hc hm hr hs.books.distinct).eases hs with hlt | ⟨-, hidle, -⟩
  · exact hlt
  · obtain ⟨q, hq, hsame⟩ := hidle task hm p hp
    obtain rfl : q = p' := Option.some.inj (hq.symm.trans hp')
    exact absurd hsame hahead

end Run

end Crew
