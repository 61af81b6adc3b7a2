import Crew.Proofs.Run.Upshots
import Crew.Proofs.Session.Propagation

/-!
# One task in a pass

The ready tasks have their turns one after the other, and each comes out of the pass as it comes out
of its own turn (`pass_upshot`): the turns of others leave it alone, and a task that may run is
not skipped. A task that is not ready is left as it is, but that its backoff may end and that it may
be skipped (`pass_progress_of_not_ready`).
-/

namespace Crew

namespace Progress

variable {p : Progress}

theorem pendingSince_release (p : Progress) (now : Nat) :
    (p.release now).pendingSince = p.pendingSince := by
  unfold release
  split
  · split <;> rfl
  · rfl

theorem isTerminal_release (p : Progress) (now : Nat) :
    (p.release now).state.isTerminal = p.state.isTerminal := by
  unfold release
  split
  next hs => split <;> simp [hs, TaskState.isTerminal]
  · rfl

end Progress

namespace Session

variable {s : Session} {task : Task} {id : String} {p : Progress}

theorem progress?_skipDownstream_of_enables (hn : s.graph.ids.Nodup) (ht : task ∈ s.graph.tasks)
    (he : s.Enables task) (ids : List String) :
    (s.skipDownstream ids).1.progress? task.id = s.progress? task.id := by
  induction ids generalizing s with
  | nil => rfl
  | cons id rest ih =>
    unfold skipDownstream
    split
    next hp =>
      split
      next dep hd =>
        have hne : task.id ≠ id := by
          rintro rfl
          have hblames := failedDependency?_eq_some.mp hd
          have hdep := hblames.dependsOn
          rw [TaskGraph.DependsOn, TaskGraph.dependencies_of_mem hn ht] at hdep
          exact he.not_hasFailed hdep hblames.hasFailed
        have he' : (s.update id (·.skip dep)).Enables task := by
          intro dep' hdep'
          have hsucceeded := he dep' hdep'
          rw [state?_skip hp, if_neg, hsucceeded]
          rintro rfl
          cases hp.symm.trans hsucceeded
        exact (ih (s := s.update id (·.skip dep)) hn ht he').trans (progress?_update_ne _ _ _ hne)
      · exact ih hn ht he
    · exact ih hn ht he

theorem progress?_skipDownstream (hp : s.progress? id = some p) (ids : List String) :
    ∃ p', (s.skipDownstream ids).1.progress? id = some p' ∧ (p'.state.isTerminal ∨ p' = p) := by
  induction ids generalizing s p with
  | nil => exact ⟨p, hp, .inr rfl⟩
  | cons id' rest ih =>
    unfold skipDownstream
    split
    · split
      next dep hd =>
        by_cases he : id = id'
        · subst he
          obtain ⟨p', hp', h⟩ := ih (progress?_update_self _ _ _ hp)
          refine ⟨p', hp', .inl ?_⟩
          rcases h with ht | rfl
          · exact ht
          · rfl
        · exact ih ((progress?_update_ne _ _ _ he).trans hp)
      · exact ih hp
    · exact ih hp

end Session

namespace Run

variable {run : Run} {reg : Registry} {task : Task} {tasks rest : List Task} {now : Nat}
  {p q : Progress}

-- ---------------------------------------------------------------------------
-- Queues
-- ---------------------------------------------------------------------------

theorem progress?_dispatchAll {id : String} (run : Run) (reg : Registry)
    (hid : id ∉ tasks.map (·.id)) :
    (dispatchAll now tasks run reg).1.session.progress? id = run.session.progress? id := by
  induction tasks generalizing run reg with
  | nil => rfl
  | cons task rest ih =>
    rw [List.map_cons, List.mem_cons, not_or] at hid
    exact (ih _ _ hid.2).trans ((run.dispatchTask_turn reg task now).progress?_ne hid.1)

/-- Distinct tasks, all of them ready, that are still to have their turns. -/
structure Queue (tasks : List Task) (run : Run) : Prop where
  distinct : (tasks.map (·.id)).Nodup
  ready : ∀ task ∈ tasks, run.session.isReady task

theorem Queue.next (h : Queue (task :: rest) run) (reg : Registry) (now : Nat) :
    Queue rest (run.dispatchTask reg task now).1 := by
  obtain ⟨hnew, hdistinct⟩ := List.nodup_cons.mp h.distinct
  refine ⟨hdistinct, fun other ho => ?_⟩
  refine (run.dispatchTask_turn reg task now).isReady (h.ready task List.mem_cons_self)
    (h.ready other (List.mem_cons_of_mem _ ho)) fun he => hnew ?_
  exact List.mem_map.mpr ⟨other, ho, he⟩

theorem Queue.head (h : Queue (task :: rest) run) :
    ∃ p, run.session.progress? task.id = some p ∧ p.state = .pending :=
  Session.state?_eq_some.mp (Session.isReady_iff.mp (h.ready task List.mem_cons_self)).1

theorem dispatchReady_eq (run : Run) (reg : Registry) (now : Nat) :
    run.dispatchReady reg now = (run, reg, 0) ∧ run.session.readyTasks = [] ∨
      run.dispatchReady reg now = dispatchAll now run.session.readyTasks
        (run.withSession (run.session.refreshTrust reg.trustTable)) reg := by
  unfold dispatchReady
  split
  next hnone => exact .inl ⟨rfl, hnone⟩
  next => exact .inr rfl

-- ---------------------------------------------------------------------------
-- Passes
-- ---------------------------------------------------------------------------

theorem Queue.exists_turn (h : Queue tasks run) (reg : Registry) (now : Nat) (hm : task ∈ tasks) :
    ∃ (run' : Run) (reg' : Registry), run'.policy = run.policy ∧ reg'.covers = reg.covers ∧
      run'.session.progress? task.id = run.session.progress? task.id ∧
      (dispatchAll now tasks run reg).1.session.progress? task.id =
        (run'.dispatchTask reg' task now).1.session.progress? task.id := by
  induction tasks generalizing run reg with
  | nil => cases hm
  | cons first rest ih =>
    have hnew := (List.nodup_cons.mp h.distinct).1
    rcases List.mem_cons.mp hm with rfl | hm
    · exact ⟨run, reg, rfl, rfl, rfl, progress?_dispatchAll _ _ hnew⟩
    · have hturn := run.dispatchTask_turn reg first now
      have hne : task.id ≠ first.id := fun he =>
        hnew (List.mem_map.mpr ⟨task, hm, he⟩)
      obtain ⟨run', reg', hpolicy, hcovers, hsame, hafter⟩ := ih (h.next reg now) _ hm
      exact ⟨run', reg', hpolicy.trans hturn.policy,
        hcovers.trans (run.uses_dispatchTask reg first now).covers,
        hsame.trans (hturn.progress?_ne hne), hafter⟩

theorem isReady_prepare (hs : run.Sound) (ht : task ∈ run.session.graph.tasks)
    (hr : run.session.isReady task) (reg : Registry) (now : Nat) :
    (run.prepare reg now).1.session.isReady task := by
  obtain ⟨hpending, henables⟩ := Session.isReady_iff.mp hr
  obtain ⟨p, hp, hstate⟩ := Session.state?_eq_some.mp hpending
  have hkept := Session.progress?_skipDownstream_of_enables hs.books.distinct ht henables
    run.session.order
  have hprepared : (run.prepare reg now).1.session.progress? task.id = some (p.release now) :=
    Session.progress?_releaseBackoffs.trans (congrArg (Option.map _) (hkept.trans hp))
  refine Session.isReady_iff.mpr ⟨Session.state?_eq_some.mpr ⟨_, hprepared, ?_⟩,
    (Rounds.follows hs (run.prepare_rounds reg now)).enables henables⟩
  simp [Progress.release, hstate]

/-- What happens to a ready task in a pass is what comes of its turn. -/
theorem pass_upshot (hs : run.Sound) (ht : task ∈ run.session.graph.tasks)
    (hready : (run.prepare reg now).1.session.isReady task)
    (hq : (run.prepare reg now).1.session.progress? task.id = some q) :
    ∃ (run₁ run₂ : Run) (reg₁ : Registry) (waits : Bool),
      Upshot run₁ reg₁ task now q run₂ waits ∧ run₁.policy = run.policy ∧
      reg₁.covers = (run.prepare reg now).2.covers ∧
      (run.pass reg now).1.session.progress? task.id = run₂.session.progress? task.id := by
  have hprepare := run.prepare_rounds reg now
  rw [pass_eq]
  generalize run.prepare reg now = prepared at hprepare hready hq
  obtain ⟨ready, reg'⟩ := prepared
  have hn : ready.session.graph.ids.Nodup := by
    rw [Rounds.graph hprepare]
    exact hs.books.distinct
  have hm : task ∈ ready.session.readyTasks :=
    mem_readyTasks.mpr ⟨by rwa [Rounds.graph hprepare], hready⟩
  have hsent := (dispatchReady_rounds ready reg' now hn).1
  have hgraph := Rounds.graph (hprepare.trans hsent)
  have henables : (ready.dispatchReady reg' now).1.session.Enables task :=
    (Rounds.follows (hs.rounds hprepare) hsent).enables (Session.isReady_iff.mp hready).2
  have hqueue : Queue ready.session.readyTasks
      (ready.withSession (ready.session.refreshTrust reg'.trustTable)) :=
    ⟨nodup_readyTasks hn, fun other ho => (mem_readyTasks.mp ho).2⟩
  obtain ⟨run₁, reg₁, hpolicy, hcovers, hsame, hafter⟩ := hqueue.exists_turn reg' now hm
  refine ⟨run₁, _, reg₁, _, run₁.dispatchTask_upshot reg₁ now (hsame.trans hq),
    hpolicy.trans hprepare.policy, hcovers, ?_⟩
  dsimp only
  rw [← hafter, session_observeScaling]
  have hsettled := Session.progress?_skipDownstream_of_enables
    (by rw [hgraph]; exact hs.books.distinct)
    (by rwa [hgraph]) henables (ready.dispatchReady reg' now).1.session.order
  refine hsettled.trans ?_
  rcases dispatchReady_eq ready reg' now with ⟨-, hnone⟩ | hall
  · rw [hnone] at hm
    cases hm
  · rw [hall]

theorem prepare_progress {id : String} (reg : Registry) (now : Nat)
    (hp : run.session.progress? id = some p) :
    ∃ q, (run.prepare reg now).1.session.progress? id = some q ∧
      (q.state.isTerminal ∨ q = p.release now) := by
  obtain ⟨q, hq, h⟩ := Session.progress?_skipDownstream hp run.session.order
  refine ⟨q.release now, ?_, ?_⟩
  · exact Session.progress?_releaseBackoffs.trans (congrArg (Option.map _) hq)
  · rcases h with ht | rfl
    · exact .inl ((q.isTerminal_release now).trans ht)
    · exact .inr rfl

theorem pass_progress_of_not_ready (hm : task ∉ (run.prepare reg now).1.session.readyTasks)
    (hs : run.Sound) (ht : task ∈ run.session.graph.tasks)
    (hp : run.session.progress? task.id = some p) :
    ∃ p', (run.pass reg now).1.session.progress? task.id = some p' ∧
      (p'.state.isTerminal ∨ p' = p.release now) := by
  obtain ⟨q, hq, hprepared⟩ := prepare_progress reg now hp
  have hprepare := run.prepare_rounds reg now
  rw [pass_eq]
  generalize run.prepare reg now = prepared at hprepare hm hq
  obtain ⟨ready, reg'⟩ := prepared
  have hnew : task.id ∉ ready.session.readyTasks.map (·.id) := by
    rintro hid
    obtain ⟨other, ho, he⟩ := List.mem_map.mp hid
    have hother := (mem_readyTasks.mp ho).1
    rw [Rounds.graph hprepare] at hother
    exact hm (TaskGraph.eq_of_id_eq hs.books.distinct ht hother he ▸ ho)
  have hsent : (ready.dispatchReady reg' now).1.session.progress? task.id = some q := by
    rcases dispatchReady_eq ready reg' now with ⟨hsame, -⟩ | hall
    · rw [hsame]
      exact hq
    · rw [hall]
      exact (progress?_dispatchAll _ _ hnew).trans hq
  obtain ⟨p', hp', h⟩ := Session.progress?_skipDownstream hsent
    (ready.dispatchReady reg' now).1.session.order
  refine ⟨p', ?_, ?_⟩
  · dsimp only
    rw [session_observeScaling]
    exact hp'
  · rcases h with hterminal | rfl
    · exact .inl hterminal
    · exact hprepared

end Run

end Crew
