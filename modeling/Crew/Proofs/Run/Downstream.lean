import Crew.Proofs.Graph.Descendants
import Crew.Proofs.Graph.Order
import Crew.Proofs.Run.Reported
import Crew.Proofs.Session.Propagation

/-!
# What failures reach

In a run that was not cancelled, the tasks that are skipped or about to be are those downstream of a
task that failed for good (`Run.reached_iff`). Towards the failed tasks this goes by the reasons for
which tasks were skipped, away from them by the fact that a task some dependency of which has not
succeeded was never begun. The main statement is `propagation_exact`.
-/

namespace Crew

open Relation (TransGen)

namespace Session

variable {s : Session}

theorem order_settle (s : Session) (n : Nat) (result : Option TaskResult) (now : Nat) :
    (s.settle n result now).1.order = s.order := by
  cases hf : s.inFlight.find? (·.id = n) with
  | none => simp only [settle, hf]
  | some a =>
    cases hp : s.progress? a.taskId with
    | none =>
      simp only [progress?] at hp
      simp only [settle, hf, progress?, hp]
    | some p =>
      rw [settle_of_find? hf hp]
      split
      · rfl
      · split <;> rfl

end Session

-- ---------------------------------------------------------------------------
-- The order of a session
-- ---------------------------------------------------------------------------

namespace Run

variable {run run' : Run} {task : Task} {now : Nat}

theorem order_foldl_place {attempt : Nat} (leases : List Lease) :
    (leases.foldl (place task attempt now) run).session.order = run.session.order := by
  induction leases generalizing run with
  | nil => rfl
  | cons lease rest ih => exact ih

theorem Turn.order (h : Turn run task now run') : run'.session.order = run.session.order := by
  cases h with
  | waits => rfl
  | lacks => unfold Session.markWaiting; split <;> rfl
  | givesUp => unfold Session.markWaiting; split <;> rfl
  | sends => exact order_foldl_place _
  | withdraws => rfl

theorem Rounds.order (h : Rounds run run') : run'.session.order = run.session.order := by
  induction h with
  | refl => rfl
  | tail _ hr ih =>
    refine Eq.trans ?_ ih
    cases hr with
    | turns _ _ ht => exact ht.order
    | _ => rfl

theorem Return.order {n : Nat} {result : Option TaskResult} (h : Return run n result run') :
    run'.session.order = run.session.order := by
  cases h with
  | @goesOn now s settled hs ho =>
    rw [← run.session.order_settle n result now, hs]
    rfl
  | @closes now s s' taskId results hs he =>
    rw [← run.session.order_settle n result now, hs]
    cases he <;> rfl

end Run

theorem Course.Steps.order {c c' : Course} (hs : c.Sound) (h : c.Steps c') :
    c'.run.session.order = c.run.session.order := by
  induction h with
  | refl => rfl
  | @tail c₁ c₂ h hr ih =>
    refine Eq.trans ?_ ih
    cases hr with
    | own hown =>
      cases hown with
      | pass => exact (pass_rounds (Steps.sound hs h)).order
      | complete _ n outcome =>
        rcases c₁.complete_cases n outcome with h | ⟨call, -, rfl, h⟩
        · rw [h]
        · exact h.order
      | wake | leave => rfl
      | stop => rw [session_stop]; rfl
    | _ => rfl

theorem Opening.Reaches.order {o : Opening} {c : Course} (h : o.Reaches c) :
    c.run.session.order = c.run.session.graph.order := by
  obtain ⟨c₀, ho, hs⟩ := h
  have h₀ := sound_of_course ho
  rw [hs.order h₀, (hs.follows h₀).graph]
  obtain ⟨graph, registry, count, -, -, -, -, rfl⟩ := course_eq_ok.mp ho
  rfl

-- ---------------------------------------------------------------------------
-- One call
-- ---------------------------------------------------------------------------

namespace Session

variable {s : Session} {id : String}

theorem Doomed.mem_ids (h : s.Doomed id) : id ∈ s.graph.ids := by
  cases h with
  | fails _ hd _ => exact TaskGraph.mem_ids_of_dependsOn hd
  | follows _ hd _ => exact TaskGraph.mem_ids_of_dependsOn hd

theorem propagateFailures_exact (hv : s.graph.Valid) (ho : s.order = s.graph.order) :
    (∀ id, id ∈ s.propagateFailures.2.map (·.1) ↔ s.Doomed id) ∧
      (∀ x ∈ s.propagateFailures.2, s.propagateFailures.1.Blames x.1 x.2) ∧
      ∀ id, ¬ s.propagateFailures.1.Doomed id := by
  have horder := TaskGraph.inOrder_order hv
  rw [← ho] at horder
  have hperm := TaskGraph.order_perm hv
  rw [← ho] at hperm
  exact skipDownstream_exact horder.nodup horder.pairwise.1 horder.pairwise.2
    fun id h => hperm.mem_iff.mpr h.mem_ids

end Session

-- ---------------------------------------------------------------------------
-- Whole runs
-- ---------------------------------------------------------------------------

namespace Run

variable {run : Run} {id dep f : String}

theorem exists_hasFailed_of_skipped (hs : run.Sound)
    (hb : run.session.All fun s task p => p.Blamed s task) (hc : run.session.cancelled = false)
    (h : run.session.state? id = some .skipped) :
    ∃ dep, run.session.graph.DependsOn id dep ∧ run.session.HasFailed dep := by
  obtain ⟨p, hp, hskipped⟩ := Session.state?_eq_some.mp h
  obtain ⟨task, ht, rfl⟩ := hs.books.exists_task hp
  have hblamed := hb task ht p hp
  obtain ⟨reason, hr⟩ := Option.isSome_iff_exists.mp (hblamed.skipped.mp hskipped)
  cases reason with
  | dependencyFailed dep =>
    obtain ⟨hm, hf⟩ := hblamed.dependency hr
    refine ⟨dep, ?_, hf⟩
    rw [TaskGraph.DependsOn, TaskGraph.dependencies_of_mem hs.books.distinct ht]
    exact hm
  | cancelled =>
    have hcancelled := hblamed.cancelled hr
    rw [hc] at hcancelled
    cases hcancelled

theorem state?_of_dependsOn (hs : run.Sound)
    (he : run.session.All fun s task p => p.Enabled s task)
    (hd : run.session.graph.DependsOn id dep)
    (hdep : run.session.state? dep ≠ some .succeeded) :
    run.session.state? id = some .pending ∨ run.session.state? id = some .skipped := by
  obtain ⟨task, ht, rfl⟩ := TaskGraph.mem_ids.mp (TaskGraph.mem_ids_of_dependsOn hd)
  obtain ⟨p, hp, -⟩ := hs.books.progress ht
  rw [TaskGraph.DependsOn, TaskGraph.dependencies_of_mem hs.books.distinct ht] at hd
  rw [Session.state?_of_progress? hp]
  rcases he task ht p hp with ⟨-, -, hstate⟩ | henables
  · exact hstate.imp (congrArg some) (congrArg some)
  · exact absurd (henables dep hd) hdep

/-- The tasks that are doomed or skipped are those downstream of one that failed for good. -/
theorem reached_iff (hs : run.Sound) (hv : run.session.graph.Valid)
    (he : run.session.All fun s task p => p.Enabled s task)
    (hb : run.session.All fun s task p => p.Blamed s task) (hc : run.session.cancelled = false) :
    run.session.Doomed id ∨ run.session.state? id = some .skipped ↔
      ∃ f, run.session.state? f = some .permanentlyFailed ∧
        TransGen run.session.graph.DependsOn id f := by
  constructor
  · intro h
    -- up the dependencies, which have no cycle, until one is found that failed by itself
    induction hv.grounded id with
    | intro id _ ih =>
      have hfailed {dep : String} (hd : run.session.graph.DependsOn id dep)
          (hf : run.session.HasFailed dep) : ∃ f, run.session.state? f = some .permanentlyFailed ∧
            TransGen run.session.graph.DependsOn id f := by
        rcases hf with hf | hf
        · exact ⟨dep, hf, .single hd⟩
        · obtain ⟨f, hf, hpath⟩ := ih dep hd (.inr hf)
          exact ⟨f, hf, .head hd hpath⟩
      rcases h with h | h
      · cases h with
        | fails _ hd hf => exact hfailed hd hf
        | follows _ hd h =>
          obtain ⟨f, hf, hpath⟩ := ih _ hd (.inl h)
          exact ⟨f, hf, .head hd hpath⟩
      · obtain ⟨dep, hd, hf⟩ := exists_hasFailed_of_skipped hs hb hc h
        exact hfailed hd hf
  · rintro ⟨f, hf, hpath⟩
    -- down from the failed task; what stands on the path was never started
    induction hpath using TransGen.head_induction_on with
    | single hd =>
      refine (state?_of_dependsOn hs he hd (by simp [hf])).imp_left fun hp => ?_
      exact .fails hp hd (.inl hf)
    | head hd _ ih =>
      rcases ih with hdoomed | hskipped
      · refine (state?_of_dependsOn hs he hd (by simp [hdoomed.pending])).imp_left fun hp => ?_
        exact .follows hp hd hdoomed
      · refine (state?_of_dependsOn hs he hd (by simp [hskipped])).imp_left fun hp => ?_
        exact .fails hp hd (.inr hskipped)

end Run

namespace Opening

variable {o : Opening} {c : Course} {run : Run}

theorem Reaches.reached_iff (h : o.Reaches c) (hr : Run.Rounds c.run run)
    (hc : run.session.cancelled = false) (id : String) :
    (id ∈ run.session.propagateFailures.2.map (·.1) ∨ run.session.state? id = some .skipped) ↔
      ∃ f, run.session.state? f = some .permanentlyFailed ∧
        id ∈ run.session.graph.transitiveDependents f := by
  have hs := h.sound.run
  have hv : run.session.graph.Valid := by
    rw [hr.graph]
    exact TaskGraph.valid_of_build h.graph
  have horder : run.session.order = run.session.graph.order := by
    rw [hr.order, h.order, hr.graph]
  have he := Run.all_rounds Progress.kept_enabled hs (fun _ ht _ hp => h.enabled ht hp) hr
  have hb := Run.all_rounds Progress.kept_blamed hs (fun _ ht _ hp => h.blamed ht hp) hr
  rw [(Session.propagateFailures_exact hv horder).1, Run.reached_iff (hs.rounds hr) hv he hb hc]
  simp only [TaskGraph.mem_transitiveDependents hv.distinct]

/-- One call skips the least set of pending tasks of which a dependency failed, was skipped or is in
the set: each once, in the order of the graph, and for its first declared dependency that did not
succeed in the end. Nothing else changes, and a second call finds nothing. Wherever a run has come
to before it is cancelled, these tasks and those skipped already are all that is downstream of a
task that failed for good. -/
theorem propagation_exact :
    (∀ tasks graph, ∀ s s' : Session, ∀ skipped, TaskGraph.build tasks = .ok graph → s.graph = graph →
      s.order = graph.order → s.propagateFailures = (s', skipped) →
      IsLeast {S | s.downstream S = S} {id | id ∈ skipped.map (·.1)} ∧
        (skipped.map (·.1)).Sublist graph.order ∧ graph.InOrder [] graph.order ∧
        (∀ x ∈ skipped, s'.Blames x.1 x.2) ∧
        s' = { s with progress := s'.progress } ∧
        (∀ x ∈ skipped, s'.progress? x.1 = (s.progress? x.1).map (·.skip x.2)) ∧
        (∀ id, id ∉ skipped.map (·.1) → s'.progress? id = s.progress? id) ∧
        s'.propagateFailures = (s', [])) ∧
    ∀ o : Opening, ∀ c, o.Reaches c → ∀ run, Run.Rounds c.run run →
      run.session.cancelled = false → ∀ id,
        (id ∈ run.session.propagateFailures.2.map (·.1) ∨
            run.session.state? id = some .skipped) ↔
          ∃ f, run.session.state? f = some .permanentlyFailed ∧
            id ∈ run.session.graph.transitiveDependents f := by
  refine ⟨?_, fun o c h run hr hc id => h.reached_iff hr hc id⟩
  rintro tasks graph s s' skipped hbuild rfl ho hs
  have hv := TaskGraph.valid_of_build hbuild
  have horder := TaskGraph.inOrder_order hv
  obtain ⟨hexact, hblamed, hnone⟩ := Session.propagateFailures_exact hv ho
  obtain ⟨hfields, hsub, hskips, hkeeps⟩ := Session.skipDownstream_frame (ho ▸ horder.nodup)
  rw [← Session.propagateFailures, hs] at hfields hsub hskips hkeeps
  rw [hs] at hexact hblamed hnone
  refine ⟨?_, ho ▸ hsub, horder, hblamed, hfields, hskips, hkeeps,
    Session.skipDownstream_of_not_doomed hnone⟩
  have hset : {id | id ∈ skipped.map (·.1)} = {id | s.Doomed id} := Set.ext hexact
  rw [hset]
  exact s.isLeast_doomed

/-- When the first task of the relay has failed, the second is skipped for it, and nothing more is
skipped after that. -/
theorem relay_propagates : ∃ s', relayFailed.run.session.propagateFailures =
      (s', [("second", "first")]) ∧
    s'.Blames "second" "first" ∧ s'.propagateFailures = (s', []) ∧
    ∃ f, relayFailed.run.session.state? f = some .permanentlyFailed ∧
      "second" ∈ relayFailed.run.session.graph.transitiveDependents f := by
  have hreaches : relay.Reaches relayFailed := ⟨_, course_relay, relay_fails⟩
  have hskipped : relayFailed.run.session.propagateFailures =
      (relayFailed.run.session.propagateFailures.1, [("second", "first")]) :=
    Prod.ext rfl (by decide +kernel)
  obtain ⟨hone, hruns⟩ := propagation_exact
  obtain ⟨-, -, -, hblamed, -, -, -, hsecond⟩ :=
    hone _ _ _ _ _ hreaches.graph rfl hreaches.order hskipped
  refine ⟨_, hskipped, hblamed ("second", "first") List.mem_cons_self, hsecond, ?_⟩
  refine (hruns relay relayFailed hreaches _ .refl (by decide +kernel) "second").mp (.inl ?_)
  rw [hskipped]
  exact List.mem_cons_self

end Opening

end Crew
