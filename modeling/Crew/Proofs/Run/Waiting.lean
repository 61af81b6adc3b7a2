import Crew.Proofs.Run.Downstream

/-!
# What a waiting run waits for

When a run goes to wait, no task is left pending behind one that failed or was skipped, because the
last thing a pass does is to skip those. Since no dependencies go round in a circle, every task that
has not ended then has a task at or above it that the run itself brings forward
(`Session.moving_or_above`). Tasks never wait for each other only (`never_stuck`).
-/

namespace Crew

open Relation (TransGen)

namespace Session

variable {s : Session} {id : String} {state : TaskState}

/-- A task that does not wait for any other: it runs, it backs off, or it may be sent out. -/
inductive Moving (s : Session) (id : String) : Prop
  | runs (h : s.state? id = some .running)
  | backsOff {expiry : Nat} (h : s.state? id = some (.backoff expiry))
  | mayRun (h : s.state? id = some .pending)
      (hd : ∀ dep, s.graph.DependsOn id dep → s.state? dep = some .succeeded)

theorem open_of_not_doomed {dep : String} (hv : s.graph.Valid) (hc : s.Complete)
    (hp : s.state? id = some .pending) (hnone : ¬ s.Doomed id) (hd : s.graph.DependsOn id dep)
    (hs : s.state? dep ≠ some .succeeded) :
    ∃ state, s.state? dep = some state ∧ state.isTerminal = false := by
  obtain ⟨q, hq⟩ := Option.isSome_iff_exists.mp (hc dep (hv.known _ _ hd))
  have hstate := state?_of_progress? hq
  refine ⟨q.state, hstate, ?_⟩
  cases hcase : q.state with
  | pending => rfl
  | running => rfl
  | backoff expiry => rfl
  | succeeded => exact absurd (hstate.trans (congrArg some hcase)) hs
  | permanentlyFailed =>
    exact absurd (.fails hp hd (.inl (hstate.trans (congrArg some hcase)))) hnone
  | skipped => exact absurd (.fails hp hd (.inr (hstate.trans (congrArg some hcase)))) hnone

theorem moving_or_above (hv : s.graph.Valid) (hc : s.Complete) (hnone : ∀ id, ¬ s.Doomed id)
    (hs : s.state? id = some state) (ht : state.isTerminal = false) :
    s.Moving id ∨ ∃ above, TransGen s.graph.DependsOn id above ∧ s.Moving above := by
  -- up the dependencies, which have no cycle, until one is found that waits for none
  induction hv.grounded id generalizing state with
  | intro id _ ih =>
    cases state with
    | running => exact .inl (.runs hs)
    | backoff expiry => exact .inl (.backsOff hs)
    | succeeded | permanentlyFailed | skipped => cases ht
    | pending =>
      by_cases hall : ∀ dep, s.graph.DependsOn id dep → s.state? dep = some .succeeded
      · exact .inl (.mayRun hs hall)
      · push Not at hall
        obtain ⟨dep, hd, hdep⟩ := hall
        obtain ⟨q, hq, hopen⟩ := open_of_not_doomed hv hc hs (hnone id) hd hdep
        rcases ih dep hd hq hopen with hmoves | ⟨above, hpath, hmoves⟩
        · exact .inr ⟨dep, .single hd, hmoves⟩
        · exact .inr ⟨above, .head hd hpath, hmoves⟩

theorem progress?_of_mem_rows {row : String × Progress} (hn : s.progress.keys.Nodup)
    (h : row ∈ s.progress.rows) : s.progress? row.1 = some row.2 :=
  congrArg (Option.map Prod.snd) (find?_of_nodup_map hn h)

theorem exists_open (h : s.isFinished = false) (hn : s.progress.keys.Nodup) :
    ∃ id state, s.state? id = some state ∧ state.isTerminal = false := by
  simp only [isFinished, Table.values, List.all_map, List.all_eq_false, Function.comp_apply,
    Bool.not_eq_true] at h
  obtain ⟨row, hr, hopen⟩ := h
  exact ⟨row.1, row.2.state, state?_of_progress? (progress?_of_mem_rows hn hr), hopen⟩

/-- Unless all tasks have ended, one of them waits for no other. -/
theorem exists_moving (hv : s.graph.Valid) (hc : s.Complete) (hn : s.progress.keys.Nodup)
    (hnone : ∀ id, ¬ s.Doomed id) (hopen : s.isFinished = false) : ∃ id, s.Moving id := by
  obtain ⟨id, state, hs, ht⟩ := exists_open hopen hn
  rcases moving_or_above hv hc hnone hs ht with h | ⟨above, -, h⟩
  · exact ⟨id, h⟩
  · exact ⟨above, h⟩

end Session

-- ---------------------------------------------------------------------------
-- Runs that wait
-- ---------------------------------------------------------------------------

theorem Run.session_pass (run : Run) (reg : Registry) (now : Nat)
    (hn : run.session.graph.ids.Nodup) : ∃ sent, Run.Rounds run sent ∧
      (run.pass reg now).1.session = sent.session.propagateFailures.1 := by
  have hprepare := run.prepare_rounds reg now
  have hsent := (Run.dispatchReady_rounds (run.prepare reg now).1 (run.prepare reg now).2 now
    (by rw [Run.Rounds.graph hprepare]; exact hn)).1
  refine ⟨_, hprepare.trans hsent, ?_⟩
  rw [Run.pass_eq]
  dsimp only
  rw [Run.session_observeScaling]
  rfl

namespace Opening

variable {o : Opening} {c : Course}

theorem Reaches.valid (h : o.Reaches c) : c.run.session.graph.Valid :=
  TaskGraph.valid_of_build h.graph

theorem Reaches.not_doomed_pass (h : o.Reaches c) (id : String) :
    ¬ c.pass.run.session.Doomed id := by
  obtain ⟨sent, hr, hsession⟩ := c.run.session_pass c.registry c.now h.valid.distinct
  have hv : sent.session.graph.Valid := by
    rw [hr.graph]
    exact h.valid
  have horder : sent.session.order = sent.session.graph.order := by
    rw [hr.order, h.order, hr.graph]
  have hpass : c.pass.run.session = sent.session.propagateFailures.1 := hsession
  rw [hpass]
  exact (Session.propagateFailures_exact hv horder).2.2 id

/-- A run goes to wait from a pass only, and whatever happens around it leaves its tasks alone. -/
theorem Reaches.waits (h : o.Reaches c) (hw : c.phase = .wait) :
    c.run.session.isFinished = false ∧ ∀ id, ¬ c.run.session.Doomed id := by
  obtain ⟨c₀, ho, hs⟩ := h
  induction hs with
  | refl =>
    obtain ⟨graph, registry, count, -, -, -, -, rfl⟩ := course_eq_ok.mp ho
    cases hw
  | @tail c₁ c₂ hs hr ih =>
    cases hr with
    | own hown =>
      cases hown with
      | pass =>
        have h₁ : o.Reaches c₁ := ⟨c₀, ho, hs⟩
        refine ⟨?_, h₁.not_doomed_pass⟩
        rw [Course.phase_pass] at hw
        split at hw
        · cases hw
        next hf => simpa using hf
      | complete | wake | leave | stop => cases hw
    | cancels | advances | meddles => exact ih hw

/-- Wherever a run goes to wait, some task runs, backs off or has all its dependencies succeeded,
and every other pending task has such a task upstream. -/
theorem never_stuck (h : o.Reaches c) (hw : c.phase = .wait) :
    c.run.session.isFinished = false ∧
    (∃ id, c.run.session.Moving id) ∧
    ∀ id, c.run.session.state? id = some .pending → c.run.session.Moving id ∨
      ∃ above, TransGen c.run.session.graph.DependsOn id above ∧ c.run.session.Moving above := by
  obtain ⟨hopen, hnone⟩ := h.waits hw
  refine ⟨hopen, Session.exists_moving h.valid h.complete ?_ hnone hopen, fun id hp =>
    Session.moving_or_above h.valid h.complete hnone hp rfl⟩
  rw [h.sound.run.books.keys]
  exact h.valid.distinct

/-- While the first task of the relay runs, the second waits for it. -/
theorem relay_waits : relayStart.pass.phase = .wait ∧
    relayStart.pass.run.session.state? "second" = some .pending ∧
    ∃ above, TransGen relayStart.pass.run.session.graph.DependsOn "second" above ∧
      relayStart.pass.run.session.Moving above := by
  have hw : relayStart.pass.phase = .wait := by decide +kernel
  have hp : relayStart.pass.run.session.state? "second" = some .pending := by decide +kernel
  have hfirst : relayStart.pass.run.session.state? "first" = some .running := by decide +kernel
  have hd : relayStart.pass.run.session.graph.DependsOn "second" "first" := by
    change "first" ∈ relayStart.pass.run.session.graph.dependencies "second"
    decide +kernel
  refine ⟨hw, hp, ?_⟩
  rcases (never_stuck ⟨_, course_relay, relay_sends⟩ hw).2.2 "second" hp with hmoves | h
  · cases hmoves with
    | runs h => cases hp.symm.trans h
    | backsOff h => cases hp.symm.trans h
    | mayRun _ h => cases hfirst.symm.trans (h "first" hd)
  · exact h

end Opening

end Crew
