import Crew.Proofs.Report.Entries
import Crew.Proofs.Run.Dependencies

/-!
# What the report of a run says

The report of an ended run has one entry for every task, in the order of submission, and its entries
and its summary agree with each other (`report_consistent`). That the fields of an entry fit
together rests on what every task's progress keeps: it has a canonical result exactly if it
succeeded, a conflict exactly if the result was contested, and an error if it failed
(`Progress.Answered`).
-/

namespace Crew

theorem Resolver.conflict_isSome_iff {resolver : Resolver} {taskId : String}
    {results : List TaskResult} {trust : TrustTable} {canonical : CanonicalResult}
    (h : resolver.resolve taskId results trust = some canonical) :
    canonical.conflict.isSome ↔
      canonical.strategy = .weightedVote ∨ canonical.strategy = .priorityFallback := by
  unfold resolve at h
  split at h
  · cases h
  · cases h
    simp [Resolver.canonical]
  · split at h
    · cases h
      simp [Resolver.canonical]
    · split at h
      · cases h
        simp [contested, Resolver.canonical]
      · obtain ⟨winner, -, rfl⟩ := Option.map_eq_some_iff.mp h
        simp [contested, Resolver.canonical]

namespace Progress

variable {s : Session} {task : Task} {p p' : Progress}

structure Answered (p : Progress) : Prop where
  canonical : p.canonical.isSome ↔ p.state = .succeeded
  conflict : ∀ {canonical}, p.canonical = some canonical → (canonical.conflict.isSome ↔
    canonical.strategy = .weightedVote ∨ canonical.strategy = .priorityFallback)
  error : p.state = .permanentlyFailed → p.error.isSome

theorem Answered.of_eq (h : p.Answered) (hs : p.state ≠ .succeeded) (hs' : p'.state ≠ .succeeded)
    (hc : p'.canonical = p.canonical) (he : p'.state = .permanentlyFailed → p'.error.isSome) :
    p'.Answered := by
  have hnone : p'.canonical = none := by
    rw [hc, ← Option.not_isSome_iff_eq_none]
    exact fun hsome => hs (h.canonical.mp hsome)
  refine ⟨⟨fun hsome => ?_, fun hsucceeded => absurd hsucceeded hs'⟩, fun hcanonical => ?_, he⟩
  · rw [hnone] at hsome
    cases hsome
  · cases hnone.symm.trans hcanonical

theorem Ending.answered {results : List TaskResult} (h : p.Ending task results p')
    (ha : p.Answered) (hp : p.state = .running) : p'.Answered := by
  have hs : p.state ≠ .succeeded := by simp [hp]
  cases h with
  | @succeed resolver trust canonical hc =>
    refine ⟨by simp [Progress.succeed], fun he => ?_, by simp [Progress.succeed]⟩
    obtain rfl : canonical = _ := by simpa [Progress.succeed] using he
    exact Resolver.conflict_isSome_iff hc
  | backOff => exact ha.of_eq hs (by simp [Progress.backOff]) rfl (by simp [Progress.backOff])
  | exhaust => exact ha.of_eq hs (by simp [Progress.fail]) rfl (by simp [Progress.fail])

theorem kept_answered : Session.Kept fun _ _ p => p.Answered where
  mono _ h := h
  round h hr := by
    cases hr with
    | same => exact h
    | skip hp =>
      exact h.of_eq (by simp [hp]) (by simp [Progress.skip]) rfl (by simp [Progress.skip])
    | release hp => exact h.of_eq (by simp [hp]) (by simp) rfl (by simp)
    | wait since hp => exact h.of_eq (by simp [hp]) (by simp [hp]) rfl (by simp [hp])
    | giveUp waited hp =>
      exact h.of_eq (by simp [hp]) (by simp [Progress.fail]) rfl (by simp [Progress.fail])
    | send hk hp =>
      exact h.of_eq (by simp [hp]) (by simp [Progress.begin]) rfl (by simp [Progress.begin])
    | withdraw hp =>
      exact h.of_eq (by simp [hp]) (by simp [Progress.begin, Progress.abort])
        (by simp [Progress.begin, Progress.abort]) (by simp [Progress.begin, Progress.abort])
  back {s task result p n p' n'} h hr := by
    have hp := hr.running
    cases hr with
    | hear =>
      exact h.of_eq (by simp [hp]) (by simp [Progress.account, hp]) rfl
        (by simp [Progress.account, hp])
    | requeue =>
      exact h.of_eq (by simp [hp]) (by simp [Progress.requeue]) rfl (by simp [Progress.requeue])
    | close _ _ _ he =>
      refine he.answered (h.of_eq (by simp [hp]) ?_ rfl ?_) hp
      · simp [Progress.account, hp]
      · simp [Progress.account, hp]
  cancel _ h := by
    unfold Progress.cancel
    split
    · exact h
    next ht => exact h.of_eq (fun hs => ht (by rw [hs]; rfl)) (by simp) rfl (by simp)

end Progress

-- ---------------------------------------------------------------------------
-- Entries
-- ---------------------------------------------------------------------------

/-- The fields of an entry fit together. -/
structure TaskReport.Coherent (e : TaskReport) : Prop where
  payload : e.status = .success ↔ e.payload.isSome
  workerId : e.status = .success ↔ e.workerId.isSome
  resolution : e.status = .success ↔ e.resolution.isSome
  skipReason : e.skipReason.isSome ↔ e.status = .skipped
  conflict : e.conflict.isSome ↔
    e.resolution = some .weightedVote ∨ e.resolution = some .priorityFallback
  succeeded : e.status = .success → e.error = none
  failed : e.status = .permanentlyFailed → e.error.isSome

section
variable {s : Session} {task : Task} {p : Progress} {id : String}

theorem TaskReport.statusOf_eq_success {state : TaskState} :
    statusOf state = .success ↔ state = .succeeded := by
  cases state <;> simp [statusOf]

theorem TaskReport.statusOf_eq_permanentlyFailed {state : TaskState} :
    statusOf state = .permanentlyFailed ↔ state = .permanentlyFailed := by
  cases state <;> simp [statusOf]

theorem TaskReport.statusOf_eq_skipped {state : TaskState} (ht : state.isTerminal) :
    statusOf state = .skipped ↔ state = .skipped := by
  cases state <;> simp_all [statusOf, TaskState.isTerminal]

theorem TaskReport.coherent_ofProgress (ha : p.Answered) (hb : p.Blamed s task)
    (ht : p.state.isTerminal) : (ofProgress id p).Coherent := by
  have hs : (ofProgress id p).status = .success ↔ p.canonical.isSome :=
    statusOf_eq_success.trans ha.canonical.symm
  refine ⟨?_, ?_, ?_, ?_, ?_, ?_, ?_⟩
  · rw [hs, ofProgress, Option.isSome_map]
  · rw [hs, ofProgress, Option.isSome_map]
  · rw [hs, ofProgress, Option.isSome_map]
  · exact hb.skipped.symm.trans (statusOf_eq_skipped ht).symm
  · cases hc : p.canonical with
    | none => simp [ofProgress, hc]
    | some canonical => simpa [ofProgress, hc] using ha.conflict hc
  · intro hsuccess
    exact if_pos hsuccess
  · intro hfailed
    have hne : (ofProgress id p).status ≠ .success := by simp [hfailed]
    have he : (ofProgress id p).error = p.error := if_neg hne
    rw [he]
    exact ha.error (statusOf_eq_permanentlyFailed.mp hfailed)

end

-- ---------------------------------------------------------------------------
-- Whole runs
-- ---------------------------------------------------------------------------

namespace Opening

variable {o : Opening} {c : Course} {task : Task} {p : Progress} {e : TaskReport}

theorem Reaches.graph (hc : o.Reaches c) : TaskGraph.build o.tasks = .ok c.run.session.graph := by
  obtain ⟨c₀, ho, hs⟩ := hc
  have hgraph := (Course.Steps.follows (sound_of_course ho) hs).graph
  obtain ⟨graph, registry, count, hg, -, -, -, rfl⟩ := course_eq_ok.mp ho
  rw [hgraph]
  exact hg

theorem Reaches.answered (hc : o.Reaches c) (ht : task ∈ c.run.session.graph.tasks)
    (hp : c.run.session.progress? task.id = some p) : p.Answered :=
  hc.all Progress.kept_answered (fun _ _ => ⟨by simp, by simp, by simp⟩) task ht p hp

theorem Reaches.complete (hc : o.Reaches c) : c.run.session.Complete := by
  intro id hid
  exact (Session.progress?_isSome_iff hc.sound.run.books.keys).mpr hid

theorem Reaches.coherent (hc : o.Reaches c) (hended : c.phase = .ended)
    (he : e ∈ (Report.ofSession c.run.session).entries) : e.Coherent := by
  obtain ⟨task, ht, p, hp, rfl⟩ := Report.exists_of_mem_entries he
  exact TaskReport.coherent_ofProgress (hc.answered ht hp) (hc.blamed ht hp)
    (hc.sound.ended hended hp)

theorem Reaches.entry_blamed (hc : o.Reaches c) (hended : c.phase = .ended)
    (hn : c.run.session.cancelled = false)
    (he : e ∈ (Report.ofSession c.run.session).entries) (hs : e.status = .skipped) :
    ∃ task ∈ o.tasks, task.id = e.taskId ∧ ∃ dep ∈ task.dependencies,
      e.skipReason = some (.dependencyFailed dep) ∧
      ∃ blamed ∈ (Report.ofSession c.run.session).entries, blamed.taskId = dep ∧
        (blamed.status = .permanentlyFailed ∨ blamed.status = .skipped) := by
  obtain ⟨task, ht, p, hp, rfl⟩ := Report.exists_of_mem_entries he
  have hb := hc.blamed ht hp
  obtain ⟨reason, hr⟩ := Option.isSome_iff_exists.mp
    (hb.skipped.mp ((TaskReport.statusOf_eq_skipped (hc.sound.ended hended hp)).mp hs))
  cases reason with
  | cancelled =>
    have hcancelled := hb.cancelled hr
    rw [hn] at hcancelled
    cases hcancelled
  | dependencyFailed dep =>
    obtain ⟨hd, hf⟩ := hb.dependency hr
    rw [(TaskGraph.build_eq_ok hc.graph).2] at ht
    obtain ⟨submitted, hm, rfl⟩ := List.mem_map.mp ht
    refine ⟨submitted, hm, rfl, dep, List.mem_eraseDups.mp hd, hr, ?_⟩
    obtain ⟨q, hq, hstatus⟩ : ∃ q, c.run.session.progress? dep = some q ∧
        (TaskReport.statusOf q.state = .permanentlyFailed ∨
          TaskReport.statusOf q.state = .skipped) := by
      rcases hf with hf | hf
      · obtain ⟨q, hq, hstate⟩ := Session.state?_eq_some.mp hf
        exact ⟨q, hq, .inl (by rw [hstate]; rfl)⟩
      · obtain ⟨q, hq, hstate⟩ := Session.state?_eq_some.mp hf
        exact ⟨q, hq, .inr (by rw [hstate]; rfl)⟩
    have hid := (Session.progress?_isSome_iff hc.sound.run.books.keys).mp (by rw [hq]; rfl)
    exact ⟨_, Report.mem_entries.mpr ⟨dep, q, hid, hq, rfl⟩, rfl, hstatus⟩

/-- The report of an ended run has every submitted task once and in order, its summary counts its
entries, the fields of each entry fit together, and without a cancellation every skipped task has a
dependency that is itself reported as failed or skipped. -/
theorem report_consistent (hc : o.Reaches c) (hended : c.phase = .ended) (started : Nat) :
    let report := (Coordinator.finish c.run c.registry started c.now).1
    report.entries.map (·.taskId) = o.tasks.map (·.id) ∧ (o.tasks.map (·.id)).Nodup ∧
    report.summary.totalTasks = report.entries.length ∧
    report.summary.succeeded + report.summary.permanentlyFailed + report.summary.skipped =
      report.summary.totalTasks ∧
    report.summary.succeeded = (report.entries.filter (·.status = .success)).length ∧
    report.summary.permanentlyFailed =
      (report.entries.filter (·.status = .permanentlyFailed)).length ∧
    report.summary.skipped = (report.entries.filter (·.status = .skipped)).length ∧
    report.summary.totalAttempts = (report.entries.map (·.attempts)).sum ∧
    report.summary.totalRetries = (o.tasks.map fun task =>
      ((c.run.session.progress? task.id).getD {}).retriesUsed).sum ∧
    report.summary.conflicts = (report.entries.filter (·.conflict.isSome)).length ∧
    (report.summary.resolutions.map (·.2)).sum = report.summary.succeeded ∧
    (report.summary.resolutions.map (·.1)).Nodup ∧
    (∀ strategy n, (strategy, n) ∈ report.summary.resolutions ↔
      n ≠ 0 ∧ n = (report.entries.filter (·.resolution = some strategy)).length) ∧
    (∀ e ∈ report.entries, e.Coherent) ∧
    (report.cancelled = false → ∀ e ∈ report.entries, e.status = .skipped →
      ∃ task ∈ o.tasks, task.id = e.taskId ∧ ∃ dep ∈ task.dependencies,
        e.skipReason = some (.dependencyFailed dep) ∧
        ∃ blamed ∈ report.entries, blamed.taskId = dep ∧
          (blamed.status = .permanentlyFailed ∨ blamed.status = .skipped)) := by
  intro report
  have hids := TaskGraph.ids_of_build hc.graph
  have hentries : report.entries.map (·.taskId) = c.run.session.graph.ids :=
    Report.map_taskId_entries hc.complete
  have htotal : report.summary.totalTasks = report.entries.length := by
    rw [← List.length_map (f := TaskReport.taskId), hentries]
    exact (List.length_map _).symm
  refine ⟨hentries.trans hids, hids ▸ TaskGraph.nodup_ids_of_build hc.graph, htotal,
    (Report.countStatus_add _).trans htotal.symm, rfl, rfl, rfl, ?_, ?_, rfl, ?_,
    Report.nodup_countResolutions, fun strategy n => Report.mem_countResolutions,
    fun e he => hc.coherent hended he, fun hn e he hs => hc.entry_blamed hended hn he hs⟩
  · have hrows : report.entries =
        c.run.session.rows.map fun row => TaskReport.ofProgress row.1 row.2 := rfl
    rw [hrows, List.map_map]
    exact Session.foldl_rows (·.attempts)
  · refine (Session.foldl_rows (·.retriesUsed)).trans ?_
    rw [Session.map_snd_rows (·.retriesUsed) hc.complete, hids, List.map_map]
    rfl
  · refine (Report.sum_countResolutions _).trans (congrArg List.length ?_)
    refine List.filter_congr fun e he => ?_
    rw [Bool.eq_iff_iff, decide_eq_true_eq]
    exact (hc.coherent hended he).resolution.symm

/-- The relay ends with one task that failed and one that was skipped for it. -/
theorem report_relay :
    let report := (Coordinator.finish relayEnded.run relayEnded.registry 0 relayEnded.now).1
    report.entries.map (·.taskId) = ["first", "second"] ∧
      report.entries.map (·.status) = [.permanentlyFailed, .skipped] ∧
      ∀ e ∈ report.entries, e.Coherent := by
  obtain ⟨hids, -, -, -, -, -, -, -, -, -, -, -, -, hcoherent, -⟩ :=
    report_consistent ⟨_, course_relay, relay_ends⟩ rfl 0
  exact ⟨hids, by decide +kernel, hcoherent⟩

end Opening

end Crew
