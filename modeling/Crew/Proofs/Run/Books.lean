import Crew.Proofs.Run.Tasks

/-!
# The books of a run stay in order

Every part of a pass, every end of a call and a cancellation keep the books of the session in
agreement (`Books.round`, `Books.return`, `Books.cancel`).
-/

namespace Crew

-- ---------------------------------------------------------------------------
-- The books of one task
-- ---------------------------------------------------------------------------

namespace Progress

variable {s : Session} {task : Task} {p p' : Progress} {n n' : Nat} {results : List TaskResult}

/-- What is outstanding of a task are its calls in flight, and it runs while there are any. -/
def Counts (p : Progress) (n : Nat) : Prop := p.outstanding = n ∧ (p.state = .running ↔ 0 < n)

theorem Counts.idle (h : p.Counts n) (hs : p.state ≠ .running) : n = 0 :=
  Nat.eq_zero_of_not_pos fun hn => hs (h.2.mpr hn)

theorem Counts.of_idle (ho : p.outstanding = 0) (hs : p.state ≠ .running) : p.Counts 0 :=
  ⟨ho, fun h => absurd h hs, fun h => absurd h (Nat.lt_irrefl 0)⟩

theorem Round.counts (h : p.Round s task n p' n') (hc : p.Counts n) : p'.Counts n' := by
  cases h with
  | same => exact hc
  | skip hp hm hd =>
    obtain rfl := hc.idle (by simp [hp])
    exact .of_idle hc.1 (by simp [Progress.skip])
  | release hp =>
    obtain rfl := hc.idle (by simp [hp])
    exact .of_idle hc.1 (by simp)
  | wait since hp he => exact hc
  | giveUp waited hp he =>
    obtain rfl := hc.idle (by simp [hp])
    exact .of_idle hc.1 (by simp [Progress.fail])
  | send hk hp he =>
    obtain rfl := hc.idle (by simp [hp])
    exact ⟨(Nat.zero_add _).symm, fun _ => by omega, fun _ => rfl⟩
  | withdraw hp he =>
    obtain rfl := hc.idle (by simp [hp])
    exact .of_idle (by simp [Progress.begin, Progress.abort])
      (by simp [Progress.begin, Progress.abort])

theorem Ending.outstanding (h : p.Ending task results p') : p'.outstanding = p.outstanding := by
  cases h <;> rfl

theorem Ending.not_running (h : p.Ending task results p') : p'.state ≠ .running := by
  cases h <;> simp [Progress.succeed, Progress.backOff, Progress.fail]

theorem Return.counts {result : Option TaskResult} (h : p.Return task result n p' n')
    (hc : p.Counts n) : p'.Counts n' := by
  cases h with
  | hear hp hn => exact ⟨congrArg (· - 1) hc.1, fun _ => by omega, fun _ => hp⟩
  | requeue hp hn hb =>
    refine .of_idle ?_ (by simp [Progress.requeue])
    simp [Progress.requeue, Progress.account, hc.1, hn]
  | close hp hn hb he =>
    refine .of_idle ?_ he.not_running
    rw [he.outstanding]
    simp [Progress.account, hc.1, hn]

theorem Counts.cancel (h : p.Counts n) : p.cancel.Counts 0 := by
  unfold Progress.cancel
  split
  next ht =>
    have hs : p.state ≠ .running := fun hs => by simp [hs, TaskState.isTerminal] at ht
    obtain rfl := h.idle hs
    exact h
  · exact .of_idle rfl (by simp)

end Progress

-- ---------------------------------------------------------------------------
-- The books of a session
-- ---------------------------------------------------------------------------

namespace Run

variable {run run' : Run} {task : Task} {now attempt : Nat}

theorem numbered_place (lease : Lease) (h : run.session.Numbered) :
    (place task attempt now run lease).session.Numbered := by
  constructor
  · intro a ha
    rcases List.mem_append.mp ha with ha | ha
    · exact Nat.le_succ_of_le (h.le a ha)
    · obtain rfl := List.mem_singleton.mp ha
      exact Nat.le_refl _
  · have hin : (place task attempt now run lease).session.inFlight = run.session.inFlight ++
        [⟨run.session.lastAssignment + 1, task.id, lease.workerId, attempt, now⟩] := rfl
    rw [hin, List.map_append]
    refine List.nodup_append.mpr ⟨h.unique, by simp, ?_⟩
    intro n hn m hm
    obtain ⟨a, ha, rfl⟩ := List.mem_map.mp hn
    obtain rfl := List.mem_singleton.mp hm
    exact Nat.ne_of_lt (Nat.lt_succ_of_le (h.le a ha))

theorem numbered_foldl_place (leases : List Lease) (h : run.session.Numbered) :
    (leases.foldl (place task attempt now) run).session.Numbered := by
  induction leases generalizing run with
  | nil => exact h
  | cons lease rest ih => exact ih (numbered_place lease h)

theorem mem_inFlight_foldl_place {a : Assignment} (leases : List Lease) (run : Run)
    (h : a ∈ (leases.foldl (place task attempt now) run).session.inFlight) :
    a ∈ run.session.inFlight ∨ a.taskId = task.id := by
  induction leases generalizing run with
  | nil => exact .inl h
  | cons lease rest ih =>
    rcases ih _ h with hm | hm
    · rcases List.mem_append.mp hm with hm | hm
      · exact .inl hm
      · obtain rfl := List.mem_singleton.mp hm
        exact .inr rfl
    · exact .inr hm

theorem keys_foldl_place (leases : List Lease) :
    (leases.foldl (place task attempt now) run).session.progress.keys =
      run.session.progress.keys := by
  induction leases generalizing run with
  | nil => rfl
  | cons lease rest ih => exact ih.trans (Session.keys_update _ _ _)

theorem Turn.keys (h : Turn run task now run') :
    run'.session.progress.keys = run.session.progress.keys := by
  have hm : (run.session.markWaiting task.id now).1.progress.keys = run.session.progress.keys := by
    unfold Session.markWaiting
    split
    · rfl
    · exact Session.keys_update _ _ _
  have ho : (run.opened task).session.progress.keys = run.session.progress.keys :=
    (Session.keys_update _ _ _).trans (Session.keys_update _ _ _)
  cases h with
  | waits => exact Session.keys_update _ _ _
  | lacks => exact hm
  | givesUp => exact (Session.keys_update _ _ _).trans hm
  | sends => exact (keys_foldl_place _).trans ho
  | withdraws => exact (Session.keys_update _ _ _).trans ho

theorem Turn.numbered (h : Turn run task now run') (hn : run.session.Numbered) :
    run'.session.Numbered := by
  cases h with
  | waits => exact ⟨hn.le, hn.unique⟩
  | lacks => unfold Session.markWaiting; split <;> exact ⟨hn.le, hn.unique⟩
  | givesUp => unfold Session.markWaiting; split <;> exact ⟨hn.le, hn.unique⟩
  | sends => exact numbered_foldl_place _ ⟨hn.le, hn.unique⟩
  | withdraws => exact ⟨hn.le, hn.unique⟩

theorem Turn.mem_inFlight {a : Assignment} (h : Turn run task now run')
    (ha : a ∈ run'.session.inFlight) : a ∈ run.session.inFlight ∨ a.taskId = task.id := by
  cases h with
  | waits => exact .inl ha
  | lacks =>
    unfold Session.markWaiting at ha
    split at ha <;> exact .inl ha
  | givesUp =>
    unfold Session.markWaiting at ha
    split at ha <;> exact .inl ha
  | sends => exact mem_inFlight_foldl_place _ (run.opened task) ha
  | withdraws => exact .inl ha

theorem Round.keys (h : Round run run') :
    run'.session.progress.keys = run.session.progress.keys := by
  cases h with
  | skips => exact Session.keys_update _ _ _
  | releases => exact Table.keys_map _ _
  | learns => rfl
  | turns hm hr ht => exact ht.keys
  | looks => rfl

theorem Round.numbered (h : Round run run') (hn : run.session.Numbered) :
    run'.session.Numbered := by
  cases h with
  | turns hm hr ht => exact ht.numbered hn
  | _ => exact ⟨hn.le, hn.unique⟩

theorem Round.mem_inFlight {a : Assignment} (h : Round run run')
    (ha : a ∈ run'.session.inFlight) :
    a ∈ run.session.inFlight ∨ a.taskId ∈ run.session.graph.ids := by
  cases h with
  | turns hm hr ht =>
    rcases ht.mem_inFlight ha with h | h
    · exact .inl h
    · rw [h]
      exact .inr (List.mem_map_of_mem hm)
  | _ => exact .inl ha

end Run

namespace Session

variable {s s' : Session} {run run' : Run}

theorem Books.of_counts (hn : s.Numbered) (hk : s.progress.keys = s.graph.ids)
    (hd : s.graph.ids.Nodup) (hm : ∀ a ∈ s.inFlight, a.taskId ∈ s.graph.ids)
    (hc : ∀ task ∈ s.graph.tasks, ∃ p, s.progress? task.id = some p ∧
      p.Counts (s.callsOf task.id)) : s.Books := by
  have hall {id : String} {p : Progress} (hp : s.progress? id = some p) :
      p.Counts (s.callsOf id) := by
    obtain ⟨task, ht, rfl⟩ := TaskGraph.mem_ids.mp
      ((progress?_isSome_iff hk).mp (by rw [hp]; rfl) : id ∈ s.graph.ids)
    obtain ⟨q, hq, hcounts⟩ := hc task ht
    obtain rfl : q = p := Option.some.inj (hq.symm.trans hp)
    exact hcounts
  exact { hn with
    keys := hk, distinct := hd, known := hm
    outstanding := fun hp => (hall hp).1, running := fun hp => (hall hp).2 }

theorem Books.progress (hb : s.Books) {task : Task} (ht : task ∈ s.graph.tasks) :
    ∃ p, s.progress? task.id = some p ∧ p.Counts (s.callsOf task.id) := by
  obtain ⟨p, hp⟩ := Option.isSome_iff_exists.mp
    ((progress?_isSome_iff hb.keys).mpr (List.mem_map_of_mem ht))
  exact ⟨p, hp, hb.outstanding hp, hb.running hp⟩

theorem Books.round (hb : run.session.Books) (h : Run.Round run run') : run'.session.Books := by
  refine .of_counts (h.numbered hb.toNumbered) ?_ ?_ ?_ ?_
  · rw [h.keys, h.graph, hb.keys]
  · rw [h.graph]
    exact hb.distinct
  · intro a ha
    rw [h.graph]
    exact (h.mem_inFlight ha).elim (hb.known a) id
  · intro task ht
    rw [h.graph] at ht
    obtain ⟨p, hp, hc⟩ := hb.progress ht
    obtain ⟨p', hp', hr⟩ := h.progress hb.distinct ht hp
    exact ⟨p', hp', hr.counts hc⟩

theorem Books.return {a : Assignment} {result : Option TaskResult} (hb : run.session.Books)
    (h : Run.Return run a.id result run') (ha : a ∈ run.session.inFlight) :
    run'.session.Books := by
  obtain ⟨hg, hk, hf, hl, -, -⟩ := h.fields
  refine .of_counts ⟨?_, ?_⟩ ?_ ?_ ?_ ?_
  · rw [hf, hl]
    exact fun b hm => hb.le b (List.mem_of_mem_filter hm)
  · rw [hf]
    exact hb.unique.sublist (List.filter_sublist.map _)
  · rw [hk, hg, hb.keys]
  · rw [hg]
    exact hb.distinct
  · rw [hf, hg]
    exact fun b hm => hb.known b (List.mem_of_mem_filter hm)
  · intro task ht
    rw [hg] at ht
    obtain ⟨p, hp, hc⟩ := hb.progress ht
    by_cases hid : a.taskId = task.id
    · obtain ⟨p', hp', hr⟩ := h.progress hb ha ht hid hp
      exact ⟨p', hp', hr.counts hc⟩
    · refine ⟨p, (h.progress?_ne hb ha (Ne.symm hid)).trans hp, ?_⟩
      have hcalls := h.callsOf hb ha task.id
      rw [if_neg hid] at hcalls
      rw [← hcalls] at hc
      exact hc

theorem Books.cancel (hb : s.Books) : s.cancel.Books := by
  refine .of_counts ⟨?_, ?_⟩ ?_ hb.distinct ?_ ?_
  · exact List.forall_mem_nil _
  · exact List.nodup_nil
  · exact (Table.keys_map _ _).trans hb.keys
  · exact List.forall_mem_nil _
  · intro task ht
    obtain ⟨p, hp, hc⟩ := hb.progress ht
    exact ⟨p.cancel, by rw [progress?_cancel, hp]; rfl, hc.cancel⟩

theorem progress?_start {runId id : String} {graph : TaskGraph} {trust : TrustTable} {p : Progress}
    (h : (Session.start runId graph trust).progress? id = some p) : p = {} := by
  obtain ⟨row, hr, rfl⟩ := Option.map_eq_some_iff.mp h
  obtain ⟨other, -, rfl⟩ := List.mem_map.mp (List.mem_of_find?_eq_some hr)
  rfl

theorem Books.start {runId : String} {graph : TaskGraph} {trust : TrustTable}
    (hn : graph.ids.Nodup) : (Session.start runId graph trust).Books := by
  have hkeys : (Session.start runId graph trust).progress.keys = graph.ids := by
    simp [Session.start, Table.keys, Function.comp_def]
  refine .of_counts ⟨?_, List.nodup_nil⟩ hkeys hn ?_ ?_
  · exact List.forall_mem_nil _
  · exact List.forall_mem_nil _
  · intro task ht
    obtain ⟨p, hp⟩ := Option.isSome_iff_exists.mp
      ((progress?_isSome_iff hkeys).mpr (List.mem_map_of_mem (f := Task.id) ht))
    obtain rfl := progress?_start hp
    exact ⟨_, hp, .of_idle rfl (by simp)⟩

end Session

end Crew
