import Crew.Proofs.Graph.Levels
import Crew.Proofs.Run.Queues

/-!
# Fair dispatch

The ready tasks have their turns in a strict order, and what workers and slots could do is done
(`dispatchReady_fair`). Offers and free slots only go while tasks are sent out, all at one time, so
a task that was passed over while a later one was sent out had no worker, and the later one needed
other workers. For the same reason nobody is left to be sent out in the end. Turns make no task
ready, so those that are left are the ready tasks afterwards.
-/

namespace Crew

namespace Task

variable {a b : Task}

/-- The one task has its turn before the other. -/
def Outranks (a b : Task) : Prop :=
  b.priority.rank < a.priority.rank ∨ a.priority = b.priority ∧ a.id < b.id

theorem precedes_iff :
    a.precedes b ↔ b.priority.rank < a.priority.rank ∨
      a.priority.rank = b.priority.rank ∧ a.id ≤ b.id := by
  simp only [precedes, Bool.or_eq_true, Bool.and_eq_true, decide_eq_true_eq, beq_iff_eq,
    Bool.not_eq_true', decide_eq_false_iff_not, String.not_lt]

theorem precedes_trans (a b c : Task) (hab : a.precedes b) (hbc : b.precedes c) :
    a.precedes c := by
  rw [precedes_iff] at *
  rcases hab with hab | ⟨hab, hle⟩ <;> rcases hbc with hbc | ⟨hbc, hle'⟩
  · exact .inl (hbc.trans hab)
  · exact .inl (hbc ▸ hab)
  · exact .inl (hab ▸ hbc)
  · exact .inr ⟨hab.trans hbc, String.le_trans hle hle'⟩

theorem precedes_total (a b : Task) : a.precedes b || b.precedes a := by
  rw [Bool.or_eq_true, precedes_iff, precedes_iff]
  rcases Nat.lt_trichotomy a.priority.rank b.priority.rank with h | h | h
  · exact .inr (.inl h)
  · rcases String.le_total a.id b.id with hle | hle
    · exact .inl (.inr ⟨h, hle⟩)
    · exact .inr (.inr ⟨h.symm, hle⟩)
  · exact .inl (.inl h)

theorem outranks_of_precedes (h : a.precedes b) (hne : a.id ≠ b.id) : a.Outranks b := by
  rcases precedes_iff.mp h with hrank | ⟨hrank, hle⟩
  · exact .inl hrank
  · refine .inr ⟨Priority.rank_injective hrank, String.not_le.mp fun hge => ?_⟩
    exact hne (String.le_antisymm hle hge)

end Task

namespace Session

variable {s : Session} {id : String}

def succeeded (s : Session) : List String :=
  s.progress.keys.filter fun id => s.state? id = some .succeeded

theorem mem_succeeded : id ∈ s.succeeded ↔ s.state? id = some .succeeded := by
  simp only [succeeded, List.mem_filter, decide_eq_true_eq, and_iff_right_iff_imp]
  intro hstate
  obtain ⟨p, hp, -⟩ := state?_eq_some.mp hstate
  exact (Table.contains_iff_mem_keys _ _).mp (Option.isSome_iff_exists.mpr ⟨p, hp⟩)

-- ---------------------------------------------------------------------------
-- Ready tasks
-- ---------------------------------------------------------------------------

theorem pairwise_outranks (hn : s.graph.ids.Nodup) : s.readyTasks.Pairwise Task.Outranks := by
  have hsorted : s.readyTasks.Pairwise fun a b => a.precedes b :=
    List.pairwise_mergeSort Task.precedes_trans Task.precedes_total _
  have hids : s.readyTasks.Pairwise fun a b => a.id ≠ b.id :=
    List.pairwise_map.mp (Run.nodup_readyTasks hn)
  exact (hsorted.and hids).imp fun h => Task.outranks_of_precedes h.1 h.2

theorem readyTasks_perm (hn : s.graph.ids.Nodup) : (s.readyTasks.map (·.id)).Perm
    ((s.graph.readySet s.succeeded).filter fun id => s.state? id = some .pending) := by
  have hdue := (TaskGraph.readySet_perm hn s.succeeded).filter fun id => s.state? id = some .pending
  have hnodup : ((s.graph.due s.succeeded).filter fun id => s.state? id = some .pending).Nodup :=
    (hn.filter _).filter _
  refine ((List.perm_ext_iff_of_nodup (Run.nodup_readyTasks hn) hnodup).mpr fun id => ?_).trans
    hdue.symm
  rw [List.mem_map, List.mem_filter, decide_eq_true_eq]
  constructor
  · rintro ⟨task, hmem, rfl⟩
    obtain ⟨ht, hready⟩ := Run.mem_readyTasks.mp hmem
    obtain ⟨hpending, hdeps⟩ := isReady_iff.mp hready
    refine ⟨TaskGraph.mem_due.mpr ⟨List.mem_map_of_mem ht, fun hdone => ?_, fun dep hdep => ?_⟩,
      hpending⟩
    · rw [mem_succeeded, hpending] at hdone
      cases hdone
    · rw [TaskGraph.DependsOn, TaskGraph.dependencies_of_mem hn ht] at hdep
      exact mem_succeeded.mpr (hdeps dep hdep)
  · rintro ⟨hdue, hpending⟩
    obtain ⟨hid, -, hdeps⟩ := TaskGraph.mem_due.mp hdue
    obtain ⟨task, ht, rfl⟩ := TaskGraph.mem_ids.mp hid
    simp only [TaskGraph.DependsOn, TaskGraph.dependencies_of_mem hn ht] at hdeps
    have henables : s.Enables task := fun dep hdep => mem_succeeded.mp (hdeps dep hdep)
    exact ⟨task, Run.mem_readyTasks.mpr ⟨ht, isReady_iff.mpr ⟨hpending, henables⟩⟩, rfl⟩

end Session

namespace Run

variable {run run' run₁ : Run} {reg : Registry} {task : Task} {tasks rest : List Task} {now : Nat}
  {p : Progress} {waits : Bool}

-- ---------------------------------------------------------------------------
-- What turns leave behind
-- ---------------------------------------------------------------------------

theorem Upshot.pending_iff (h : Upshot run reg task now p run' waits) (hp : p.state = .pending) :
    run'.session.state? task.id = some .pending ↔ waits = true := by
  cases h with
  | sent _ _ _ _ _ progress | givenUp _ _ _ progress =>
    rw [Session.state?, progress]
    refine iff_of_false (fun h => ?_) Bool.false_ne_true
    cases h
  | held _ _ _ progress | marked _ _ _ progress =>
    rw [Session.state?, progress]
    exact iff_of_true (congrArg some hp) rfl

theorem Upshot.not_succeeded (h : Upshot run reg task now p run' waits) (hp : p.state = .pending) :
    run'.session.state? task.id ≠ some .succeeded := by
  cases h with
  | sent _ _ _ _ _ progress | givenUp _ _ _ progress =>
    rw [Session.state?, progress]
    intro h
    cases h
  | held _ _ _ progress | marked _ _ _ progress =>
    rw [Session.state?, progress, Option.map_some, hp]
    intro h
    cases h

/-- No task has become pending, and none has succeeded. -/
structure Narrows (run run' : Run) : Prop where
  graph : run'.session.graph = run.session.graph
  succeeded : ∀ id,
    run'.session.state? id = some .succeeded ↔ run.session.state? id = some .succeeded
  pending : ∀ id, run'.session.state? id = some .pending → run.session.state? id = some .pending

theorem Narrows.refl (run : Run) : Narrows run run := ⟨rfl, fun _ => .rfl, fun _ => id⟩

theorem Narrows.trans (h : Narrows run run₁) (h' : Narrows run₁ run') : Narrows run run' :=
  ⟨h'.graph.trans h.graph, fun id => (h'.succeeded id).trans (h.succeeded id),
    fun id hid => h.pending id (h'.pending id hid)⟩

theorem dispatchTask_narrows (hr : run.session.isReady task) :
    Narrows run (run.dispatchTask reg task now).1 := by
  have hturn := run.dispatchTask_turn reg task now
  have hpending := (Session.isReady_iff.mp hr).1
  obtain ⟨p, hp, hstate⟩ := Session.state?_eq_some.mp hpending
  have hupshot := run.dispatchTask_upshot reg now hp
  have hother {id : String} (hne : id ≠ task.id) :
      (run.dispatchTask reg task now).1.session.state? id = run.session.state? id :=
    congrArg (Option.map _) (hturn.progress?_ne hne)
  refine ⟨hturn.graph, fun id => ?_, fun id hid => ?_⟩
  · by_cases hid : id = task.id
    · subst hid
      rw [hpending]
      exact iff_of_false (hupshot.not_succeeded hstate) nofun
    · rw [hother hid]
  · by_cases he : id = task.id
    · rwa [he]
    · rwa [← hother he]

theorem Narrows.readyTasks_perm (h : Narrows run run') (hn : run.session.graph.ids.Nodup) :
    run'.session.readyTasks.Perm
      (run.session.readyTasks.filter fun task => run'.session.state? task.id = some .pending) := by
  have hn' : run'.session.graph.ids.Nodup := by rwa [h.graph]
  refine (List.perm_ext_iff_of_nodup (List.Nodup.of_map _ (nodup_readyTasks hn'))
    ((List.Nodup.of_map _ (nodup_readyTasks hn)).filter _)).mpr fun task => ?_
  have henables : run'.session.Enables task ↔ run.session.Enables task :=
    forall₂_congr fun dep _ => h.succeeded dep
  simp only [List.mem_filter, mem_readyTasks, Session.isReady_iff, h.graph, henables,
    decide_eq_true_eq]
  constructor
  · rintro ⟨ht, hpending, hdeps⟩
    exact ⟨⟨ht, h.pending _ hpending, hdeps⟩, hpending⟩
  · rintro ⟨⟨ht, -, hdeps⟩, hpending⟩
    exact ⟨ht, hpending, hdeps⟩

theorem free_foldl_place {attempt : Nat} (leases : List Lease) (run : Run) :
    (leases.foldl (place task attempt now) run).slots.free = run.slots.free - leases.length := by
  induction leases generalizing run with
  | nil => rfl
  | cons lease rest ih =>
    rw [List.foldl_cons, ih, List.length_cons, Nat.add_comm, Nat.sub_add_eq]
    rfl

theorem Turn.free_le (h : Turn run task now run') : run'.slots.free ≤ run.slots.free := by
  cases h with
  | sends =>
    rw [free_foldl_place]
    exact Nat.sub_le _ _
  | _ => exact Nat.le_refl _

theorem dispatchAll_cons (task : Task) (rest : List Task) (run : Run) (reg : Registry) :
    dispatchAll now (task :: rest) run reg =
      let turn := run.dispatchTask reg task now
      let after := dispatchAll now rest turn.1 turn.2.1
      (after.1, after.2.1, if turn.2.2 then after.2.2 + 1 else after.2.2) := rfl

theorem dispatchAll_free_le (tasks : List Task) (run : Run) (reg : Registry) :
    (dispatchAll now tasks run reg).1.slots.free ≤ run.slots.free := by
  induction tasks generalizing run reg with
  | nil => exact Nat.le_refl _
  | cons task rest ih => exact (ih _ _).trans (run.dispatchTask_turn reg task now).free_le

-- ---------------------------------------------------------------------------
-- Queues
-- ---------------------------------------------------------------------------

theorem Queue.narrows (h : Queue tasks run) (reg : Registry) (now : Nat) :
    Narrows run (dispatchAll now tasks run reg).1 := by
  induction tasks generalizing run reg with
  | nil => exact .refl run
  | cons task rest ih =>
    exact (dispatchTask_narrows (h.ready task List.mem_cons_self)).trans (ih (h.next reg now) _)

theorem Queue.state?_head (h : Queue (task :: rest) run) (reg : Registry) (now : Nat) :
    (dispatchAll now (task :: rest) run reg).1.session.state? task.id =
      (run.dispatchTask reg task now).1.session.state? task.id :=
  congrArg (Option.map _) (progress?_dispatchAll _ _ (List.nodup_cons.mp h.distinct).1)

theorem Queue.count (h : Queue tasks run) (reg : Registry) (now : Nat) :
    (dispatchAll now tasks run reg).2.2 = tasks.countP fun task =>
      (dispatchAll now tasks run reg).1.session.state? task.id = some .pending := by
  induction tasks generalizing run reg with
  | nil => rfl
  | cons task rest ih =>
    obtain ⟨p, hp, hstate⟩ := h.head
    have hwaits := (run.dispatchTask_upshot reg now hp).pending_iff hstate
    rw [← h.state?_head reg now] at hwaits
    have hrest := ih (h.next reg now) (run.dispatchTask reg task now).2.1
    rw [List.countP_cons]
    simp only [hwaits, decide_eq_true_eq]
    rw [dispatchAll_cons]
    dsimp only
    rw [hrest]
    split <;> rfl

/-- As long as a slot is free, nobody is left to be sent out to a worker. -/
theorem Queue.conserving (h : Queue tasks run) (reg : Registry) (now : Nat) :
    (dispatchAll now tasks run reg).1.slots.free = 0 ∨ ∀ task ∈ tasks,
      (dispatchAll now tasks run reg).1.session.state? task.id = some .pending →
        ¬ (dispatchAll now tasks run reg).2.1.Offers task.capability now := by
  induction tasks generalizing run reg with
  | nil => exact .inr fun _ => nofun
  | cons task rest ih =>
    refine or_iff_not_imp_left.mpr fun hfree => List.forall_mem_cons.mpr ⟨fun hpending => ?_,
      (ih (h.next reg now) (run.dispatchTask reg task now).2.1).resolve_left hfree⟩
    obtain ⟨p, hp, hstate⟩ := h.head
    have hupshot := run.dispatchTask_upshot reg now hp
    rw [h.state?_head reg now, hupshot.pending_iff hstate] at hpending
    rw [hpending] at hupshot
    have hfull : run.slots.free ≠ 0 := fun h0 =>
      hfree (Nat.le_zero.mp (h0 ▸ dispatchAll_free_le (task :: rest) run reg))
    intro hoffers
    have hbefore := (Registry.wanes now).dispatchAll (task :: rest) run reg task.capability hoffers
    cases hupshot with
    | held _ full => exact hfull (full hbefore)
    | marked uncovered =>
      rw [hbefore.covers] at uncovered
      cases uncovered

-- ---------------------------------------------------------------------------
-- Visits
-- ---------------------------------------------------------------------------

def readyVisits (run : Run) (reg : Registry) (now : Nat) : List Visit :=
  visits now run.session.readyTasks (run.withSession (run.session.refreshTrust reg.trustTable)) reg

/-- Of two visits the first was not passed over: if only the later one led to calls, the first task
had no worker, and its capability is another one. -/
def Visit.Respects (now : Nat) (a b : Visit) : Prop :=
  b.calls now ≠ [] → a.calls now = [] →
    ¬ a.registry.Offers a.task.capability now ∧ a.task.capability ≠ b.task.capability

theorem Visit.calls_cases {v : Visit} (hp : v.run.session.progress? v.task.id = some p) :
    v.registry.Offers v.task.capability now ∧ v.run.slots.free ≠ 0 ∧ v.calls now ≠ [] ∧
        (v.run.dispatchTask v.registry v.task now).1.calls = v.run.calls ++ v.calls now ∧
        (∀ call ∈ v.calls now, call.assignment.taskId = v.task.id) ∨
      (v.registry.Offers v.task.capability now → v.run.slots.free = 0) ∧ v.calls now = [] ∧
        (v.run.dispatchTask v.registry v.task now).1.calls = v.run.calls := by
  have hupshot := v.run.dispatchTask_upshot v.registry now hp
  have hnone (hc : (v.run.dispatchTask v.registry v.task now).1.calls = v.run.calls) :
      v.calls now = [] := by
    rw [Visit.calls, hc, List.drop_length]
  generalize (v.run.dispatchTask v.registry v.task now).2.2 = waits at hupshot
  cases hupshot with
  | @sent calls offered free called nonempty own =>
    have hcalls : v.calls now = calls := by
      rw [Visit.calls, called, List.drop_left]
    rw [← hcalls] at called nonempty own
    exact .inl ⟨offered, free, nonempty, called, own⟩
  | held _ full called => exact .inr ⟨full, hnone called, called⟩
  | marked uncovered _ called | givenUp uncovered _ called =>
    refine .inr ⟨fun ho => ?_, hnone called, called⟩
    rw [ho.covers] at uncovered
    cases uncovered

theorem Queue.visit {v : Visit} (h : Queue tasks run) (hv : v ∈ visits now tasks run reg) :
    (∃ p, v.run.session.progress? v.task.id = some p) ∧ v.run.slots.free ≤ run.slots.free ∧
      Registry.Wanes now reg v.registry := by
  induction tasks generalizing run reg with
  | nil => cases hv
  | cons task rest ih =>
    rcases List.mem_cons.mp hv with rfl | hv
    · obtain ⟨p, hp, -⟩ := h.head
      exact ⟨⟨p, hp⟩, Nat.le_refl _, fun _ => id⟩
    · obtain ⟨hp, hfree, hwanes⟩ := ih (h.next reg now) hv
      exact ⟨hp, hfree.trans (run.dispatchTask_turn reg task now).free_le,
        (Registry.wanes now).trans ((Registry.wanes now).dispatchTask run reg task) hwanes⟩

theorem Queue.respects (h : Queue tasks run) (reg : Registry) (now : Nat) :
    (visits now tasks run reg).Pairwise (Visit.Respects now) := by
  induction tasks generalizing run reg with
  | nil => exact .nil
  | cons task rest ih =>
    have hnext := h.next reg now
    refine .cons (fun v hv hsent hpassed => ?_) (ih hnext _)
    obtain ⟨p, hp, -⟩ := h.head
    obtain ⟨⟨q, hq⟩, hfree, hwanes⟩ := hnext.visit hv
    rcases Visit.calls_cases hq with ⟨hoffers, hslots, -⟩ | ⟨-, hnone, -⟩
    · rcases Visit.calls_cases (v := ⟨run, reg, task⟩) hp with ⟨-, -, hcalls, -⟩ | ⟨hfull, -⟩
      · exact absurd hpassed hcalls
      · have hle := hfree.trans (run.dispatchTask_turn reg task now).free_le
        have hnone : ¬ reg.Offers task.capability now := fun ho =>
          hslots (Nat.le_zero.mp (hfull ho ▸ hle))
        refine ⟨hnone, fun he => hnone ?_⟩
        have hbefore := (Registry.wanes now).dispatchTask run reg task _ (hwanes _ hoffers)
        rwa [← he] at hbefore
    · exact absurd hnone hsent

theorem Queue.calls (h : Queue tasks run) (reg : Registry) (now : Nat) :
    (dispatchAll now tasks run reg).1.calls =
      run.calls ++ (visits now tasks run reg).flatMap (Visit.calls now) := by
  induction tasks generalizing run reg with
  | nil => exact (List.append_nil _).symm
  | cons task rest ih =>
    have hrest := ih (h.next reg now) (run.dispatchTask reg task now).2.1
    obtain ⟨p, hp, -⟩ := h.head
    rw [visits, List.flatMap_cons, ← List.append_assoc]
    refine hrest.trans (congrArg (· ++ _) ?_)
    rcases Visit.calls_cases (v := ⟨run, reg, task⟩) hp with
      ⟨-, -, -, hcalls, -⟩ | ⟨-, hnone, hcalls⟩
    · exact hcalls
    · rw [hnone, List.append_nil]
      exact hcalls

theorem map_task_visits (tasks : List Task) (run : Run) (reg : Registry) :
    (visits now tasks run reg).map (·.task) = tasks := by
  induction tasks generalizing run reg with
  | nil => rfl
  | cons task rest ih => rw [visits, List.map_cons, ih]

-- ---------------------------------------------------------------------------
-- Dispatch
-- ---------------------------------------------------------------------------

/-- What a dispatch of the ready tasks does, and what it leaves behind: run, registry and the number
of tasks left without a worker. -/
structure FairDispatch (run : Run) (reg : Registry) (now : Nat) (after : Run × Registry × Nat) :
    Prop where
  ordered : run.session.readyTasks.Pairwise Task.Outranks
  ready : (run.session.readyTasks.map (·.id)).Perm
    ((run.session.graph.readySet run.session.succeeded).filter fun id =>
      run.session.state? id = some .pending)
  turns : (run.readyVisits reg now).map (·.task) = run.session.readyTasks
  calls : after.1.calls = run.calls ++ (run.readyVisits reg now).flatMap (Visit.calls now)
  own : ∀ v ∈ run.readyVisits reg now, ∀ call ∈ v.calls now, call.assignment.taskId = v.task.id
  respects : (run.readyVisits reg now).Pairwise (Visit.Respects now)
  conserving : after.1.slots.free = 0 ∨
    ∀ task ∈ after.1.session.readyTasks, ¬ after.2.1.Offers task.capability now
  left : after.2.2 = after.1.session.readyTasks.length

theorem dispatchReady_fair (run : Run) (reg : Registry) (now : Nat)
    (hn : run.session.graph.ids.Nodup) :
    FairDispatch run reg now (run.dispatchReady reg now) := by
  have hqueue : Queue run.session.readyTasks
      (run.withSession (run.session.refreshTrust reg.trustTable)) :=
    ⟨nodup_readyTasks hn, fun task ht => (mem_readyTasks.mp ht).2⟩
  refine {
    ordered := Session.pairwise_outranks hn
    ready := Session.readyTasks_perm hn
    turns := map_task_visits _ _ reg
    calls := ?_
    own := fun v hv call hc => ?_
    respects := hqueue.respects reg now
    conserving := ?_
    left := ?_ }
  · rcases dispatchReady_eq run reg now with ⟨hsame, hnone⟩ | hall
    · rw [hsame, readyVisits, hnone]
      exact (List.append_nil _).symm
    · rw [hall]
      exact hqueue.calls reg now
  · obtain ⟨⟨p, hp⟩, -⟩ := hqueue.visit hv
    rcases Visit.calls_cases hp with ⟨-, -, -, -, hown⟩ | ⟨-, hnone, -⟩
    · exact hown call hc
    · rw [hnone] at hc
      cases hc
  · rcases dispatchReady_eq run reg now with ⟨hsame, hnone⟩ | hall
    · rw [hsame, hnone]
      exact .inr fun _ => nofun
    · rw [hall]
      refine (hqueue.conserving reg now).imp id fun hleft task ht => ?_
      obtain ⟨hready, hpending⟩ := List.mem_filter.mp
        (((hqueue.narrows reg now).readyTasks_perm hn).subset ht)
      exact hleft task hready (of_decide_eq_true hpending)
  · rcases dispatchReady_eq run reg now with ⟨hsame, hnone⟩ | hall
    · rw [hsame, hnone]
      rfl
    · rw [hall, hqueue.count reg now, List.countP_eq_length_filter]
      exact ((hqueue.narrows reg now).readyTasks_perm hn).length_eq.symm

theorem dispatchReady_duet : Opening.duetStart.run.session.graph.ids.Nodup ∧
    FairDispatch Opening.duetStart.run Opening.duetStart.registry 0
      (Opening.duetStart.run.dispatchReady Opening.duetStart.registry 0) :=
  have hdistinct : Opening.duetStart.run.session.graph.ids.Nodup := by decide +kernel
  ⟨hdistinct, dispatchReady_fair _ _ 0 hdistinct⟩

end Run

end Crew
