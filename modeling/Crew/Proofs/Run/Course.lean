import Crew.Proofs.Run.Follows
import Crew.Rehearsal.Basic

/-!
# Courses of runs

A course is a run in its surroundings: a registry that others use too, a clock, and whether the run
was cancelled. A run by itself passes over its tasks, takes the end of a call, wakes up, and leaves
or stops; between any two of these the clock may go on, the run may be cancelled, and the registry
may change in any way, as workers come and go and other runs use them. Which calls end, in which
order and with which outcome is left open.

Whatever was shown of a run to be kept by its own steps holds in all that an opening reaches
(`Reaches.sound`, `Reaches.all`).
-/

namespace Crew

structure Opening where
  coordinator : Coordinator
  runId : String
  tasks : List Task
  registry : Registry
  now : Nat
  cancelled : Bool := false

structure Course where
  run : Run
  registry : Registry
  now : Nat
  cancelled : Bool
  phase : Phase := .pass

def Opening.course (o : Opening) : Except FatalError Course := do
  let graph ← (TaskGraph.build o.tasks).mapError .invalidGraph
  let (run, registry) ← o.coordinator.start o.runId graph o.registry o.now
  return { run, registry, now := o.now, cancelled := o.cancelled }

namespace Course

/-- One pass over the tasks; the run is about to end if it leaves nothing to do. -/
def pass (c : Course) : Course :=
  let (run, registry) := c.run.pass c.registry c.now
  { c with run, registry, phase := if run.session.isFinished then .leave else .wait }

def complete (c : Course) (assignmentId : Nat) (outcome : Outcome) : Course :=
  let (run, registry) := c.run.complete c.registry assignmentId c.cancelled outcome c.now
  { c with run, registry, phase := .pass }

def wake (c : Course) : Course := { c with phase := .pass }

def leave (c : Course) : Course := { c with phase := .ended }

def stop (c : Course) : Course :=
  let (run, registry) := c.run.cancel c.registry
  { c with run, registry, phase := .ended }

/-- What the run itself does. It looks at the token before each pass, whenever it goes on waiting,
and before it ends; a call may still end, abandoned, if the token fires between the second of these
looks and the call's own. A token that fires during a step is seen by the next look. -/
inductive Own (c : Course) : Course → Prop
  | pass (hp : c.phase = .pass) (hc : c.cancelled = false) : Own c c.pass
  | complete (hp : c.phase = .wait) (assignmentId : Nat) (outcome : Outcome) :
      Own c (c.complete assignmentId outcome)
  | wake (hp : c.phase = .wait) (hc : c.cancelled = false) : Own c c.wake
  | leave (hp : c.phase = .leave) (hc : c.cancelled = false) : Own c c.leave
  | stop (hp : c.phase ≠ .ended) (hc : c.cancelled = true) : Own c c.stop

inductive Step (c : Course) : Course → Prop
  | own {c' : Course} (h : Own c c') : Step c c'
  | cancels : Step c { c with cancelled := true }
  | advances {now : Nat} (h : c.now ≤ now) : Step c { c with now }
  | meddles (registry : Registry) : Step c { c with registry }

abbrev Steps : Course → Course → Prop := Relation.ReflTransGen Step

end Course

/-- The courses that a run may come to. -/
def Opening.Reaches (o : Opening) (c : Course) : Prop :=
  ∃ c₀, o.course = .ok c₀ ∧ c₀.Steps c

-- ---------------------------------------------------------------------------
-- Openings
-- ---------------------------------------------------------------------------

theorem Coordinator.slotCount_pos (c : Coordinator) (reg : Registry) (total now : Nat) :
    0 < (c.slotCount reg total now).2 := by
  unfold slotCount
  split
  · exact Nat.le_max_right _ _
  · dsimp only
    split
    · exact Nat.le_max_right _ _
    · exact Nat.le_max_right _ _

theorem Slots.ofCapacity_eq {count : Nat} (hc : 0 < count) :
    Slots.ofCapacity count = if count ≤ limit then some ⟨count, count⟩ else none := by
  simp only [ofCapacity, Nat.max_eq_left (show 1 ≤ count from hc)]

/-- The first course of a run on a graph: all of its slots are free, and it has announced how many
there are. -/
def Opening.launch (o : Opening) (graph : TaskGraph) (registry : Registry) (count : Nat) :
    Course where
  run :=
    { policy := o.coordinator.policy
      session := .start o.runId graph registry.trustTable
      slots := ⟨count, count⟩
      detector := ⟨o.coordinator.config.scaling, .inside⟩ }
  registry := registry.emit (.runStarted o.runId graph.size count)
  now := o.now
  cancelled := o.cancelled

/-- A run starts if its tasks form a graph, some of them has a worker, and there are not too many
slots. -/
theorem Opening.course_eq_ok {o : Opening} {c : Course} :
    o.course = .ok c ↔ ∃ graph registry count, TaskGraph.build o.tasks = .ok graph ∧
      Coordinator.checkViable graph o.registry = .ok () ∧
      o.coordinator.slotCount o.registry graph.size o.now = (registry, count) ∧
      count ≤ Slots.limit ∧ c = o.launch graph registry count := by
  unfold course Coordinator.start
  cases hg : TaskGraph.build o.tasks with
  | error e =>
    refine ⟨fun h => (nomatch h), ?_⟩
    rintro ⟨graph, registry, count, h, -⟩
    cases h
  | ok graph =>
    have hpos := o.coordinator.slotCount_pos o.registry graph.size o.now
    cases hv : Coordinator.checkViable graph o.registry with
    | error e =>
      simp [Except.mapError, bind, Except.bind, hv]
    | ok _ =>
      cases hs : o.coordinator.slotCount o.registry graph.size o.now with
      | mk registry count =>
        rw [hs] at hpos
        by_cases hle : count ≤ Slots.limit
        · simp [Except.mapError, bind, Except.bind, pure, Except.pure, hv, hs,
            Slots.ofCapacity_eq hpos, hle, launch, eq_comm]
          rfl
        · simp [Except.mapError, bind, Except.bind, hv, hs, Slots.ofCapacity_eq hpos, hle]

-- ---------------------------------------------------------------------------
-- What every course keeps
-- ---------------------------------------------------------------------------

namespace Session

variable {s : Session} {id : String} {p : Progress}

def Over (s : Session) : Prop := ∀ {id p}, s.progress? id = some p → p.state.isTerminal

theorem over_of_isFinished (h : s.isFinished) : s.Over := by
  intro id p hp
  obtain ⟨row, hr, rfl⟩ := Option.map_eq_some_iff.mp hp
  simp only [isFinished, List.all_eq_true] at h
  exact h row.2 (List.mem_map_of_mem (List.mem_of_find?_eq_some hr))

theorem over_cancel (s : Session) : s.cancel.Over := by
  intro id p hp
  rw [progress?_cancel] at hp
  obtain ⟨q, -, rfl⟩ := Option.map_eq_some_iff.mp hp
  unfold Progress.cancel
  split
  next ht => exact ht
  · rfl

end Session

/-- The run of a course is in order, and has nothing left to do once it ends or has ended. -/
structure Course.Sound (c : Course) : Prop where
  run : c.run.Sound
  left : c.phase = .leave → c.run.session.Over
  ended : c.phase = .ended → c.run.session.Over

namespace Course

variable {c c' : Course} {I : Session → Task → Progress → Prop}

theorem phase_pass (c : Course) :
    c.pass.phase = if c.pass.run.session.isFinished then .leave else .wait := rfl

theorem pass_rounds (hs : c.Sound) : Run.Rounds c.run c.pass.run :=
  Run.pass_rounds hs.run.books.distinct

theorem Own.sound (hs : c.Sound) (h : Own c c') : c'.Sound := by
  cases h with
  | pass hp hc =>
    have hrun := hs.run.rounds (pass_rounds hs)
    refine ⟨hrun, fun hl => Session.over_of_isFinished ?_, fun he => ?_⟩
    · rw [phase_pass] at hl
      split at hl
      next hf => exact hf
      · cases hl
    · rw [phase_pass] at he
      split at he <;> cases he
  | complete hp n outcome => exact ⟨hs.run.complete _ _ _ _, nofun, nofun⟩
  | wake hp hc => exact ⟨hs.run, nofun, nofun⟩
  | leave hp hc => exact ⟨hs.run, nofun, fun _ => hs.left hp⟩
  | stop hp hc =>
    refine ⟨hs.run.cancel _, nofun, fun _ => ?_⟩
    change (c.run.cancel c.registry).1.session.Over
    rw [Run.cancel_eq]
    exact Session.over_cancel _

theorem Step.sound (hs : c.Sound) (h : Step c c') : c'.Sound := by
  cases h with
  | own h => exact h.sound hs
  | cancels => exact ⟨hs.run, hs.left, hs.ended⟩
  | advances _ => exact ⟨hs.run, hs.left, hs.ended⟩
  | meddles _ => exact ⟨hs.run, hs.left, hs.ended⟩

theorem Steps.sound (hs : c.Sound) (h : c.Steps c') : c'.Sound := by
  induction h with
  | refl => exact hs
  | tail _ hr ih => exact hr.sound ih

theorem complete_cases (c : Course) (n : Nat) (outcome : Outcome) :
    (c.complete n outcome).run = c.run ∨ ∃ call ∈ c.run.calls, call.assignment.id = n ∧
      Run.Return c.run n (call.yield c.cancelled c.registry outcome c.now)
        (c.complete n outcome).run :=
  Run.complete_return c.run c.registry n c.cancelled outcome c.now

theorem complete_follows (hs : c.Sound) (n : Nat) (outcome : Outcome) :
    c.run.session.Follows (c.complete n outcome).run.session := by
  rcases c.complete_cases n outcome with h | ⟨call, hc, rfl, h⟩
  · rw [h]
    exact .refl _
  · exact h.follows hs.run hc

/-- What the end of a call leaves of one task: its progress as it was, unless the call was its
own. -/
theorem complete_progress {task : Task} {p : Progress} (hs : c.Sound) (n : Nat)
    (outcome : Outcome) (ht : task ∈ c.run.session.graph.tasks)
    (hp : c.run.session.progress? task.id = some p) :
    (c.complete n outcome).run.session.progress? task.id = some p ∨
      ∃ call ∈ c.run.calls, call.assignment.taskId = task.id ∧
        (c.complete n outcome).run.session.results = c.run.session.results ++
          (call.yield c.cancelled c.registry outcome c.now).toList ∧
        ∃ p', (c.complete n outcome).run.session.progress? task.id = some p' ∧
          p.Return task (call.yield c.cancelled c.registry outcome c.now)
            (c.run.session.callsOf task.id) p'
            ((c.complete n outcome).run.session.callsOf task.id) := by
  rcases c.complete_cases n outcome with h | ⟨call, hm, rfl, h⟩
  · rw [h]
    exact .inl hp
  · have hin := hs.run.mem_inFlight hm
    by_cases hid : call.assignment.taskId = task.id
    · exact .inr ⟨call, hm, hid, h.heard hs.run.books hin, h.progress hs.run.books hin ht hid hp⟩
    · exact .inl ((h.progress?_ne hs.run.books hin (Ne.symm hid)).trans hp)

theorem session_stop (c : Course) : c.stop.run.session = c.run.session.cancel := by
  change (c.run.cancel c.registry).1.session = _
  rw [Run.cancel_eq]

theorem Step.follows (hs : c.Sound) (h : Step c c') : c.run.session.Follows c'.run.session := by
  cases h with
  | own h =>
    cases h with
    | pass => exact (pass_rounds hs).follows hs.run
    | complete _ n outcome => exact complete_follows hs n outcome
    | wake | leave => exact .refl _
    | stop =>
      rw [session_stop]
      exact Session.follows_cancel _
  | _ => exact .refl _

theorem Steps.follows (hs : c.Sound) (h : c.Steps c') : c.run.session.Follows c'.run.session := by
  induction h with
  | refl => exact .refl _
  | tail h hr ih => exact ih.trans (hr.follows (Steps.sound hs h))

theorem Step.all (hI : Session.Kept I) (hs : c.Sound) (ha : c.run.session.All I)
    (h : Step c c') : c'.run.session.All I := by
  cases h with
  | own h =>
    cases h with
    | pass => exact Run.all_rounds hI hs.run ha (pass_rounds hs)
    | complete _ n outcome =>
      rcases c.complete_cases n outcome with h | ⟨call, hc, rfl, h⟩
      · rw [h]
        exact ha
      · exact Run.all_return hI hs.run hc ha h
    | wake | leave => exact ha
    | stop =>
      rw [session_stop]
      exact Run.all_cancel hI hs.run.books ha
  | _ => exact ha

theorem Steps.all (hI : Session.Kept I) (hs : c.Sound) (ha : c.run.session.All I)
    (h : c.Steps c') : c'.run.session.All I := by
  induction h with
  | refl => exact ha
  | tail h hr ih => exact hr.all hI (Steps.sound hs h) ih

end Course

namespace Opening

variable {o : Opening} {c : Course} {I : Session → Task → Progress → Prop}

theorem sound_of_course (h : o.course = .ok c) : c.Sound := by
  obtain ⟨graph, registry, count, hg, -, -, -, rfl⟩ := course_eq_ok.mp h
  refine ⟨?_, nofun, nofun⟩
  exact { calls := rfl, slots := rfl, peak := Nat.zero_le _,
          books := .start (TaskGraph.nodup_ids_of_build hg) }

theorem Reaches.sound (h : o.Reaches c) : c.Sound := by
  obtain ⟨c₀, h₀, hs⟩ := h
  exact hs.sound (sound_of_course h₀)

theorem Reaches.trans {c' : Course} (h : o.Reaches c) (hs : c.Steps c') : o.Reaches c' := by
  obtain ⟨c₀, h₀, hc⟩ := h
  exact ⟨c₀, h₀, Relation.ReflTransGen.trans hc hs⟩

/-- What holds of a task at its start and is kept by every change holds ever after. -/
theorem Reaches.all (hI : Session.Kept I) (h₀ : ∀ s task, I s task {}) (h : o.Reaches c) :
    c.run.session.All I := by
  obtain ⟨c₀, ho, hs⟩ := h
  refine Course.Steps.all hI (sound_of_course ho) ?_ hs
  obtain ⟨graph, registry, count, -, -, -, -, rfl⟩ := course_eq_ok.mp ho
  intro task _ p hp
  obtain rfl := Session.progress?_start hp
  exact h₀ _ task

-- ---------------------------------------------------------------------------
-- A course in full
-- ---------------------------------------------------------------------------

/-- Two tasks of which the second waits for the first, with one worker for both. -/
def relay : Opening where
  coordinator :=
    .plain { execution := { maxConcurrency := some 2 }, scaling := { enabled := false } }
  runId := "relay"
  tasks :=
    [{ id := "first", capability := "run" },
      { id := "second", capability := "run", dependencies := ["first"] }]
  registry :=
    { rules := .ofLimits 3 30000
      workers := [{ spec := ⟨"runner", ["run"], 1.0⟩, seq := 0, executor := 0 }]
      nextSeq := 1 }
  now := 0

def relayStart : Course := relay.launch ⟨relay.tasks⟩ relay.registry 2

def relayFailed : Course := relayStart.pass.complete 1 (.failure "lost")

def relayEnded : Course := relayFailed.pass.leave

theorem course_relay : relay.course = .ok relayStart :=
  course_eq_ok.mpr ⟨⟨relay.tasks⟩, relay.registry, 2, by decide +kernel, by decide +kernel, rfl,
    by decide, rfl⟩

theorem relay_sends : relayStart.Steps relayStart.pass := .single (.own (.pass rfl rfl))

theorem relay_fails : relayStart.Steps relayFailed :=
  relay_sends.tail (.own (.complete (by decide +kernel) 1 _))

theorem relay_leaves : relayFailed.Steps relayEnded :=
  (Relation.ReflTransGen.single (.own (.pass rfl rfl))).tail (.own (.leave (by decide +kernel) rfl))

theorem relay_ends : relayStart.Steps relayEnded := relay_fails.trans relay_leaves

end Opening

end Crew
