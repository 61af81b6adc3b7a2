import Crew.Proofs.Run.Ledger

/-!
# What has ended stays as it is

A session follows another if the tasks that had ended have not changed at all (`Session.Follows`).
Whatever a run does leads to a session that follows the one before, so that what is known of ended
dependencies may be used ever after. A property of the progress of single tasks that is kept by
every change to one task and as the session goes on is kept by the run (`Session.Kept`).
-/

namespace Crew

namespace Session

structure Follows (s s' : Session) : Prop where
  graph : s'.graph = s.graph
  cancelled : s.cancelled = true → s'.cancelled = true
  ended : ∀ {id p}, s.progress? id = some p → p.state.isTerminal → s'.progress? id = some p

variable {s s' s'' : Session} {task : Task} {id : String} {p : Progress}

theorem Follows.refl (s : Session) : s.Follows s := ⟨rfl, id, fun hp _ => hp⟩

theorem Follows.trans (h : s.Follows s') (h' : s'.Follows s'') : s.Follows s'' :=
  ⟨h'.graph.trans h.graph, fun hc => h'.cancelled (h.cancelled hc),
    fun hp ht => h'.ended (h.ended hp ht) ht⟩

theorem Follows.state? {state : TaskState} (h : s.Follows s') (hs : s.state? id = some state)
    (ht : state.isTerminal) : s'.state? id = some state := by
  obtain ⟨p, hp, rfl⟩ := state?_eq_some.mp hs
  exact state?_of_progress? (h.ended hp ht)

theorem Follows.hasFailed (h : s.Follows s') (hf : s.HasFailed id) : s'.HasFailed id :=
  hf.imp (h.state? · rfl) (h.state? · rfl)

theorem Follows.enables (h : s.Follows s') (he : s.Enables task) : s'.Enables task :=
  fun dep hd => h.state? (he dep hd) rfl

theorem Enables.not_hasFailed (he : s.Enables task) (hd : id ∈ task.dependencies) :
    ¬ s.HasFailed id := by
  rintro (hf | hf)
  · cases (he id hd).symm.trans hf
  · cases (he id hd).symm.trans hf

/-- What is kept by every change to one task, and as its session goes on. -/
structure Kept (I : Session → Task → Progress → Prop) : Prop where
  mono : ∀ {s s' task p}, Follows s s' → I s task p → I s' task p
  round : ∀ {s task p n p' n'}, I s task p → p.Round s task n p' n' → I s task p'
  back : ∀ {s task result p n p' n'}, I s task p → p.Return task result n p' n' → I s task p'
  cancel : ∀ {s task p}, s.cancelled = true → I s task p → I s task p.cancel

def All (I : Session → Task → Progress → Prop) (s : Session) : Prop :=
  ∀ task ∈ s.graph.tasks, ∀ p, s.progress? task.id = some p → I s task p

theorem follows_cancel (s : Session) : s.Follows s.cancel := by
  refine ⟨rfl, fun _ => rfl, fun hp ht => ?_⟩
  rw [progress?_cancel, hp, Option.map_some, Progress.cancel, if_pos ht]

end Session

namespace Progress

variable {s : Session} {task : Task} {p p' : Progress} {n n' : Nat} {result : Option TaskResult}

theorem Round.eq_of_isTerminal (h : p.Round s task n p' n') (ht : p.state.isTerminal) :
    p' = p := by
  cases h with
  | same => rfl
  | skip hp | wait _ hp | giveUp _ hp | send _ hp | withdraw hp =>
    rw [hp] at ht
    cases ht
  | release hp =>
    rw [hp] at ht
    cases ht

theorem Round.eq_of_running (h : p.Round s task n p' n') (hr : p.state = .running) : p' = p := by
  cases h with
  | same => rfl
  | skip hp | wait _ hp | giveUp _ hp | send _ hp | withdraw hp | release hp =>
    rw [hr] at hp
    cases hp

theorem Return.running (h : p.Return task result n p' n') : p.state = .running := by
  cases h <;> assumption

end Progress

namespace Run

variable {run run' : Run} {call : Call} {result : Option TaskResult}
  {I : Session → Task → Progress → Prop}

theorem Round.keeps (h : Round run run') : run'.session.cancelled = run.session.cancelled ∧
    run'.session.results = run.session.results := by
  have hf {task : Task} {attempt now : Nat} (leases : List Lease) (run : Run) :
      (leases.foldl (place task attempt now) run).session.cancelled = run.session.cancelled ∧
        (leases.foldl (place task attempt now) run).session.results = run.session.results := by
    induction leases generalizing run with
    | nil => exact ⟨rfl, rfl⟩
    | cons lease rest ih => exact ih _
  cases h with
  | turns hm hr ht =>
    cases ht with
    | lacks => unfold Session.markWaiting; split <;> exact ⟨rfl, rfl⟩
    | givesUp => unfold Session.markWaiting; split <;> exact ⟨rfl, rfl⟩
    | sends => exact hf _ _
    | _ => exact ⟨rfl, rfl⟩
  | _ => exact ⟨rfl, rfl⟩

theorem Rounds.results (h : Rounds run run') : run'.session.results = run.session.results := by
  induction h with
  | refl => rfl
  | tail _ hr ih => exact hr.keeps.2.trans ih

theorem Round.follows (hb : run.session.Books) (h : Round run run') :
    run.session.Follows run'.session := by
  refine ⟨h.graph, fun hc => h.keeps.1.trans hc, fun hp ht => ?_⟩
  obtain ⟨task, hm, rfl⟩ := hb.exists_task hp
  obtain ⟨p', hp', hr⟩ := h.progress hb.distinct hm hp
  rw [hp', hr.eq_of_isTerminal ht]

theorem Rounds.follows (hs : run.Sound) (h : Rounds run run') :
    run.session.Follows run'.session := by
  induction h with
  | refl => exact .refl _
  | tail h hr ih => exact ih.trans (hr.follows (hs.rounds h).books)

/-- What one part of a pass keeps of the progress of a task is kept by any number of them. -/
theorem Rounds.progress {task : Task} {p : Progress} {R : Progress → Prop} (hs : run.Sound)
    (h : Rounds run run') (ht : task ∈ run.session.graph.tasks)
    (hp : run.session.progress? task.id = some p) (h₀ : R p)
    (hR : ∀ {s p n p' n'}, R p → p.Round s task n p' n' → R p') :
    ∃ p', run'.session.progress? task.id = some p' ∧ R p' := by
  induction h with
  | refl => exact ⟨p, hp, h₀⟩
  | tail h hr ih =>
    obtain ⟨q, hq, hRq⟩ := ih
    have hbooks := (hs.rounds h).books
    obtain ⟨q', hq', hround⟩ := hr.progress hbooks.distinct (by rw [Rounds.graph h]; exact ht) hq
    exact ⟨q', hq', hR hRq hround⟩

theorem Return.follows (hs : run.Sound) (hc : call ∈ run.calls)
    (h : Return run call.assignment.id result run') : run.session.Follows run'.session := by
  obtain ⟨hg, -, -, -, -, hcancelled⟩ := h.fields
  have ha := hs.mem_inFlight hc
  refine ⟨hg, fun hx => hcancelled.trans hx, fun {id p} hp ht => ?_⟩
  by_cases hid : id = call.assignment.taskId
  · -- the task of a call in flight is running
    subst hid
    obtain ⟨q, hq, hr⟩ := hs.books.running_of_mem ha
    obtain rfl : p = q := Option.some.inj (hp.symm.trans hq)
    rw [hr] at ht
    cases ht
  · rw [h.progress?_ne hs.books ha hid, hp]

theorem all_round (hI : Session.Kept I) (hb : run.session.Books) (ha : run.session.All I)
    (h : Round run run') : run'.session.All I := by
  intro task ht p' hp'
  rw [h.graph] at ht
  obtain ⟨p, hp, -⟩ := hb.progress ht
  obtain ⟨q, hq, hr⟩ := h.progress hb.distinct ht hp
  obtain rfl : q = p' := Option.some.inj (hq.symm.trans hp')
  exact hI.mono (h.follows hb) (hI.round (ha task ht p hp) hr)

theorem all_rounds (hI : Session.Kept I) (hs : run.Sound) (ha : run.session.All I)
    (h : Rounds run run') : run'.session.All I := by
  induction h with
  | refl => exact ha
  | tail h hr ih => exact all_round hI (hs.rounds h).books ih hr

theorem all_return (hI : Session.Kept I) (hs : run.Sound) (hc : call ∈ run.calls)
    (ha : run.session.All I) (h : Return run call.assignment.id result run') :
    run'.session.All I := by
  intro task ht p' hp'
  rw [h.fields.1] at ht
  have hin := hs.mem_inFlight hc
  obtain ⟨p, hp, -⟩ := hs.books.progress ht
  refine hI.mono (h.follows hs hc) ?_
  by_cases hid : call.assignment.taskId = task.id
  · obtain ⟨q, hq, hr⟩ := h.progress hs.books hin ht hid hp
    obtain rfl : q = p' := Option.some.inj (hq.symm.trans hp')
    exact hI.back (ha task ht p hp) hr
  · rw [h.progress?_ne hs.books hin (Ne.symm hid)] at hp'
    exact ha task ht p' hp'

theorem all_cancel (hI : Session.Kept I) (hb : run.session.Books) (ha : run.session.All I) :
    run.session.cancel.All I := by
  intro task ht p' hp'
  obtain ⟨p, hp, -⟩ := hb.progress ht
  rw [Session.progress?_cancel, hp] at hp'
  obtain rfl := Option.some.inj hp'
  exact hI.cancel rfl (hI.mono (Session.follows_cancel _) (ha task ht p hp))

end Run

end Crew
