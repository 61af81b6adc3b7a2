import Crew.Proofs.Display
import Crew.Proofs.Run.Announcements
import Crew.Proofs.Run.Cancellation

/-!
# The journal of a run

If nobody else puts anything into the journal of its registry, a run leads to courses where the
journal holds what was there before, the announcement of the run, and then just what the run said
of its tasks (`Opening.Leads.recorded`). What it said of a task is a tale that stands where the
progress of the task does, and of anything else it said nothing (`Session.Recorded`).
-/

namespace Crew

namespace Session

variable {s s' : Session} {log said : List Event} {id : String}

/-- The log tells of each task what became of it, and of nothing else. -/
structure Recorded (s : Session) (log : List Event) : Prop where
  told : ∀ {id p}, s.progress? id = some p → p.Told (wordsOf log id)
  unknown : ∀ {id}, s.progress? id = none → wordsOf log id = []

theorem Recorded.announces (hr : s.Recorded log) (ha : s.Announces said s') (hb : s.Books)
    (hb' : s'.Books) (hg : s'.graph = s.graph)
    (htold : ∀ id p p', s.progress? id = some p → s'.progress? id = some p' →
      p'.Told (wordsOf log id ++ p.news p')) : s'.Recorded (log ++ said) := by
  have hnone (id : String) : s'.progress? id = none ↔ s.progress? id = none :=
    hb.progress?_eq_none hb' hg
  refine ⟨fun {id p'} hp' => ?_, fun {id} hp' => ?_⟩
  · cases hp : s.progress? id with
    | none => cases hp'.symm.trans ((hnone id).mpr hp)
    | some p =>
      rw [wordsOf_append, ha.words, news_of_progress? hp hp']
      exact htold id p p' hp hp'
  · have hp := (hnone id).mp hp'
    rw [wordsOf_append, hr.unknown hp, ha.words, news, hp]
    rfl

theorem Recorded.start {runId : String} {graph : TaskGraph} {trust : TrustTable} :
    (start runId graph trust).Recorded [] := by
  refine ⟨fun hp => ?_, fun _ => rfl⟩
  obtain rfl := progress?_start hp
  exact Progress.told_nil

theorem Recorded.cancel (h : s.Recorded log) : s.cancel.Recorded log := by
  refine ⟨fun hp => ?_, fun hp => ?_⟩
  · rw [progress?_cancel] at hp
    obtain ⟨q, hq, rfl⟩ := Option.map_eq_some_iff.mp hp
    exact (h.told hq).cancel
  · rw [progress?_cancel, Option.map_eq_none_iff] at hp
    exact h.unknown hp

end Session

namespace Run

variable {run run' : Run} {log said : List Event}

structure Recorded (run : Run) (log : List Event) : Prop where
  sound : run.Sound
  budgeted : run.session.All fun _ task p => p.Budgeted task
  blamed : run.session.All fun s task p => p.Blamed s task
  session : run.session.Recorded log

theorem Deed.recorded (h : run.Recorded log) (hd : Deed run said run') :
    run'.Recorded (log ++ said) := by
  have hb := h.sound.books
  have hb' := hb.round hd.round
  refine ⟨h.sound.rounds (.single hd.round),
    all_round Progress.kept_budgeted hb h.budgeted hd.round,
    all_round Progress.kept_blamed hb h.blamed hd.round,
    h.session.announces hd.announces hb hb' hd.round.graph fun id p p' hp hp' => ?_⟩
  obtain ⟨task, hm, rfl⟩ := hb.exists_task hp
  obtain ⟨q, hq, hround⟩ := hd.round.progress hb.distinct hm hp
  obtain rfl : q = p' := Option.some.inj (hq.symm.trans hp')
  exact hround.told (h.budgeted task hm p hp) (h.blamed task hm p hp) (h.session.told hp)

theorem Deeds.recorded (h : run.Recorded log) (hd : Deeds run said run') :
    run'.Recorded (log ++ said) := by
  induction hd with
  | start =>
    rw [List.append_nil]
    exact h
  | step _ hd ih =>
    rw [← List.append_assoc]
    exact hd.recorded ih

end Run

-- ---------------------------------------------------------------------------
-- Runs by themselves
-- ---------------------------------------------------------------------------

namespace Course

variable {c c' : Course} {log : List Event}

/-- A step of a course in whose journal nobody else writes. -/
inductive Solitary (c : Course) : Course → Prop
  | own {c' : Course} (h : Own c c') : Solitary c c'
  | cancels : Solitary c { c with cancelled := true }
  | advances {now : Nat} (h : c.now ≤ now) : Solitary c { c with now }
  | meddles {registry : Registry} (h : registry.journal = c.registry.journal) :
    Solitary c { c with registry }

theorem Solitary.step (h : Solitary c c') : Step c c' := by
  cases h with
  | own h => exact .own h
  | cancels => exact .cancels
  | advances h => exact .advances h
  | meddles => exact .meddles _

end Course

/-- The courses that a run may come to if it writes its journal alone. -/
def Opening.Leads (o : Opening) (c : Course) : Prop :=
  ∃ c₀, o.course = .ok c₀ ∧ Relation.ReflTransGen Course.Solitary c₀ c

namespace Opening

variable {o : Opening} {c c' : Course} {log : List Event}

theorem Reaches.recorded (h : o.Reaches c) (hr : c.run.session.Recorded log) (hown : c.Own c') :
    ∃ said, c'.registry.journal = c.registry.journal ++ said ∧ (∀ e ∈ said, e.IsInner) ∧
      c'.run.session.Recorded (log ++ said) := by
  have hs := h.sound
  have hb := hs.run.books
  have hquiet {s : Session} (h : s.Recorded log) : s.Recorded (log ++ []) := by
    rwa [List.append_nil]
  cases hown with
  | pass =>
    obtain ⟨said, hj, hd⟩ := Run.pass_tells c.run c.registry c.now hb.distinct
    have hrun : c.run.Recorded log :=
      ⟨hs.run, fun task ht p hp => h.budgeted ht hp, fun task ht p hp => h.blamed ht hp, hr⟩
    exact ⟨said, hj, hd.inner, (hd.recorded hrun).session⟩
  | complete _ n outcome =>
    obtain ⟨said, hj, ha⟩ := Run.complete_announces hs.run c.registry n c.cancelled outcome c.now
    refine ⟨said, hj, ha.inner, hr.announces ha hb (hs.run.complete _ _ _ _).books
      (Course.complete_follows hs n outcome).graph fun id p p' hp hp' => ?_⟩
    obtain ⟨task, ht, rfl⟩ := hb.exists_task hp
    rcases Course.complete_progress hs n outcome ht hp with hsame | ⟨_, -, -, -, q, hq, hreturn⟩
    · obtain rfl : p = p' := Option.some.inj (hsame.symm.trans hp')
      rw [p.news_self, List.append_nil]
      exact hr.told hp
    · obtain rfl : q = p' := Option.some.inj (hq.symm.trans hp')
      exact hreturn.told (h.budgeted ht hp) (h.blamed ht hp) (hr.told hp)
  | wake | leave => exact ⟨[], (List.append_nil _).symm, List.forall_mem_nil _, hquiet hr⟩
  | stop =>
    refine ⟨[], ?_, List.forall_mem_nil _, hquiet ?_⟩
    · rw [Course.registry_stop, List.append_nil]
    · rw [Course.session_stop]
      exact hr.cancel

theorem Leads.reaches (h : o.Leads c) : o.Reaches c := by
  obtain ⟨c₀, h₀, hc⟩ := h
  refine ⟨c₀, h₀, ?_⟩
  induction hc with
  | refl => exact .refl
  | tail _ hstep ih => exact ih.tail hstep.step

theorem journal_slotCount (coordinator : Coordinator) (reg : Registry) (total now : Nat) :
    (coordinator.slotCount reg total now).1.journal = reg.journal := by
  unfold Coordinator.slotCount
  split
  · rfl
  · dsimp only
    split <;> rfl

theorem journal_course {c₀ : Course} (h : o.course = .ok c₀) :
    ∃ slots, c₀.registry.journal =
      o.registry.journal ++ [.runStarted o.runId o.tasks.length slots] := by
  obtain ⟨graph, registry, count, hg, -, hcount, -, rfl⟩ := course_eq_ok.mp h
  have hj := journal_slotCount o.coordinator o.registry graph.size o.now
  have hsize : graph.tasks.length = o.tasks.length := by
    simpa [TaskGraph.ids] using congrArg List.length (TaskGraph.ids_of_build hg)
  rw [hcount] at hj
  exact ⟨count, by rw [← hj, ← hsize]; rfl⟩

theorem Leads.recorded (h : o.Leads c) : ∃ slots inner,
    c.registry.journal =
      o.registry.journal ++ .runStarted o.runId o.tasks.length slots :: inner ∧
    (∀ e ∈ inner, e.IsInner) ∧ c.run.session.Recorded inner := by
  obtain ⟨c₀, h₀, hc⟩ := h
  induction hc with
  | refl =>
    obtain ⟨slots, hj⟩ := journal_course h₀
    obtain ⟨graph, registry, count, -, -, -, -, rfl⟩ := course_eq_ok.mp h₀
    exact ⟨slots, [], hj, List.forall_mem_nil _, .start⟩
  | @tail c₁ c₂ hc₁ hstep ih =>
    obtain ⟨slots, inner, hj, hi, hr⟩ := ih
    cases hstep with
    | own hown =>
      obtain ⟨said, hj', hi', hr'⟩ := (Leads.reaches ⟨c₀, h₀, hc₁⟩).recorded hr hown
      refine ⟨slots, inner ++ said, ?_, List.forall_mem_append.mpr ⟨hi, hi'⟩, hr'⟩
      rw [hj', hj, List.append_assoc, List.cons_append]
    | cancels | advances => exact ⟨slots, inner, hj, hi, hr⟩
    | meddles hsame => exact ⟨slots, inner, hsame.trans hj, hi, hr⟩

-- ---------------------------------------------------------------------------
-- Ends of runs
-- ---------------------------------------------------------------------------

/-- How a run by itself ends: it has nothing left to do, or it was cancelled, at the latest during
its last pass. -/
inductive Ends (o : Opening) : Course → Prop
  | finished {c : Course} (h : o.Leads c) (hp : c.phase = .ended) : Ends o c
  | stopped {c : Course} (h : o.Leads c) (hc : c.cancelled = true) : Ends o c.stop

theorem Ends.recorded (h : o.Ends c) : ∃ slots inner,
    c.registry.journal =
      o.registry.journal ++ .runStarted o.runId o.tasks.length slots :: inner ∧
    (∀ e ∈ inner, e.IsInner) ∧ c.run.session.Recorded inner := by
  cases h with
  | finished h => exact h.recorded
  | @stopped c h =>
    obtain ⟨slots, inner, hj, hi, hr⟩ := h.recorded
    refine ⟨slots, inner, ?_, hi, ?_⟩
    · rw [Course.registry_stop]
      exact hj
    · rw [Course.session_stop]
      exact hr.cancel

theorem Ends.books (h : o.Ends c) : c.run.session.Books := by
  cases h with
  | finished h => exact h.reaches.sound.run.books
  | stopped h =>
    rw [Course.session_stop]
    exact h.reaches.sound.run.books.cancel

theorem Ends.over (h : o.Ends c) : c.run.session.Over := by
  cases h with
  | finished h hp => exact h.reaches.sound.ended hp
  | stopped h =>
    rw [Course.session_stop]
    exact Session.over_cancel _

theorem Ends.graph (h : o.Ends c) : TaskGraph.build o.tasks = .ok c.run.session.graph := by
  cases h with
  | finished h => exact h.reaches.graph
  | stopped h =>
    rw [Course.session_stop]
    exact h.reaches.graph

theorem Ends.skipReason {id : String} {p : Progress} (h : o.Ends c)
    (hn : c.run.session.cancelled = false) (hp : c.run.session.progress? id = some p) :
    p.skipReason ≠ some .cancelled := by
  cases h with
  | finished h =>
    obtain ⟨task, ht, rfl⟩ := h.reaches.sound.run.books.exists_task hp
    intro hs
    cases hn.symm.trans ((h.reaches.blamed ht hp).cancelled hs)
  | stopped h =>
    rw [Course.session_stop] at hn
    cases hn

end Opening

-- ---------------------------------------------------------------------------
-- What the log says
-- ---------------------------------------------------------------------------

namespace Session

variable {s : Session} {log : List Event} {id : String} {p : Progress}

theorem Recorded.congr {log' : List Event} (h : s.Recorded log)
    (hw : ∀ id, wordsOf log' id = wordsOf log id) : s.Recorded log' :=
  ⟨fun hp => (hw _).symm ▸ h.told hp, fun hp => (hw _).trans (h.unknown hp)⟩

theorem Recorded.tells (h : s.Recorded log) (id : String) :
    ∃ t, Tale.Tells (wordsOf log id) t := by
  cases hp : s.progress? id with
  | none => exact ⟨{}, by rw [h.unknown hp]; rfl⟩
  | some p =>
    obtain ⟨t, ht, -⟩ := h.told hp
    exact ⟨t, ht⟩

theorem Recorded.mem_ids (h : s.Recorded log) (hk : s.progress.keys = s.graph.ids) {e : Event}
    (he : e ∈ log) (ht : e.taskId? = some id) : id ∈ s.graph.ids := by
  rw [← progress?_isSome_iff hk, ← Option.ne_none_iff_isSome]
  intro hp
  have hnone := List.filterMap_eq_nil_iff.mp (h.unknown hp) e he
  have hsome := Event.isSome_word? ht
  rw [hnone] at hsome
  cases hsome

/-- Over all tasks together, as many things of one kind are said as there are events of it. -/
theorem Recorded.sum_countP (h : s.Recorded log) (hb : s.Books) (kind : Word → Bool) :
    (s.graph.ids.map fun id => (wordsOf log id).countP kind).sum =
      log.countP fun e => e.taskId?.any fun id => e.speaks id kind := by
  rw [← sum_countP_speaks hb.distinct kind fun e he id => h.mem_ids hb.keys he]
  exact congrArg List.sum (List.map_congr_left fun id _ => (countP_speaks log id kind).symm)

theorem countP_isRetry (log : List Event) :
    (log.countP fun e => e.taskId?.any fun id => e.speaks id Word.isAgain) =
      log.countP (·.kind = "task_retry_scheduled") := by
  refine List.countP_congr fun e _ => ?_
  cases e <;> simp [Event.taskId?, Event.speaks, Event.word?, Word.isAgain, Event.kind]

theorem countP_isEnd (log : List Event) :
    (log.countP fun e => e.taskId?.any fun id => e.speaks id Word.isEnded) =
      log.countP (·.kind = "task_resolved") := by
  refine List.countP_congr fun e _ => ?_
  cases e <;> simp [Event.taskId?, Event.speaks, Event.word?, Word.isEnded, Event.kind]

theorem Recorded.totalRetries (h : s.Recorded log) (hb : s.Books) :
    (Report.ofSession s).summary.totalRetries = log.countP (·.kind = "task_retry_scheduled") := by
  have hcomplete : s.Complete := fun id hid => (progress?_isSome_iff hb.keys).mpr hid
  refine (foldl_rows (·.retriesUsed)).trans ?_
  rw [map_snd_rows (·.retriesUsed) hcomplete, ← countP_isRetry, ← h.sum_countP hb]
  refine congrArg List.sum (List.map_congr_left fun id hid => ?_)
  obtain ⟨p, hp⟩ := Option.isSome_iff_exists.mp (hcomplete id hid)
  rw [hp]
  exact (h.told hp).retriesUsed

theorem Recorded.ending (h : s.Recorded log) (ho : s.Over) {e : TaskReport}
    (he : e ∈ (Report.ofSession s).entries) :
    (wordsOf log e.taskId).filterMap Word.ending? =
      if e.skipReason = some .cancelled then [] else [(e.status, e.attempts)] := by
  obtain ⟨id, p, -, hp, rfl⟩ := Report.mem_entries.mp he
  refine (h.told hp).ending.trans ?_
  change p.ending?.toList = if p.skipReason = some .cancelled then _ else _
  rw [Progress.ending?]
  by_cases hc : p.skipReason = some .cancelled
  · rw [if_neg (fun hn => hn.2 hc), if_pos hc]
    rfl
  · rw [if_pos ⟨ho hp, hc⟩, if_neg hc]
    rfl

theorem Recorded.length_active {before after : List Event} (h : s.Recorded (before ++ after))
    (hb : s.Books) :
    (Display.shown before).active.length = s.graph.ids.countP (isUnderWay before) := by
  refine Display.length_active_shown hb.distinct
    (fun e he id => h.mem_ids hb.keys (List.mem_append_left after he)) fun id => ?_
  obtain ⟨t, ht⟩ := h.tells id
  rw [wordsOf_append] at ht
  exact ht.prefix

theorem Recorded.ends (h : s.Recorded log) (hb : s.Books) (ho : s.Over)
    (hc : ∀ {id p}, s.progress? id = some p → p.skipReason ≠ some .cancelled) :
    log.countP (·.kind = "task_resolved") = s.graph.size ∧ ∀ id, isUnderWay log id = false := by
  have hend {id : String} {p : Progress} (hp : s.progress? id = some p) :
      (wordsOf log id).countP Word.isEnded = 1 := by
    have hone : (wordsOf log id).filterMap Word.ending? =
        [(TaskReport.statusOf p.state, p.attempts)] := by
      rw [(h.told hp).ending, Progress.ending?, if_pos ⟨ho hp, hc hp⟩]
      rfl
    rw [← List.length_singleton (a := (TaskReport.statusOf p.state, p.attempts)), ← hone,
      List.length_filterMap_eq_countP]
    refine List.countP_congr fun w _ => ?_
    cases w <;> simp [Word.isEnded, Word.ending?]
  refine ⟨?_, fun id => ?_⟩
  · have hones : (s.graph.ids.map fun id => (wordsOf log id).countP Word.isEnded) =
        s.graph.ids.map fun _ => 1 := by
      refine List.map_congr_left fun id hid => ?_
      obtain ⟨p, hp⟩ := Option.isSome_iff_exists.mp ((progress?_isSome_iff hb.keys).mpr hid)
      exact hend hp
    rw [← countP_isEnd, ← h.sum_countP hb, hones, List.map_const', List.sum_replicate_nat,
      Nat.mul_one]
    exact List.length_map _
  · cases hp : s.progress? id with
    | none =>
      rw [← Bool.not_eq_true, isUnderWay, Bool.and_eq_true, any_speaks, h.unknown hp]
      rintro ⟨⟨w, hw, -⟩, -⟩
      cases hw
    | some p =>
      have hended : log.any (·.speaks id Word.isEnded) := by
        rw [any_speaks, ← List.countP_pos_iff, hend hp]
        exact Nat.one_pos
      rw [isUnderWay, hended, Bool.not_true, Bool.and_false]

end Session

namespace Opening

variable {o : Opening} {c : Course}

/-- What was announced of a run agrees with its report. Between its start and its end it tells of
each task in order, so that calls are of the attempt after the announced retries; every task that
was not cancelled is announced as ended just once and as it is reported, there is nothing about
anything else, and all announced retries are counted. A display that is fed with it always has as
many lines as there are tasks under way, the run is over just when the last event says so, and if it
was not cancelled all of its tasks have ended by then. -/
theorem log_agrees (h : o.Ends c) (started now : Nat) :
    let finished := Coordinator.finish c.run c.registry started now
    let report := finished.1
    ∃ slots inner,
      let first : Event := .runStarted o.runId o.tasks.length slots
      let last : Event := .runFinished report.runId (now - started) report.cancelled
      let log := first :: inner ++ [last]
      finished.2.journal = o.registry.journal ++ log ∧ (∀ e ∈ inner, e.IsInner) ∧
      Chronological log ∧
      (∀ e ∈ report.entries, (wordsOf log e.taskId).filterMap Word.ending? =
        if e.skipReason = some .cancelled then [] else [(e.status, e.attempts)]) ∧
      (∀ e ∈ log, ∀ id, e.taskId? = some id → id ∈ report.entries.map (·.taskId)) ∧
      report.summary.totalRetries = log.countP (·.kind = "task_retry_scheduled") ∧
      (∀ before after, log = before ++ after → (Display.shown before).active.length =
        o.tasks.countP fun task => isUnderWay before task.id) ∧
      (∀ d : Display, (∀ e ∈ first :: inner, (d.handle e).2 = false) ∧ (d.handle last).2 = true) ∧
      (report.cancelled = false →
        (Display.shown (first :: inner)).position = report.summary.totalTasks ∧
        (Display.shown log).position = report.summary.totalTasks ∧
        (Display.shown log).active = []) := by
  intro finished report
  obtain ⟨slots, inner, hj, hi, hr⟩ := h.recorded
  have hb := h.books
  have hids := TaskGraph.ids_of_build h.graph
  have hentries : report.entries.map (·.taskId) = c.run.session.graph.ids :=
    Report.map_taskId_entries fun id hid => (Session.progress?_isSome_iff hb.keys).mpr hid
  refine ⟨slots, inner, ?_⟩
  intro first last log
  have hbegun : c.run.session.Recorded (first :: inner) := hr.congr fun id => by
    simp [first, wordsOf_cons, Event.word?]
  have hwhole : c.run.session.Recorded log := hbegun.congr fun id => by
    simp [log, last, wordsOf_cons, wordsOf_append, Event.word?]
  have hgoes {e : Event} (he : e ∈ first :: inner) : e.kind ≠ "run_finished" := by
    rcases List.mem_cons.mp he with rfl | he
    · simp [first, Event.kind]
    · have hinner := hi e he
      cases e <;> simp_all [Event.kind, Event.IsInner]
  refine ⟨?_, hi, chronological_of_tells hwhole.tells, fun e => hwhole.ending h.over,
    fun e he id ht => hentries ▸ hwhole.mem_ids hb.keys he ht, hwhole.totalRetries hb,
    fun before after hlog => ?_, fun d => ⟨fun e he => ?_, rfl⟩, fun hn => ?_⟩
  · change c.registry.journal ++ [last] = _
    rw [hj, List.append_assoc]
  · rw [hlog] at hwhole
    rw [hwhole.length_active hb, hids, List.countP_map]
    rfl
  · rw [← Bool.not_eq_true, Display.over_handle]
    exact hgoes he
  · have hnone {id : String} {p : Progress} (hp : c.run.session.progress? id = some p) :=
      h.skipReason hn hp
    obtain ⟨hresolved, -⟩ := hbegun.ends hb h.over hnone
    obtain ⟨-, hway⟩ := hwhole.ends hb h.over hnone
    have hlength : (Display.shown (first :: inner)).length = o.tasks.length :=
      Display.length_shown _ _ _ hi
    have htotal : o.tasks.length = c.run.session.graph.size := by
      rw [← List.length_map (·.id), ← hids]
      exact List.length_map _
    refine ⟨(Display.position_shown fun e => hgoes).trans hresolved, ?_, ?_⟩
    · rw [Display.shown_concat]
      exact hlength.trans htotal
    · refine List.eq_nil_iff_forall_not_mem.mpr fun id hid => ?_
      rw [Display.mem_active_shown hwhole.tells, hway] at hid
      cases hid

theorem relay_logged :
    let finished := Coordinator.finish relayEnded.run relayEnded.registry 0 0
    Chronological finished.2.journal ∧
      finished.2.journal.map (·.kind) =
        ["run_started", "task_dispatched", "task_resolved", "task_resolved", "run_finished"] ∧
      (Display.shown finished.2.journal).position = 2 ∧
      (Display.shown finished.2.journal).active = [] := by
  have hleads : relay.Leads relayEnded :=
    ⟨_, course_relay, (((Relation.ReflTransGen.single (.own (.pass rfl rfl))).tail
      (.own (.complete (by decide +kernel) 1 _))).tail (.own (.pass rfl rfl))).tail
      (.own (.leave (by decide +kernel) rfl))⟩
  obtain ⟨slots, inner, hj, -, hlog, -, -, -, -, -, hends⟩ :=
    log_agrees (.finished hleads rfl) 0 0
  obtain ⟨-, hposition, hactive⟩ := hends (by decide +kernel)
  have hkinds : (Coordinator.finish relayEnded.run relayEnded.registry 0 0).2.journal.map
      (·.kind) =
        ["run_started", "task_dispatched", "task_resolved", "task_resolved", "run_finished"] := by
    decide +kernel
  refine ⟨hj ▸ hlog, hkinds, ?_, hj ▸ hactive⟩
  rw [hj]
  exact hposition.trans (by decide +kernel)

end Opening

end Crew
