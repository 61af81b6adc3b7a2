import Crew.Proofs.Run.Changes

/-!
# What a run does to one task

The books of a session agree with each other (`Session.Books`): what is outstanding of a task are
its calls in flight, and a task runs as long as there are any. Seen from one task, a run is then a
small machine on its progress and the number of its calls: `Progress.Round` for the parts of a pass,
`Progress.Return` for the end of a call. Facts that concern one task at a time are proved of these.
-/

namespace Crew

/-- Calls in flight have distinct numbers, none of them above the latest. -/
structure Session.Numbered (s : Session) : Prop where
  le : ∀ a ∈ s.inFlight, a.id ≤ s.lastAssignment
  unique : (s.inFlight.map (·.id)).Nodup

/-- The books of a session agree with each other and with its graph. -/
structure Session.Books (s : Session) : Prop extends s.Numbered where
  keys : s.progress.keys = s.graph.ids
  distinct : s.graph.ids.Nodup
  known : ∀ a ∈ s.inFlight, a.taskId ∈ s.graph.ids
  outstanding : ∀ {id p}, s.progress? id = some p → p.outstanding = s.callsOf id
  running : ∀ {id p}, s.progress? id = some p → (p.state = .running ↔ 0 < s.callsOf id)

namespace Progress

/-- What one part of a pass makes of the progress of a task and of the number of its calls in
flight. -/
inductive Round (s : Session) (task : Task) (p : Progress) (n : Nat) : Progress → Nat → Prop
  | same : Round s task p n p n
  | skip {dep : String} (hp : p.state = .pending) (hm : dep ∈ task.dependencies)
      (hd : s.HasFailed dep) : Round s task p n (p.skip dep) n
  | release {expiry : Nat} (hp : p.state = .backoff expiry) :
      Round s task p n { p with state := .pending } n
  | wait (since : Option Nat) (hp : p.state = .pending) (he : s.Enables task) :
      Round s task p n { p with pendingSince := since } n
  | giveUp (waited : Nat) (hp : p.state = .pending) (he : s.Enables task) :
      Round s task p n (p.fail (UnavailableError.mk task.capability waited).message) n
  | send {k : Nat} (hk : 0 < k) (hp : p.state = .pending) (he : s.Enables task) :
      Round s task p n { p.begin with outstanding := k } (n + k)
  | withdraw (hp : p.state = .pending) (he : s.Enables task) : Round s task p n p.begin.abort n

/-- What the end of a complete attempt makes of the progress of a task. -/
inductive Ending (task : Task) (results : List TaskResult) (p : Progress) : Progress → Prop
  | succeed {resolver : Resolver} {trust : TrustTable} {canonical : CanonicalResult}
      (hc : resolver.resolve task.id results trust = some canonical) :
      Ending task results p (p.succeed canonical)
  | backOff (hr : p.retriesUsed < task.maxRetries) (expiry : Nat) (worker : Option String)
      (error : String) : Ending task results p (p.backOff expiry worker error)
  | exhaust (hr : task.maxRetries ≤ p.retriesUsed) (error : String) :
      Ending task results p (p.fail error)

/-- What the end of one of its calls makes of the progress of a task and of the number of its calls
in flight. -/
inductive Return (task : Task) (result : Option TaskResult) (p : Progress) (n : Nat) :
    Progress → Nat → Prop
  | hear (hp : p.state = .running) (hn : 1 < n) :
      Return task result p n (p.account result) (n - 1)
  | requeue (hp : p.state = .running) (hn : n = 1) (hb : (p.account result).batch = []) :
      Return task result p n (p.account result).requeue 0
  | close (hp : p.state = .running) (hn : n = 1) (hb : (p.account result).batch ≠ [])
      {p' : Progress}
      (he : Ending task (p.account result).batch { p.account result with batch := [] } p') :
      Return task result p n p' 0

end Progress

-- ---------------------------------------------------------------------------
-- Calls of one task
-- ---------------------------------------------------------------------------

theorem perm_cons_filter_ne {α κ : Type} [DecidableEq κ] {key : α → κ} {xs : List α} {x : α}
    (hn : (xs.map key).Nodup) (hx : x ∈ xs) :
    xs.Perm (x :: xs.filter fun y => key y ≠ key x) := by
  induction xs with
  | nil => cases hx
  | cons y ys ih =>
    rw [List.map_cons, List.nodup_cons] at hn
    rcases List.mem_cons.mp hx with rfl | hm
    · have hys : (ys.filter fun y => key y ≠ key x) = ys := by
        refine List.filter_eq_self.mpr fun z hz => ?_
        have hne : key z ≠ key x := fun he => hn.1 (he ▸ List.mem_map_of_mem hz)
        simpa using hne
      simp only [ne_eq, not_true_eq_false, decide_false, Bool.false_eq_true, not_false_eq_true,
        List.filter_cons_of_neg]
      simp only [ne_eq] at hys
      rw [hys]
    · have hne : key y ≠ key x := fun he => hn.1 (he ▸ List.mem_map_of_mem hm)
      rw [List.filter_cons_of_pos (by simpa using hne)]
      exact ((ih hn.2 hm).cons y).trans (List.Perm.swap x y _)

namespace Session

variable {s : Session} {a : Assignment} {id : String}

theorem callsOf_filter (hb : s.Books) (ha : a ∈ s.inFlight) :
    (s.inFlight.filter (·.id ≠ a.id)).countP (·.taskId = id) + (if a.taskId = id then 1 else 0) =
      s.callsOf id := by
  rw [callsOf, (perm_cons_filter_ne hb.unique ha).countP_eq, List.countP_cons]
  simp

theorem Books.find? (hb : s.Books) (ha : a ∈ s.inFlight) :
    s.inFlight.find? (·.id = a.id) = some a :=
  find?_of_nodup_map hb.unique ha

theorem Books.running_of_mem (hb : s.Books) (ha : a ∈ s.inFlight) :
    ∃ p, s.progress? a.taskId = some p ∧ p.state = .running := by
  obtain ⟨p, hp⟩ := Option.isSome_iff_exists.mp
    ((progress?_isSome_iff hb.keys).mpr (hb.known a ha))
  refine ⟨p, hp, (hb.running hp).mpr ?_⟩
  exact List.countP_pos_iff.mpr ⟨a, ha, by simp⟩

theorem Books.exists_task (hb : s.Books) {p : Progress} (hp : s.progress? id = some p) :
    ∃ task ∈ s.graph.tasks, task.id = id :=
  TaskGraph.mem_ids.mp ((progress?_isSome_iff hb.keys).mp (by simp [hp]))

theorem Books.progress?_eq_none {s' : Session} (hb : s.Books) (hb' : s'.Books)
    (hg : s'.graph = s.graph) : s'.progress? id = none ↔ s.progress? id = none := by
  rw [← Option.not_isSome_iff_eq_none, ← Option.not_isSome_iff_eq_none,
    progress?_isSome_iff hb.keys, progress?_isSome_iff hb'.keys, hg]

end Session

/-- No error rules a retry out, so the number of retries decides. -/
theorem RetryStrategy.lt_of_decide {strategy : RetryStrategy} {used limit delay : Nat}
    {error : String} (h : strategy.decide used limit error = some delay) : used < limit := by
  unfold decide shouldRetry at h
  split at h
  next hs => simp_all
  · cases h

theorem RetryStrategy.le_of_decide {strategy : RetryStrategy} {used limit : Nat} {error : String}
    (h : strategy.decide used limit error = none) : limit ≤ used := by
  unfold decide shouldRetry isFatal at h
  split at h
  · cases h
  next hs => simpa using hs

namespace Run

variable {run run' : Run} {task : Task} {p : Progress} {now : Nat}

-- ---------------------------------------------------------------------------
-- A pass, seen from one task
-- ---------------------------------------------------------------------------

theorem callsOf_foldl_place {attempt : Nat} {id : String} (leases : List Lease) :
    (leases.foldl (place task attempt now) run).session.callsOf id =
      run.session.callsOf id + if id = task.id then leases.length else 0 := by
  induction leases generalizing run with
  | nil => simp
  | cons lease rest ih =>
    have hp : (place task attempt now run lease).session.callsOf id =
        run.session.callsOf id + if id = task.id then 1 else 0 := by
      simp [place, Session.callsOf, Session.recordDispatch, List.countP_append,
        List.countP_cons, eq_comm]
    rw [List.foldl_cons, ih, hp]
    split
    · rw [List.length_cons]
      omega
    · rfl

theorem Turn.progress_self (h : Turn run task now run') (he : run.session.Enables task)
    (hp : run.session.progress? task.id = some p) (hs : p.state = .pending) :
    ∃ p', run'.session.progress? task.id = some p' ∧
      p.Round run.session task (run.session.callsOf task.id) p'
        (run'.session.callsOf task.id) := by
  cases h with
  | waits => exact ⟨_, Session.progress?_update_self _ _ _ hp, .wait none hs he⟩
  | lacks =>
    rw [withSession, Session.markWaiting, hp]
    exact ⟨_, Session.progress?_update_self _ _ _ hp, .wait _ hs he⟩
  | givesUp waited =>
    rw [withSession, Session.markWaiting, hp]
    refine ⟨_, Session.progress?_update_self _ _ _ (Session.progress?_update_self _ _ _ hp), ?_⟩
    exact .giveUp waited hs he
  | @sends attempt leases ha hne hfree =>
    rw [callsOf_foldl_place, if_pos rfl]
    exact ⟨_, progress?_sends hp, .send (List.length_pos_iff.mpr hne) hs he⟩
  | withdraws =>
    exact ⟨_, Session.progress?_update_self _ _ _ (progress?_opened hp), .withdraw hs he⟩

theorem Turn.callsOf_ne {id : String} (h : Turn run task now run') (hne : id ≠ task.id) :
    run'.session.callsOf id = run.session.callsOf id := by
  cases h with
  | waits => rfl
  | lacks => unfold Session.markWaiting; split <;> rfl
  | givesUp => unfold Session.markWaiting; split <;> rfl
  | sends => rw [callsOf_foldl_place, if_neg hne]; rfl
  | withdraws => rfl

theorem Round.progress (h : Round run run') (hn : run.session.graph.ids.Nodup)
    (ht : task ∈ run.session.graph.tasks) (hp : run.session.progress? task.id = some p) :
    ∃ p', run'.session.progress? task.id = some p' ∧
      p.Round run.session task (run.session.callsOf task.id) p'
        (run'.session.callsOf task.id) := by
  cases h with
  | @skips id dep hs hd =>
    by_cases he : task.id = id
    · subst he
      refine ⟨_, Session.progress?_update_self _ _ _ hp, .skip ?_ ?_ ?_⟩
      · rw [Session.state?_of_progress? hp] at hs
        exact Option.some.inj hs
      · rw [← TaskGraph.dependencies_of_mem hn ht]
        exact List.mem_of_find?_eq_some hd
      · simpa [Session.HasFailed] using List.find?_some hd
    · exact ⟨p, (Session.progress?_update_ne _ _ _ he).trans hp, .same⟩
  | releases now =>
    refine ⟨p.release now, by simp [withSession, hp], ?_⟩
    change p.Round _ _ _ _ (run.session.callsOf task.id)
    unfold Progress.release
    split
    next expiry hs =>
      split
      · exact .release hs
      · exact .same
    · exact .same
  | learns latest => exact ⟨p, hp, .same⟩
  | @turns turn now run' hm hr ht' =>
    obtain ⟨hs, he⟩ := Session.isReady_iff.mp hr
    by_cases hid : task.id = turn.id
    · obtain rfl := TaskGraph.eq_of_id_eq hn hm ht hid
      rw [Session.state?_of_progress? hp] at hs
      exact ht'.progress_self he hp (Option.some.inj hs)
    · refine ⟨p, (ht'.progress?_ne hid).trans hp, ?_⟩
      rw [ht'.callsOf_ne hid]
      exact .same
  | looks detector => exact ⟨p, hp, .same⟩

-- ---------------------------------------------------------------------------
-- The end of a call, seen from one task
-- ---------------------------------------------------------------------------

section
variable {s s' : Session} {a : Assignment} {result : Option TaskResult} {taskId : String}
  {results : List TaskResult} {settled : Settled}

theorem closed_of_settle (hb : s.Books) (ha : a ∈ s.inFlight)
    (hp : s.progress? a.taskId = some p)
    (hs : s.settle a.id result now = (s', .closed taskId results)) :
    taskId = a.taskId ∧ s.callsOf a.taskId = 1 ∧ (p.account result).batch ≠ [] ∧
      results = (p.account result).batch ∧
      s' = (s.strike a.id result now).update a.taskId
        fun _ => { p.account result with batch := [] } := by
  rw [Session.settle_of_find? (hb.find? ha) hp] at hs
  split at hs
  · cases hs
  next h0 =>
    split at hs
    · cases hs
    next hne =>
      cases hs
      refine ⟨rfl, ?_, by simpa using hne, rfl, rfl⟩
      obtain ⟨q, hq, hr⟩ := hb.running_of_mem ha
      have hpos := (hb.running hq).mp hr
      have hout : (p.account result).outstanding = s.callsOf a.taskId - 1 :=
        congrArg (· - 1) (hb.outstanding hp)
      omega

theorem Ending.fields {s' : Session} (h : Ending run s taskId results s') :
    s'.graph = s.graph ∧ s'.progress.keys = s.progress.keys ∧ s'.inFlight = s.inFlight ∧
      s'.lastAssignment = s.lastAssignment ∧ s'.peakInFlight = s.peakInFlight ∧
      s'.cancelled = s.cancelled ∧ s'.results = s.results := by
  cases h with
  | strays => exact ⟨rfl, rfl, rfl, rfl, rfl, rfl, rfl⟩
  | _ => exact ⟨rfl, Session.keys_update _ _ _, rfl, rfl, rfl, rfl, rfl⟩

theorem Ending.progress?_ne {id : String} (h : Ending run s taskId results s')
    (hne : id ≠ taskId) : s'.progress? id = s.progress? id := by
  cases h with
  | strays => rfl
  | _ => exact Session.progress?_update_ne _ _ _ hne

theorem Return.fields {n : Nat} (h : Return run n result run') :
    run'.session.graph = run.session.graph ∧
      run'.session.progress.keys = run.session.progress.keys ∧
      run'.session.inFlight = run.session.inFlight.filter (·.id ≠ n) ∧
      run'.session.lastAssignment = run.session.lastAssignment ∧
      run'.session.peakInFlight = run.session.peakInFlight ∧
      run'.session.cancelled = run.session.cancelled := by
  cases h with
  | @goesOn now s settled hs ho =>
    obtain ⟨hg, hk, hf, hl, hp, hc, -⟩ := run.session.settle_fields n result now
    rw [hs] at hg hk hf hl hp hc
    exact ⟨hg, hk, hf, hl, hp, hc⟩
  | @closes now s s' taskId results hs he =>
    obtain ⟨hg, hk, hf, hl, hp, hc, -⟩ := run.session.settle_fields n result now
    obtain ⟨hg', hk', hf', hl', hp', hc', -⟩ := he.fields
    rw [hs] at hg hk hf hl hp hc
    exact ⟨hg'.trans hg, hk'.trans hk, hf'.trans hf, hl'.trans hl, hp'.trans hp, hc'.trans hc⟩

theorem Return.heard (h : Return run a.id result run') (hb : run.session.Books)
    (ha : a ∈ run.session.inFlight) :
    run'.session.results = run.session.results ++ result.toList := by
  obtain ⟨p, hp, -⟩ := hb.running_of_mem ha
  have hr (now : Nat) :
      (run.session.settle a.id result now).1.results = run.session.results ++ result.toList := by
    rw [Session.settle_of_find? (hb.find? ha) hp]
    split
    · rfl
    · split <;> rfl
  cases h with
  | @goesOn now s settled hs ho =>
    rw [← hr now, hs]
    rfl
  | @closes now s s' taskId results hs he =>
    rw [← hr now, hs]
    exact he.fields.2.2.2.2.2.2

theorem Return.progress?_ne {id : String} (h : Return run a.id result run')
    (hb : run.session.Books) (ha : a ∈ run.session.inFlight) (hne : id ≠ a.taskId) :
    run'.session.progress? id = run.session.progress? id := by
  cases h with
  | @goesOn now s settled hs ho =>
    rw [← Session.progress?_settle_ne result now (hb.find? ha) hne, hs]
    rfl
  | @closes now s s' taskId results hs he =>
    obtain ⟨p, hp, -⟩ := hb.running_of_mem ha
    obtain ⟨rfl, -⟩ := closed_of_settle hb ha hp hs
    rw [← Session.progress?_settle_ne result now (hb.find? ha) hne, hs]
    exact he.progress?_ne hne

theorem Return.callsOf (h : Return run a.id result run') (hb : run.session.Books)
    (ha : a ∈ run.session.inFlight) (id : String) :
    run'.session.callsOf id + (if a.taskId = id then 1 else 0) = run.session.callsOf id := by
  rw [← Session.callsOf_filter hb ha, ← h.fields.2.2.1]
  rfl

theorem Ending.progress_self (h : Ending run s task.id results s')
    (hg : s.graph.get? task.id = some task) (hp : s.progress? task.id = some p) :
    ∃ p', s'.progress? task.id = some p' ∧ p.Ending task results p' := by
  have hu : ((s.progress? task.id).map (·.retriesUsed)).getD 0 = p.retriesUsed := by
    rw [hp]
    rfl
  cases h with
  | succeeds hc => exact ⟨_, Session.progress?_update_self _ _ _ hp, .succeed hc⟩
  | @backsOff known delay now hk hd =>
    obtain rfl : known = task := Option.some.inj (hk.symm.trans hg)
    rw [hu] at hd
    exact ⟨_, Session.progress?_update_self _ _ _ hp,
      .backOff (RetryStrategy.lt_of_decide hd) _ _ _⟩
  | @exhausts known hk hd =>
    obtain rfl : known = task := Option.some.inj (hk.symm.trans hg)
    rw [hu] at hd
    exact ⟨_, Session.progress?_update_self _ _ _ hp, .exhaust (RetryStrategy.le_of_decide hd) _⟩
  | strays hk => cases hk.symm.trans hg

theorem Return.progress (h : Return run a.id result run') (hb : run.session.Books)
    (ha : a ∈ run.session.inFlight) (ht : task ∈ run.session.graph.tasks)
    (hid : a.taskId = task.id) (hp : run.session.progress? task.id = some p) :
    ∃ p', run'.session.progress? task.id = some p' ∧
      p.Return task result (run.session.callsOf task.id) p' (run'.session.callsOf task.id) := by
  have hcalls := h.callsOf hb ha task.id
  rw [if_pos hid] at hcalls
  obtain ⟨q, hq, hrun⟩ := hb.running_of_mem ha
  rw [hid] at hq
  obtain rfl : p = q := Option.some.inj (hp.symm.trans hq)
  have hp' := hid.symm ▸ hp
  cases h with
  | @goesOn now s settled hs ho =>
    have hout : (p.account result).outstanding = run.session.callsOf task.id - 1 :=
      congrArg (· - 1) (hb.outstanding hp)
    rw [Session.settle_of_find? (hb.find? ha) hp', hid] at hs
    split at hs
    next h0 =>
      cases hs
      rw [Nat.eq_sub_of_add_eq hcalls]
      exact ⟨_, Session.progress?_update_self _ _ _ hp, .hear hrun (by omega)⟩
    next h0 =>
      have h1 : run.session.callsOf task.id = 1 := by omega
      split at hs
      next hb =>
        cases hs
        rw [Nat.eq_sub_of_add_eq hcalls, h1]
        exact ⟨_, Session.progress?_update_self _ _ _ hp,
          .requeue hrun rfl (List.isEmpty_iff.mp hb)⟩
      next hb =>
        cases hs
        exact absurd rfl (ho _ _)
  | @closes now s s' taskId results hs he =>
    obtain ⟨rfl, h1, hne, rfl, rfl⟩ := closed_of_settle hb ha hp' hs
    rw [hid] at he h1
    obtain ⟨p', hp', hend⟩ := he.progress_self (TaskGraph.get?_of_mem hb.distinct ht)
      (Session.progress?_update_self _ _ _ hp)
    have h0 : ((run.giveBack a.id).withSession s').session.callsOf task.id = 0 := by omega
    rw [h0]
    exact ⟨p', hp', .close hrun h1 hne hend⟩

end

end Run

end Crew
