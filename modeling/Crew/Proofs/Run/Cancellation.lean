import Crew.Proofs.Run.Arrivals
import Crew.Proofs.Run.Dispatched
import Crew.Proofs.Run.Reported
import Crew.Proofs.Run.Trials

/-!
# Cancellation

A run looks at the token before each pass, whenever it goes on waiting, and once more before it
ends. If the token has fired it sends nothing out any more but stops, and a stopped run does nothing
at all (`Course.BrokenOff`): what has not ended is skipped, every slot and every lease is given
back, and no breaker hears of anything. That the loads go down by just the calls that are abandoned
holds wherever loads count leases, as they do in a concourse, each member of which is a course by
itself (`Concourse.History.reaches`).

A run that waits looks at the token before it looks at its calls, though. If the token fires between
the two, one call may come back abandoned before the run stops (`Course.own_iff`). That call brings
no result and is otherwise given up like all the others, but it is settled like a call whose worker
has left (`Course.Forsakes`): if it is the last of its attempt and others have brought results
(`Session.Hangs`), the attempt is closed with these, and the task of a cancelled run may still
succeed or fail (`abandoned_call_settles`).
-/

namespace Crew

open Concourse (History)

-- ---------------------------------------------------------------------------
-- What is given back
-- ---------------------------------------------------------------------------

namespace Registry

theorem release_eq (reg : Registry) (lease : Lease) :
    reg.release lease = { reg with workers := reg.workers.map fun r =>
      { r with load := r.load - if r.granted lease then 1 else 0 } } := by
  rw [release, modify]
  congr 1
  refine List.map_congr_left fun r _ => ?_
  by_cases hw : r.workerId = lease.workerId
  · by_cases hs : r.seq = lease.seq
    · simp [Registration.granted, hw, hs]
    · simp [Registration.granted, hw, hs, Ne.symm hs]
  · simp [Registration.granted, hw, Ne.symm hw]

/-- Giving back leases lowers the loads of their registrations and changes nothing else. -/
theorem foldl_release (leases : List Lease) (reg : Registry) :
    leases.foldl release reg = { reg with workers := reg.workers.map fun r =>
      { r with load := r.load - leases.countP r.granted } } := by
  induction leases generalizing reg with
  | nil => simp
  | cons lease rest ih =>
    rw [List.foldl_cons, ih, release_eq]
    dsimp only
    rw [List.map_map]
    congr 1
    refine List.map_congr_left fun r _ => ?_
    have hgranted : Registration.granted
        { r with load := r.load - if r.granted lease then 1 else 0 } = r.granted := rfl
    rw [Function.comp_apply, hgranted, List.countP_cons, Nat.sub_sub, Nat.add_comm]

end Registry

theorem Report.entry?_ofSession {s : Session} {id : String} {p : Progress} (hc : s.Complete)
    (hn : s.graph.ids.Nodup) (hid : id ∈ s.graph.ids) (hp : s.progress? id = some p) :
    Report.entry? (.ofSession s) id = some (TaskReport.ofProgress id p) := by
  rw [← map_taskId_entries hc] at hn
  exact find?_of_nodup_map hn (mem_entries.mpr ⟨id, p, hid, hp, rfl⟩)

namespace Progress

variable {p : Progress}

theorem cancel_of_isTerminal (h : p.state.isTerminal) : p.cancel = p := if_pos h

theorem cancel_of_not_isTerminal (h : p.state.isTerminal = false) :
    p.cancel = { p with state := .skipped, outstanding := 0, skipReason := some .cancelled } :=
  if_neg (by simp [h])

theorem Answered.canonical_eq_none (h : p.Answered) (ht : p.state.isTerminal = false) :
    p.canonical = none := by
  rw [← Option.not_isSome_iff_eq_none, h.canonical]
  rintro hs
  simp [hs, TaskState.isTerminal] at ht

/-- A call that brings nothing leaves its task open, unless it completes an attempt with results. -/
theorem Return.open {task : Task} {p' : Progress} {n n' : Nat} (h : p.Return task none n p' n')
    (hn : ¬ (n = 1 ∧ p.batch ≠ [])) : p'.state.isTerminal = false := by
  cases h with
  | hear hp => exact congrArg TaskState.isTerminal hp
  | requeue => rfl
  | close _ h1 hb => exact absurd ⟨h1, fun he => hb ((List.append_nil _).trans he)⟩ hn

end Progress

namespace Run

theorem workers_closeAttempt (run : Run) (reg : Registry) (taskId : String)
    (results : List TaskResult) (now : Nat) :
    (run.closeAttempt reg taskId results now).2.workers = reg.workers := by
  unfold closeAttempt
  split
  · rfl
  · split
    · rfl
    · dsimp only
      split <;> rfl

/-- The end of a call that was abandoned changes nothing of a registry but the load. -/
theorem workers_complete {run : Run} {call : Call} {n : Nat}
    (hf : run.calls.find? (·.assignment.id = n) = some call) (reg : Registry) (outcome : Outcome)
    (now : Nat) :
    (run.complete reg n true outcome now).2.workers = (reg.release call.lease).workers := by
  obtain ⟨completion, -, he⟩ := complete_account hf reg true outcome now
  rw [he]
  unfold account
  split
  · exact workers_closeAttempt _ _ _ _ _
  · rfl

end Run

/-- The last call of an attempt that has brought results is still out. -/
def Session.Hangs (s : Session) (id : String) : Prop :=
  s.callsOf id = 1 ∧ s.batchOf id ≠ []

namespace Course

variable {o : Opening} {c c' c'' : Course} {call : Call} {id : String} {p : Progress}

theorem run_stop (c : Course) : c.stop.run =
    { c.run with
      session := c.run.session.cancel
      calls := []
      slots := { c.run.slots with free := c.run.slots.free + c.run.calls.length } } :=
  c.run.cancel_eq c.registry

theorem registry_stop (c : Course) : c.stop.registry = { c.registry with
    workers := c.registry.workers.map fun r =>
      { r with load := r.load - (c.run.calls.map (·.lease)).countP r.granted } } := by
  rw [← Registry.foldl_release, List.foldl_map]
  exact c.run.cancel_registry c.registry

theorem progress?_stop (c : Course) (id : String) :
    c.stop.run.session.progress? id = (c.run.session.progress? id).map (·.cancel) := by
  rw [session_stop, Session.progress?_cancel]

-- ---------------------------------------------------------------------------
-- What a cancelled run does
-- ---------------------------------------------------------------------------

theorem own_iff (hc : c.cancelled = true) (hp : c.phase ≠ .ended) :
    c.Own c' ↔ c' = c.stop ∨ c.phase = .wait ∧ ∃ n outcome, c' = c.complete n outcome := by
  constructor
  · rintro (⟨-, h⟩ | ⟨hw, n, outcome⟩ | ⟨-, h⟩ | ⟨-, h⟩ | ⟨-, -⟩)
    · cases hc.symm.trans h
    · exact .inr ⟨hw, n, outcome, rfl⟩
    · cases hc.symm.trans h
    · cases hc.symm.trans h
    · exact .inl rfl
  · rintro (rfl | ⟨hw, n, outcome, rfl⟩)
    · exact .stop hp hc
    · exact .complete hw n outcome

theorem Own.sends_nothing (h : c.Own c') (hc : c.cancelled = true) :
    c'.registry.dispatched = c.registry.dispatched := by
  cases h with
  | pass _ hn | wake _ hn | leave _ hn => cases hc.symm.trans hn
  | complete _ n outcome => exact Run.dispatched_complete _ _ _ _ _ _
  | stop => exact Run.dispatched_cancel _ _

/-- A call has come back abandoned. Its slot and its load are given back, no breaker has heard of
it, nothing was sent out, no result has come in and no other task is touched. Its own task is still
open, but for the last call of an attempt with results: the attempt is resolved with these. -/
structure Forsakes (c : Course) (call : Call) (c' : Course) : Prop where
  calls : c'.run.calls = c.run.calls.filter (·.assignment.id ≠ call.assignment.id)
  slots : c'.run.slots = c.run.slots.release
  workers : c'.registry.workers = (c.registry.release call.lease).workers
  dispatched : c'.registry.dispatched = c.registry.dispatched
  results : c'.run.session.results = c.run.session.results
  others : ∀ id, id ≠ call.assignment.taskId →
    c'.run.session.progress? id = c.run.session.progress? id
  remains : ¬ c.run.session.Hangs call.assignment.taskId →
    ∃ p, c'.run.session.progress? call.assignment.taskId = some p ∧ p.state.isTerminal = false
  resolves : c.run.session.Hangs call.assignment.taskId →
    c'.run.canonical? call.assignment.taskId = c.run.policy.resolver.resolve call.assignment.taskId
      (c.run.session.batchOf call.assignment.taskId) c.run.session.trust

theorem forsakes (h : o.Reaches c) (hc : c.cancelled = true) (hm : call ∈ c.run.calls)
    (outcome : Outcome) : c.Forsakes call (c.complete call.assignment.id outcome) := by
  have hs := h.sound
  have hin := hs.run.mem_inFlight hm
  have hnone : call.yield c.cancelled c.registry outcome c.now = none := by
    rw [hc]
    rfl
  have hreturn := c.return_complete hs hm outcome
  rw [hnone] at hreturn
  obtain ⟨p, hp, hrunning⟩ := hs.run.books.running_of_mem hin
  obtain ⟨task, ht, hid⟩ := hs.run.books.exists_task hp
  refine ⟨hreturn.calls, hreturn.slots, ?_, Run.dispatched_complete _ _ _ _ _ _, ?_,
    fun id hne => hreturn.progress?_ne hs.run.books hin hne, fun hhangs => ?_, fun hhangs => ?_⟩
  · have hworkers := Run.workers_complete (hs.run.find?_calls hm) c.registry outcome c.now
    rw [← hc] at hworkers
    exact hworkers
  · rw [hreturn.heard hs.run.books hin]
    exact List.append_nil _
  · rw [← hid] at hp hhangs ⊢
    obtain ⟨p', hp', hreturned⟩ := hreturn.progress hs.run.books hin ht hid.symm hp
    rw [Session.Hangs, Session.batchOf_of_progress? hp] at hhangs
    exact ⟨p', hp', hreturned.open hhangs⟩
  · have hcanonical := hs.run.complete_canonical hm rfl hp hhangs.1 c.registry c.cancelled outcome
      c.now
    have hbefore : p.canonical = none :=
      (h.answered ht (hid ▸ hp)).canonical_eq_none (by rw [hrunning]; rfl)
    rw [hnone, hbefore, Option.or_none, Option.toList_none, List.append_nil,
      ← Session.batchOf_of_progress? hp] at hcanonical
    exact hcanonical

/-- A run that was cancelled and has not stopped yet has lost one call at most, and none while it
still waits. -/
structure WindsDown (c : Course) (spared : Option String) (c' : Course) : Prop where
  cancelled : c'.cancelled = true
  unended : c'.phase ≠ .ended
  waits : c'.phase = .wait → c.phase = .wait ∧ c'.run = c.run
  capacity : c'.run.slots.capacity = c.run.slots.capacity
  results : c'.run.session.results = c.run.session.results
  remains : ∀ id p, c.run.session.progress? id = some p → p.state.isTerminal = false →
    id ∉ spared → ∃ p', c'.run.session.progress? id = some p' ∧ p'.state.isTerminal = false

theorem windsDown_self (hc : c.cancelled = true) (hp : c.phase ≠ .ended) : c.WindsDown none c :=
  ⟨hc, hp, fun hw => ⟨hw, rfl⟩, rfl, rfl, fun _ p h hopen _ => ⟨p, h, hopen⟩⟩

/-- The task of the call that is lost is spared if it hung by that call. -/
theorem WindsDown.complete {spared : Option String} (h : c.WindsDown spared c') (ho : o.Reaches c')
    (hw : c'.phase = .wait) (n : Nat) (outcome : Outcome) :
    ∃ spared, (∀ id ∈ spared, c.phase = .wait ∧ c.run.session.Hangs id) ∧
      c.WindsDown spared (c'.complete n outcome) := by
  obtain ⟨hwait, hrun⟩ := h.waits hw
  rcases c'.complete_cases n outcome with hsame | ⟨call, hm, rfl, -⟩
  · have hrun := hsame.trans hrun
    refine ⟨none, nofun, h.cancelled, nofun, nofun, ?_, ?_, fun id p hp hopen _ => ⟨p, ?_, hopen⟩⟩
    · rw [hrun]
    · rw [hrun]
    · rw [hrun]
      exact hp
  · have hf := forsakes ho h.cancelled hm outcome
    rw [← hrun]
    have hcapacity : (c'.complete call.assignment.id outcome).run.slots.capacity =
        c.run.slots.capacity := by
      rw [hf.slots, ← h.capacity]
      rfl
    have hothers (id : String) (p : Progress) (hp : c.run.session.progress? id = some p)
        (hne : id ≠ call.assignment.taskId) :
        (c'.complete call.assignment.id outcome).run.session.progress? id = some p :=
      (hf.others id hne).trans (hrun ▸ hp)
    by_cases hhangs : c'.run.session.Hangs call.assignment.taskId
    · refine ⟨some call.assignment.taskId, fun id hid => ?_, h.cancelled, nofun, nofun, hcapacity,
        hf.results.trans h.results, fun id p hp hopen hn => ?_⟩
      · obtain rfl := Option.some.inj hid
        exact ⟨hwait, hhangs⟩
      · exact ⟨p, hothers id p hp fun he => hn (he ▸ rfl), hopen⟩
    · refine ⟨none, nofun, h.cancelled, nofun, nofun, hcapacity, hf.results.trans h.results,
        fun id p hp hopen _ => ?_⟩
      by_cases hid : id = call.assignment.taskId
      · exact hid ▸ hf.remains hhangs
      · exact ⟨p, hothers id p hp hid, hopen⟩

/-- A run was broken off: every slot is given back, no call is taken any more, what had ended is
reported as it was, and of all else nothing is reported but that it was skipped, the spared task
excepted, if any. -/
structure BrokenOff (c : Course) (spared : Option String) (c' : Course) : Prop where
  calls : c'.run.calls = []
  free : c'.run.slots.free = c'.run.slots.capacity
  capacity : c'.run.slots.capacity = c.run.slots.capacity
  results : c'.run.session.results = c.run.session.results
  stale : ∀ n result now, c'.run.session.settle n result now = (c'.run.session, .stale)
  cancelled : ∀ started now,
    (Coordinator.finish c'.run c'.registry started now).1.cancelled = true
  keeps : ∀ id p, c.run.session.progress? id = some p → p.state.isTerminal →
    c'.run.session.progress? id = some p ∧ ∀ started now,
      Report.entry? (Coordinator.finish c'.run c'.registry started now).1 id =
        some (TaskReport.ofProgress id p)
  skips : ∀ id p, c.run.session.progress? id = some p → p.state.isTerminal = false → id ∉ spared →
    (∃ p', c'.run.session.progress? id = some p' ∧ p'.state = .skipped ∧
      p'.skipReason = some .cancelled ∧ p'.canonical = none ∧ p'.outstanding = 0) ∧
    ∀ started now, ∃ e,
      Report.entry? (Coordinator.finish c'.run c'.registry started now).1 id = some e ∧
      e.status = .skipped ∧ e.skipReason = some .cancelled ∧ e.payload = none ∧
      e.workerId = none ∧ e.conflict = none

theorem entry_stop (h : o.Reaches c) (hp : c.run.session.progress? id = some p) :
    Report.entry? (.ofSession c.stop.run.session) id =
      some (TaskReport.ofProgress id p.cancel) := by
  have hgraph : c.stop.run.session.graph = c.run.session.graph := by
    rw [session_stop]
    rfl
  have hbooks := h.sound.run.books
  have hid := (Session.progress?_isSome_iff hbooks.keys).mp (by rw [hp]; rfl)
  have hcancelled : c.stop.run.session.progress? id = some p.cancel := by
    rw [progress?_stop, hp]
    rfl
  refine Report.entry?_ofSession (fun other ho => ?_) (hgraph ▸ hbooks.distinct) (hgraph ▸ hid)
    hcancelled
  rw [progress?_stop, Option.isSome_map]
  exact h.complete other (hgraph ▸ ho)

theorem brokenOff_stop (h : o.Reaches c) : c.BrokenOff none c.stop := by
  refine ⟨?_, ?_, ?_, ?_, fun n result now => ?_, fun _ _ => ?_, fun id p hp ht => ?_,
    fun id p hp ht _ => ?_⟩
  · rw [run_stop]
  · rw [run_stop]
    exact h.sound.run.slots
  · rw [run_stop]
  · rw [session_stop]
    rfl
  · refine Session.settle_of_unknown ?_ result now
    rw [session_stop]
    rfl
  · change c.stop.run.session.cancelled = true
    rw [session_stop]
    rfl
  · have hentry := entry_stop h hp
    rw [p.cancel_of_isTerminal ht] at hentry
    refine ⟨?_, fun _ _ => hentry⟩
    rw [progress?_stop, hp, Option.map_some, p.cancel_of_isTerminal ht]
  · obtain ⟨task, hm, rfl⟩ := h.sound.run.books.exists_task hp
    have hnone := (h.answered hm hp).canonical_eq_none ht
    have hentry := entry_stop h hp
    have hstop := c.progress?_stop task.id
    rw [hp, Option.map_some, p.cancel_of_not_isTerminal ht] at hstop
    rw [p.cancel_of_not_isTerminal ht] at hentry
    refine ⟨⟨_, hstop, rfl, rfl, hnone, rfl⟩, fun _ _ => ⟨_, hentry, rfl, rfl, ?_, ?_, ?_⟩⟩
    · simp [TaskReport.ofProgress, hnone]
    · simp [TaskReport.ofProgress, hnone]
    · simp [TaskReport.ofProgress, hnone]

theorem BrokenOff.congr {spared : Option String} (h : c.BrokenOff spared c')
    (hr : c''.run = c'.run) : c.BrokenOff spared c'' := by
  obtain ⟨hcalls, hfree, hcapacity, hresults, hstale, hcancelled, hkeeps, hskips⟩ := h
  rw [← hr] at hcalls hfree hcapacity hresults hstale hcancelled hkeeps hskips
  exact ⟨hcalls, hfree, hcapacity, hresults, hstale, hcancelled, hkeeps, hskips⟩

theorem WindsDown.stop {spared : Option String} (h : c.WindsDown spared c') (ho : o.Reaches c')
    (hf : c.run.session.Follows c'.run.session) : c.BrokenOff spared c'.stop := by
  obtain ⟨hcalls, hfree, hcapacity, hresults, hstale, hcancelled, hkeeps, hskips⟩ :=
    brokenOff_stop ho
  refine ⟨hcalls, hfree, hcapacity.trans h.capacity, hresults.trans h.results, hstale, hcancelled,
    fun id p hp ht => hkeeps id p (hf.ended hp ht) ht, fun id p hp hopen hn => ?_⟩
  obtain ⟨p', hp', hopen'⟩ := h.remains id p hp hopen hn
  exact hskips id p' hp' hopen' nofun

theorem not_own_of_ended (hp : c.phase = .ended) : ¬ c.Own c' := by
  rintro (⟨h, -⟩ | ⟨h, -⟩ | ⟨h, -⟩ | ⟨h, -⟩ | ⟨h, -⟩)
  · cases hp.symm.trans h
  · cases hp.symm.trans h
  · cases hp.symm.trans h
  · cases hp.symm.trans h
  · exact h hp

/-- Around a run that has ended anything may happen, but not to it. -/
theorem Steps.of_ended (hp : c.phase = .ended) (h : c.Steps c') :
    c'.phase = .ended ∧ c'.run = c.run := by
  induction h with
  | refl => exact ⟨hp, rfl⟩
  | tail _ hr ih =>
    cases hr with
    | own hown => exact absurd hown (not_own_of_ended ih.1)
    | cancels | advances | meddles => exact ih

/-- A run that was cancelled winds down until it is broken off. -/
theorem Steps.of_cancelled (ho : o.Reaches c) (hc : c.cancelled = true) (hp : c.phase ≠ .ended)
    (h : c.Steps c') :
    ∃ spared, (∀ id ∈ spared, c.phase = .wait ∧ c.run.session.Hangs id) ∧
      (c.WindsDown spared c' ∨
        c'.cancelled = true ∧ c'.phase = .ended ∧ c.BrokenOff spared c') := by
  induction h with
  | refl => exact ⟨none, nofun, .inl (windsDown_self hc hp)⟩
  | @tail c₁ c₂ hbefore hr ih =>
    have ho₁ := ho.trans hbefore
    obtain ⟨spared, hhangs, hwinds | ⟨hc₁, hended, hbroken⟩⟩ := ih
    · have ⟨hc₁, hunended, hwaits, hcapacity, hresults, hremains⟩ := hwinds
      cases hr with
      | own hown =>
        rcases (own_iff hc₁ hunended).mp hown with rfl | ⟨hw, n, outcome, rfl⟩
        · exact ⟨spared, hhangs,
            .inr ⟨hc₁, rfl, hwinds.stop ho₁ (Steps.follows ho.sound hbefore)⟩⟩
        · obtain ⟨spared', hhangs', hwinds'⟩ := hwinds.complete ho₁ hw n outcome
          exact ⟨spared', hhangs', .inl hwinds'⟩
      | cancels =>
        exact ⟨spared, hhangs, .inl ⟨rfl, hunended, hwaits, hcapacity, hresults, hremains⟩⟩
      | advances | meddles =>
        exact ⟨spared, hhangs, .inl ⟨hc₁, hunended, hwaits, hcapacity, hresults, hremains⟩⟩
    · cases hr with
      | own hown => exact absurd hown (not_own_of_ended hended)
      | cancels => exact ⟨spared, hhangs, .inr ⟨rfl, hended, hbroken.congr rfl⟩⟩
      | advances | meddles => exact ⟨spared, hhangs, .inr ⟨hc₁, hended, hbroken.congr rfl⟩⟩

end Course

-- ---------------------------------------------------------------------------
-- Members of a concourse
-- ---------------------------------------------------------------------------

namespace Concourse

variable {k k' : Concourse} {log notes : List (Nat × Note)} {i : Nat} {m m' : Member}

/-- Seen from one member, others only change the registry and the clock. -/
theorem Step.course (h : k.Step notes k') (hm : k'.members[i]? = some m') :
    (∃ o : Opening, o.course = .ok (k'.course m')) ∨
      ∃ m, k.members[i]? = some m ∧ (k.course m).Steps (k'.course m') := by
  -- a member that stays sees another registry at most
  have hstays (registry : Registry) {members : List Member} (hm : members[i]? = some m') :
      (k.course m').Steps { k.course m' with registry } := .single (.meddles registry)
  cases h with
  | @joins o c hr hn hc =>
    dsimp only at hm
    rw [List.getElem?_append] at hm
    split at hm
    · exact .inr ⟨m', hm, hstays c.registry hm⟩
    · obtain rfl := List.mem_singleton.mp (List.mem_of_getElem? hm)
      refine .inl ⟨o, hc.trans ?_⟩
      obtain ⟨graph, registry, count, -, -, -, -, rfl⟩ := Opening.course_eq_ok.mp hc
      rw [← hn]
      rfl
  | @acts j m notes c hj hd =>
    by_cases he : j = i
    · subst he
      obtain rfl : c.member = m' := Option.some.inj ((getElem?_set_self hj c.member).symm.trans hm)
      refine .inr ⟨m, hj, ?_⟩
      have hnow : k.now = c.now := by cases hd <;> rfl
      change (k.course m).Steps { c with now := k.now }
      rw [hnow]
      exact .single (.own hd.own)
    · have hold : k.members[i]? = some m' := by simpa [he] using hm
      exact .inr ⟨m', hold, hstays c.registry hold⟩
  | @cancels j m hj =>
    by_cases he : j = i
    · subst he
      obtain rfl : { m with cancelled := true } = m' :=
        Option.some.inj ((getElem?_set_self hj _).symm.trans hm)
      exact .inr ⟨m, hj, .single .cancels⟩
    · have hold : k.members[i]? = some m' := by simpa [he] using hm
      exact .inr ⟨m', hold, .refl⟩
  | advances hle => exact .inr ⟨m', hm, .single (.advances hle)⟩
  | tends | reports | takes | returns => exact .inr ⟨m', hm, .single (.meddles _)⟩

theorem History.reaches (h : History log k) (hm : k.members[i]? = some m) :
    ∃ o : Opening, o.Reaches (k.course m) := by
  induction h generalizing m with
  | empty => cases hm
  | step _ hs ih =>
    rcases hs.course hm with ⟨o, hc⟩ | ⟨m₀, hm₀, hsteps⟩
    · exact ⟨o, _, hc, .refl⟩
    · obtain ⟨o, ho⟩ := ih hm₀
      exact ⟨o, ho.trans hsteps⟩

theorem History.countP_leases_le (h : History log k) (hm : k.members[i]? = some m)
    {r : Registration} (hr : r ∈ k.registry.workers) : m.leases.countP r.granted ≤ r.load := by
  obtain ⟨others, hperm, -⟩ := leases_set k.registry hm
  rw [h.orderly.loaded.load r hr, hperm.countP_eq, List.countP_append]
  exact Nat.le_add_right _ _

end Concourse

-- ---------------------------------------------------------------------------
-- Runs that are cancelled
-- ---------------------------------------------------------------------------

namespace Opening

/-- A run that was cancelled does nothing but stop, save that one call may come back abandoned
before if the run was waiting. From then on nothing is sent out, no result comes in and no breaker
hears of anything. Once stopped the run never changes again: what had ended is left alone, all else
is skipped, every slot and the load of every call is given back, and whatever call ends is stale.
One task is excepted if it hung by its last call, and that was the one to come back abandoned; its
attempt is then resolved with the results it has. All this holds at every point of a run. Each
member of a concourse is at such a point, and there the loads of the workers do cover the calls that
are given back. -/
theorem cancellation_clean (c : Course) :
    (∀ o : Opening, o.Reaches c →
      (c.cancelled = true → c.phase ≠ .ended →
        (∀ c', c.Own c' ↔ c' = c.stop ∨ c.phase = .wait ∧ ∃ n outcome, c' = c.complete n outcome) ∧
        (∀ call ∈ c.run.calls, ∀ outcome,
          c.Forsakes call (c.complete call.assignment.id outcome)) ∧
        ∀ c', c.Steps c' →
          c'.run.session.results = c.run.session.results ∧
          (∀ c'', c'.Own c'' → c''.registry.dispatched = c'.registry.dispatched) ∧
          (c'.phase = .ended → ∃ spared,
            (∀ id ∈ spared, c.phase = .wait ∧ c.run.session.Hangs id) ∧
            c.BrokenOff spared c')) ∧
      c.BrokenOff none c.stop ∧
      (∀ c', c.stop.Steps c' → c'.run = c.stop.run ∧ ∀ c'', ¬ c'.Own c'') ∧
      c.stop.registry = { c.registry with workers := c.registry.workers.map fun r =>
        { r with load := r.load - (c.run.calls.map (·.lease)).countP r.granted } }) ∧
    ∀ log k, History log k → ∀ (i : Nat) m, k.members[i]? = some m → k.course m = c →
      (∃ o : Opening, o.Reaches c) ∧
      ∀ r ∈ c.registry.workers, (c.run.calls.map (·.lease)).countP r.granted ≤ r.load := by
  refine ⟨fun o h => ⟨fun hc hp => ⟨fun c' => Course.own_iff hc hp,
      fun call hm outcome => Course.forsakes h hc hm outcome, fun c' hs => ?_⟩,
    Course.brokenOff_stop h, fun c' hs => ?_, c.registry_stop⟩, fun log k h i m hm he => ?_⟩
  · obtain ⟨spared, hhangs, hwinds | ⟨hcancelled, hended, hbroken⟩⟩ :=
      Course.Steps.of_cancelled h hc hp hs
    · exact ⟨hwinds.results, fun c'' hown => hown.sends_nothing hwinds.cancelled,
        fun hended => absurd hended hwinds.unended⟩
    · exact ⟨hbroken.results, fun c'' hown => hown.sends_nothing hcancelled,
        fun _ => ⟨spared, hhangs, hbroken⟩⟩
  · obtain ⟨hended, hrun⟩ := Course.Steps.of_ended rfl hs
    exact ⟨hrun, fun c'' => Course.not_own_of_ended hended⟩
  · subst he
    exact ⟨h.reaches hm, fun r hr => h.countP_leases_le hm hr⟩

/-- The solo, cancelled while its only call is in flight. -/
def soloCancelled : Course := { soloStart.pass with cancelled := true }

theorem solo_cancelled :
    soloCancelled.run.calls.length = 1 ∧
    (∀ c', soloCancelled.Steps c' → c'.phase = .ended →
      ∃ e, Report.entry? (Coordinator.finish c'.run c'.registry 0 0).1 "only" = some e ∧
        e.status = .skipped ∧ e.skipReason = some .cancelled) ∧
    soloCancelled.stop.run.slots.free = 1 ∧
    soloCancelled.registry.workers.map (·.load) = [1] ∧
    soloCancelled.stop.registry.workers.map (·.load) = [0] ∧
    ∃ r ∈ soloCancelled.registry.workers, r.load = 1 ∧
      (soloCancelled.run.calls.map (·.lease)).countP r.granted ≤ r.load := by
  obtain ⟨hruns, hmembers⟩ := cancellation_clean soloCancelled
  obtain ⟨log, hsent⟩ := history_soloSent
  have hcancels : (Concourse.alone soloStart.pass).Step [] (Concourse.alone soloCancelled) :=
    Concourse.Step.cancels (k := Concourse.alone soloStart.pass) (i := 0) rfl
  obtain ⟨⟨o, hreaches⟩, hcovered⟩ :=
    hmembers _ _ (hsent.step hcancels) 0 soloCancelled.member rfl rfl
  obtain ⟨hwinds, hstopped, -, -⟩ := hruns o hreaches
  obtain ⟨-, -, hends⟩ := hwinds rfl (by decide +kernel)
  have hworker : ∃ r ∈ soloCancelled.registry.workers, r.load = 1 := by decide +kernel
  obtain ⟨r, hr, hload⟩ := hworker
  have hrunning : ∃ p, soloCancelled.run.session.progress? "only" = some p ∧
      p.state.isTerminal = false := by
    refine ⟨_, (Option.some_get (by decide +kernel)).symm, ?_⟩
    decide +kernel
  obtain ⟨p, hp, hopen⟩ := hrunning
  have hnone : soloCancelled.run.session.batchOf "only" = [] := by decide +kernel
  refine ⟨by decide +kernel, fun c' hs hended => ?_, ?_, by decide +kernel, by decide +kernel, r,
    hr, hload, hcovered r hr⟩
  · obtain ⟨-, -, hbroken⟩ := hends c' hs
    obtain ⟨spared, hhangs, hbroken⟩ := hbroken hended
    -- the only task does not hang by its call, since no result is in
    obtain ⟨-, hreported⟩ := hbroken.skips "only" p hp hopen fun hid =>
      (hhangs "only" hid).2.2 hnone
    obtain ⟨e, he, hstatus, hreason, -⟩ := hreported 0 0
    exact ⟨e, he, hstatus, hreason⟩
  · rw [hstopped.free, hstopped.capacity]
    decide +kernel

/-- The duet, cancelled while it waits for the second of its answers. -/
def duetCancelled : Course := { (duetCalled.complete 1 duetYes).pass with cancelled := true }

/-- If the call that the duet still waits for comes back abandoned, the duet stops with its task
done, though the task was running when the run was cancelled. -/
theorem abandoned_call_settles : duet.Reaches duetCancelled ∧ duetCancelled.cancelled = true ∧
    duetCancelled.run.session.state? "only" = some .running ∧
    ∃ c', duetCancelled.Steps c' ∧ c'.phase = .ended ∧
      (Coordinator.finish c'.run c'.registry 0 0).1.cancelled = true ∧
      ∃ e, Report.entry? (Coordinator.finish c'.run c'.registry 0 0).1 "only" = some e ∧
        e.status = .success ∧ e.skipReason = none ∧ e.payload = some (.string "yes") := by
  have hreaches : duet.Reaches duetCancelled :=
    ((attains_duetCalled.reaches.trans (.single (.own (.complete rfl 1 duetYes)))).trans
      (.single (.own (.pass rfl rfl)))).trans (.single .cancels)
  have habandoned : duetCancelled.Steps (duetCancelled.complete 2 duetNo).stop :=
    (Relation.ReflTransGen.single (.own (.complete (by decide +kernel) 2 duetNo))).tail
      (.own (.stop nofun rfl))
  exact ⟨hreaches, rfl, by decide +kernel, _, habandoned, rfl, by decide +kernel, by decide +kernel⟩

end Opening

end Crew
