import Crew.Proofs.Rehearsal.Course
import Crew.Proofs.Run.Watch

/-!
# Rehearsals end

A rehearsal to which nothing is done from outside is one way to watch its run: it passes over the
tasks, takes an outcome that is still waited for, wakes up, leaves, or lets the clock go on to the
next instant at which something happens (`Rehearsal.Kept.step`). What it does besides, calls that
are begun and calls that tell their outcomes, comes to an end at every instant. So it ends, whatever
its players do (`Rehearsal.Kept.ends`).
-/

namespace Crew.Rehearsal

variable {r r' : Rehearsal} {calls : List Call} {o : Opening}

def watch (r : Rehearsal) : Watch := ⟨r.course, r.wake⟩

-- ---------------------------------------------------------------------------
-- Outcomes
-- ---------------------------------------------------------------------------

/-- The run waits for the calls whose outcomes are known, each of which is known once, and no call
is begun again. The given calls are not yet begun. -/
structure Tidy (r : Rehearsal) (calls : List Call) : Prop where
  known : ∀ x ∈ r.known, ∃ call ∈ r.run.calls, call.assignment.id = x.1
  once : (r.known.map (·.1)).Nodup
  begun : (r.underway.map (·.assignmentId) ++ calls.map (·.assignment.id)).Nodup
  numbered : ∀ id ∈ r.underway.map (·.assignmentId) ++ calls.map (·.assignment.id),
    id ≤ r.run.session.lastAssignment

/-- No call that is still waited for is overdue. -/
def Punctual (r : Rehearsal) : Prop :=
  ∀ call ∈ r.run.calls, r.awaits call.assignment.id → r.now < call.deadline

theorem awaits_iff {id : Nat} : r.awaits id ↔
    (∃ call ∈ r.run.calls, call.assignment.id = id) ∧ ∀ x ∈ r.known, x.1 ≠ id := by
  simp [awaits]

theorem Tidy.congr (h : r.Tidy calls) (hr : r'.run = r.run) (hk : r'.known = r.known)
    (hu : r'.underway = r.underway) : r'.Tidy calls := by
  obtain ⟨hknown, honce, hbegun, hnumbered⟩ := h
  rw [← hk, ← hr] at hknown
  rw [← hk] at honce
  rw [← hu] at hbegun hnumbered
  rw [← hr] at hnumbered
  exact ⟨hknown, honce, hbegun, hnumbered⟩

theorem Tidy.hears {more : List (Nat × Outcome)} (h : r.Tidy calls)
    (hm : ∀ x ∈ more, r.awaits x.1) (hn : (more.map (·.1)).Nodup) :
    Tidy { r with known := r.known ++ more } calls := by
  refine ⟨fun x hx => ?_, ?_, h.begun, h.numbered⟩
  · rcases List.mem_append.mp hx with hx | hx
    · exact h.known x hx
    · exact (awaits_iff.mp (hm x hx)).1
  · rw [List.map_append]
    refine List.nodup_append.mpr ⟨h.once, hn, fun a ha b hb => ?_⟩
    obtain ⟨x, hx, rfl⟩ := List.mem_map.mp ha
    obtain ⟨y, hy, rfl⟩ := List.mem_map.mp hb
    exact (awaits_iff.mp (hm y hy)).2 x hx

theorem Tidy.expire (h : r.Tidy calls) (hs : r.run.Sound) : r.expire.Tidy calls := by
  refine h.hears (fun x hx => ?_) ?_
  · obtain ⟨call, hc, rfl⟩ := List.mem_map.mp hx
    exact (Bool.and_eq_true_iff.mp (List.mem_filter.mp hc).2).2
  · rw [List.map_map]
    exact hs.nodup_calls.sublist (List.filter_sublist.map _)

theorem punctual_expire (r : Rehearsal) : r.expire.Punctual := by
  intro call hc ha
  obtain ⟨hknown, hunheard⟩ := awaits_iff.mp ha
  by_contra hlt
  have hbefore : r.awaits call.assignment.id :=
    awaits_iff.mpr ⟨hknown, fun x hx => hunheard x (List.mem_append_left _ hx)⟩
  refine hunheard (call.assignment.id, .timedOut) (List.mem_append_right _ ?_) rfl
  refine List.mem_map.mpr ⟨call, List.mem_filter.mpr ⟨hc, ?_⟩, rfl⟩
  rw [hbefore, Bool.and_true]
  exact decide_eq_true (Nat.le_of_not_lt hlt)

-- ---------------------------------------------------------------------------
-- What is not watched
-- ---------------------------------------------------------------------------

/-- Nothing has happened but that more outcomes are known. -/
structure Aside (r r' : Rehearsal) : Prop where
  course : r'.course = r.course
  wake : r'.wake = r.wake
  actions : r'.actions = r.actions
  known : ∀ x ∈ r.known, x ∈ r'.known

theorem Aside.trans {r'' : Rehearsal} (h : r.Aside r') (h' : r'.Aside r'') : r.Aside r'' :=
  ⟨h'.course.trans h.course, h'.wake.trans h.wake, h'.actions.trans h.actions,
    fun x hx => h'.known x (h.known x hx)⟩

theorem Aside.run (h : r.Aside r') : r'.run = r.run := congrArg Course.run h.course

theorem Aside.watch (h : r.Aside r') : r'.watch = r.watch := by
  rw [Rehearsal.watch, h.course, h.wake, Rehearsal.watch]

theorem Aside.punctual (h : r.Aside r') (hp : r.Punctual) : r'.Punctual := by
  intro call hc ha
  obtain ⟨hknown, hunheard⟩ := awaits_iff.mp ha
  rw [h.run] at hc hknown
  have hnow : r'.now = r.now := congrArg Course.now h.course
  rw [hnow]
  exact hp call hc (awaits_iff.mpr ⟨hknown, fun x hx => hunheard x (h.known x hx)⟩)

theorem aside_endCalls (r : Rehearsal) : r.Aside r.endCalls :=
  ⟨rfl, rfl, rfl, fun _ hx => List.mem_append_left _ hx⟩

theorem Tidy.endCalls (h : r.Tidy calls) : r.endCalls.Tidy calls := by
  let heard := (r.underway.filter (·.ends ≤ r.now)).filter fun c => r.awaits c.assignmentId
  have hheard : Tidy { r with known := r.known ++ heard.map fun c => (c.assignmentId, c.outcome) }
      calls := by
    refine h.hears (fun x hx => ?_) ?_
    · obtain ⟨c, hc, rfl⟩ := List.mem_map.mp hx
      exact (List.mem_filter.mp hc).2
    · rw [List.map_map]
      exact (List.nodup_append.mp h.begun).1.sublist
        ((List.filter_sublist.trans List.filter_sublist).map _)
  have hsub : ((r.underway.filter fun c => r.now < c.ends).map (·.assignmentId) ++
      calls.map (·.assignment.id)).Sublist
        (r.underway.map (·.assignmentId) ++ calls.map (·.assignment.id)) :=
    (List.filter_sublist.map _).append_right _
  exact ⟨hheard.known, hheard.once, h.begun.sublist hsub,
    fun id hid => h.numbered id (hsub.subset hid)⟩

/-- What becomes of a rehearsal when a call begins: it tells its outcome at once, its outcome is
lost, or it is under way. -/
inductive Begins (r : Rehearsal) (call : Call) : Rehearsal → Prop
  | tells (cast : Cast) (notes : List NotedCall) (outcome : Outcome)
    (ha : r.awaits call.assignment.id) :
    Begins r call { r with cast, notes, known := r.known ++ [(call.assignment.id, outcome)] }
  | loses (cast : Cast) (notes : List NotedCall) : Begins r call { r with cast, notes }
  | goes (cast : Cast) (notes : List NotedCall) {c : OpenCall}
    (hc : c.assignmentId = call.assignment.id) :
    Begins r call { r with cast, notes, underway := r.underway ++ [c] }

theorem begins_begin (r : Rehearsal) (call : Call) : r.Begins call (r.begin call) := by
  unfold begin
  dsimp only
  split
  · -- the case of a noted call and that of another are the same
    split
    all_goals
      split
      next ha => exact .tells _ _ _ ha
      · exact .loses _ _
  · exact .goes _ _ rfl

theorem Begins.aside {call : Call} (h : r.Begins call r') : r.Aside r' := by
  cases h with
  | tells => exact ⟨rfl, rfl, rfl, fun _ hx => List.mem_append_left _ hx⟩
  | loses | goes => exact ⟨rfl, rfl, rfl, fun _ hx => hx⟩

theorem Begins.unbegun {call : Call} (h : r.Begins call r') : r'.unbegun = r.unbegun := by
  cases h <;> rfl

theorem Begins.underway {call : Call} (h : r.Begins call r') :
    r'.underway.length ≤ r.underway.length + 1 := by
  cases h with
  | tells | loses => exact Nat.le_succ _
  | goes => exact Nat.le_of_eq List.length_append

theorem Begins.tidy {call : Call} {rest : List Call} (h : r.Begins call r')
    (ht : r.Tidy (call :: rest)) : r'.Tidy rest := by
  have hsub : (r.underway.map (·.assignmentId) ++ rest.map (·.assignment.id)).Sublist
      (r.underway.map (·.assignmentId) ++ (call :: rest).map (·.assignment.id)) :=
    (List.sublist_cons_self _ _).append_left _
  have hrest : r.Tidy rest :=
    ⟨ht.known, ht.once, ht.begun.sublist hsub, fun id hid => ht.numbered id (hsub.subset hid)⟩
  cases h with
  | tells cast notes outcome ha =>
    have hone : ∀ x ∈ [(call.assignment.id, outcome)], r.awaits x.1 :=
      List.forall_mem_singleton.mpr ha
    exact (hrest.hears hone (List.nodup_singleton _)).congr rfl rfl rfl
  | loses => exact hrest.congr rfl rfl rfl
  | @goes cast notes c hc =>
    have hids : (r.underway ++ [c]).map (·.assignmentId) ++ rest.map (·.assignment.id) =
        r.underway.map (·.assignmentId) ++ (call :: rest).map (·.assignment.id) := by
      rw [List.map_append, List.append_assoc, List.map_singleton, hc]
      rfl
    exact ⟨ht.known, ht.once, hids ▸ ht.begun, hids ▸ ht.numbered⟩

theorem foldl_begin (h : r.Tidy calls) : r.Aside (calls.foldl begin r) ∧
    (calls.foldl begin r).Tidy [] ∧ (calls.foldl begin r).unbegun = r.unbegun ∧
    (calls.foldl begin r).underway.length ≤ r.underway.length + calls.length := by
  induction calls generalizing r with
  | nil => exact ⟨⟨rfl, rfl, rfl, fun _ hx => hx⟩, h, rfl, Nat.le_refl _⟩
  | cons call rest ih =>
    have hb := r.begins_begin call
    obtain ⟨haside, htidy, hunbegun, hlength⟩ := ih (hb.tidy h)
    refine ⟨hb.aside.trans haside, htidy, hunbegun.trans hb.unbegun, ?_⟩
    have hone := hb.underway
    rw [List.length_cons]
    rw [List.foldl_cons]
    omega

-- ---------------------------------------------------------------------------
-- Steps
-- ---------------------------------------------------------------------------

/-- Nothing is done to the rehearsal from outside, and it keeps its books. -/
structure Kept (r : Rehearsal) : Prop where
  quiet : r.actions = []
  tidy : r.Tidy r.unbegun
  punctual : r.phase = .wait → r.Punctual

/-- How much can still be done at this instant that is not watched. -/
def bustle (r : Rehearsal) : Nat := 2 * r.unbegun.length + r.underway.length

theorem Kept.beginAll (h : r.Kept) (hu : r.unbegun ≠ []) :
    r.beginAll.Kept ∧ r.beginAll.watch = r.watch ∧ r.beginAll.bustle < r.bustle := by
  have htidy : Tidy { r with unbegun := [] } r.unbegun := h.tidy.congr rfl rfl rfl
  have hstart : r.Aside { r with unbegun := [] } := ⟨rfl, rfl, rfl, fun _ hx => hx⟩
  obtain ⟨hfold, hbegun, hunbegun, hlength⟩ := foldl_begin htidy
  have haside : r.Aside r.beginAll := hstart.trans hfold
  have hnone : r.beginAll.unbegun = [] := hunbegun
  refine ⟨⟨haside.actions.trans h.quiet, ?_, fun hp => ?_⟩, haside.watch, ?_⟩
  · rw [hnone]
    exact hbegun
  · exact haside.punctual (h.punctual ((congrArg Course.phase haside.course).symm.trans hp))
  · have hpos := List.length_pos_iff.mpr hu
    have hless : r.beginAll.underway.length ≤ r.underway.length + r.unbegun.length := hlength
    rw [bustle, bustle, hnone, List.length_nil]
    omega

theorem Kept.endCalls (h : r.Kept) (hd : r.underway.any (·.ends ≤ r.now)) :
    r.endCalls.Kept ∧ r.endCalls.watch = r.watch ∧ r.endCalls.bustle < r.bustle := by
  have haside := r.aside_endCalls
  refine ⟨⟨h.quiet, h.tidy.endCalls, fun hp => haside.punctual (h.punctual hp)⟩,
    haside.watch, ?_⟩
  have hless : (r.underway.filter fun c => r.now < c.ends).length < r.underway.length := by
    obtain ⟨c, hc, hdue⟩ := List.any_eq_true.mp hd
    refine List.length_filter_lt_length_iff_exists.mpr ⟨c, hc, ?_⟩
    simpa using hdue
  change 2 * r.unbegun.length + _ < 2 * r.unbegun.length + _
  exact Nat.add_lt_add_left hless _

theorem Kept.take {n : Nat} {outcome : Outcome} {rest : List (Nat × Outcome)} (h : r.Kept)
    (hk : r.known = (n, outcome) :: rest) :
    (({ r with known := rest } : Rehearsal).take n outcome).Kept := by
  have honce := h.tidy.once
  rw [hk, List.map_cons, List.nodup_cons] at honce
  have hreturn := Run.complete_return r.run r.registry n r.cancelled outcome r.now
  refine ⟨h.quiet, ⟨fun x (hx : x ∈ rest) => ?_, honce.2, h.tidy.begun, ?_⟩, fun hp => nomatch hp⟩
  · obtain ⟨call, hc, hid⟩ := h.tidy.known x (by rw [hk]; exact List.mem_cons_of_mem _ hx)
    refine ⟨call, ?_, hid⟩
    have hne : call.assignment.id ≠ n := by
      rintro rfl
      exact honce.1 (hid ▸ List.mem_map_of_mem (f := (·.1)) hx)
    change call ∈ (r.run.complete r.registry n r.cancelled outcome r.now).1.calls
    rcases hreturn with heq | ⟨_, -, -, hreturn⟩
    · rwa [heq]
    · rw [hreturn.calls]
      exact List.mem_filter.mpr ⟨hc, by simpa using hne⟩
  · intro id hid
    have hlast : (r.run.complete r.registry n r.cancelled outcome r.now).1.session.lastAssignment =
        r.run.session.lastAssignment := by
      rcases hreturn with heq | ⟨_, -, -, hreturn⟩
      · rw [heq]
      · exact hreturn.fields.2.2.2.1
    exact Nat.le_trans (h.tidy.numbered id hid) (Nat.le_of_eq hlast.symm)

theorem Kept.wake (h : r.Kept) : Kept { r with phase := .pass } :=
  ⟨h.quiet, h.tidy.congr rfl rfl rfl, fun hp => nomatch hp⟩

-- ---------------------------------------------------------------------------
-- Passes
-- ---------------------------------------------------------------------------

/-- A rehearsal after its pass, before it is known whether the run goes on. -/
def passed (r : Rehearsal) : Rehearsal :=
  { r with
    run := r.course.pass.run
    registry := r.course.pass.registry
    unbegun := r.unbegun ++ r.course.pass.run.calls.filter fun call =>
      r.run.session.lastAssignment < call.assignment.id
    wake := r.course.pass.run.wakeAt r.now }

theorem pass_eq (r : Rehearsal) : r.pass = if r.passed.run.session.isFinished then
    { r.passed with phase := .leave }
  else ({ r.passed with phase := .wait } : Rehearsal).expire := rfl

theorem watch_pass (r : Rehearsal) :
    r.pass.watch = ⟨r.course.pass, r.course.pass.run.wakeAt r.now⟩ := by
  rw [watch, course_pass, pass_eq]
  split <;> rfl

theorem Tidy.pass (h : r.Tidy calls) (hs : r.run.Sound) :
    Tidy { r with run := r.course.pass.run } (calls ++ r.course.pass.run.calls.filter fun call =>
      r.run.session.lastAssignment < call.assignment.id) := by
  have hrounds : Run.Rounds r.run r.course.pass.run := Run.pass_rounds hs.books.distinct
  have hs' : r.course.pass.run.Sound := hs.rounds hrounds
  let sent := r.course.pass.run.calls.filter fun call =>
    r.run.session.lastAssignment < call.assignment.id
  have hsent : ∀ id ∈ sent.map (·.assignment.id), r.run.session.lastAssignment < id ∧
      id ≤ r.course.pass.run.session.lastAssignment := by
    intro id hid
    obtain ⟨call, hc, rfl⟩ := List.mem_map.mp hid
    obtain ⟨hm, hnew⟩ := List.mem_filter.mp hc
    refine ⟨of_decide_eq_true hnew, hs'.books.le _ ?_⟩
    rw [← hs'.calls]
    exact List.mem_map_of_mem hm
  refine ⟨fun x hx => ?_, h.once, ?_, fun id hid => ?_⟩
  · obtain ⟨call, hc, hid⟩ := h.known x hx
    exact ⟨call, Run.Rounds.mem_calls hrounds hc, hid⟩
  · rw [List.map_append, ← List.append_assoc]
    refine List.nodup_append.mpr ⟨h.begun,
      hs'.nodup_calls.sublist (List.filter_sublist.map _), ?_⟩
    rintro id hid _ hnew rfl
    exact Nat.not_le.mpr (hsent id hnew).1 (h.numbered id hid)
  · rw [List.map_append, ← List.append_assoc] at hid
    rcases List.mem_append.mp hid with hid | hid
    · exact Nat.le_trans (h.numbered id hid) (Run.Rounds.lastAssignment_le hrounds)
    · exact (hsent id hid).2

theorem Kept.pass (h : r.Kept) (hs : r.run.Sound) : r.pass.Kept := by
  have hs' : r.course.pass.run.Sound := hs.rounds (Run.pass_rounds hs.books.distinct)
  rw [pass_eq]
  split
  · exact ⟨h.quiet, (h.tidy.pass hs).congr rfl rfl rfl, nofun⟩
  · exact ⟨h.quiet, Tidy.expire ((h.tidy.pass hs).congr rfl rfl rfl) hs',
      fun _ => punctual_expire _⟩

-- ---------------------------------------------------------------------------
-- The clock
-- ---------------------------------------------------------------------------

theorem actAll_of_quiet (h : r.actions = []) : r.actAll = r := by
  obtain ⟨run, registry, cast, now, actions⟩ := r
  cases h
  rfl

theorem next_eq_min (r : Rehearsal) : (r.wake :: (r.underway.map (·.ends) ++
    ((r.run.calls.filter fun call => r.awaits call.assignment.id).map (·.deadline)) ++
      r.actions.map (·.1))).min? = some r.next :=
  List.min?_cons'

theorem Kept.jump (h : r.Kept) (hs : r.run.Sound) (hp : r.phase = .wait) (hk : r.known = [])
    (hw : r.now < r.wake) (hu : ∀ c ∈ r.underway, r.now < c.ends) :
    r.jump.Kept ∧ ∃ now, r.jump.watch = ⟨{ r.course with now }, r.wake⟩ ∧ r.now < now ∧
      now ≤ r.wake ∧ ∀ call ∈ r.run.calls, now ≤ call.deadline := by
  have hawaits : ∀ call ∈ r.run.calls, r.awaits call.assignment.id := fun call hc =>
    awaits_iff.mpr ⟨⟨call, hc, rfl⟩, by rw [hk]; exact List.forall_mem_nil _⟩
  obtain ⟨hm, hle⟩ := List.min?_eq_some_iff.mp r.next_eq_min
  have hlt : r.now < r.next := by
    rw [h.quiet, List.map_nil, List.append_nil] at hm
    rcases List.mem_cons.mp hm with he | hm
    · exact he ▸ hw
    rcases List.mem_append.mp hm with hm | hm
    · obtain ⟨c, hc, he⟩ := List.mem_map.mp hm
      exact he ▸ hu c hc
    · obtain ⟨call, hc, he⟩ := List.mem_map.mp hm
      have hc := List.mem_of_mem_filter hc
      exact he ▸ h.punctual hp call hc (hawaits call hc)
  have hjump : r.jump = ({ r with now := r.next } : Rehearsal).expire := by
    have hquiet : ({ r with now := r.next } : Rehearsal).actAll = { r with now := r.next } :=
      actAll_of_quiet h.quiet
    rw [Rehearsal.jump, Nat.max_eq_right (Nat.le_of_lt hlt), hquiet]
  rw [hjump]
  have htidy : Tidy { r with now := r.next } r.unbegun := h.tidy.congr rfl rfl rfl
  refine ⟨⟨h.quiet, htidy.expire hs, fun _ => punctual_expire _⟩, r.next, rfl, hlt,
    hle _ List.mem_cons_self, fun call hc => ?_⟩
  refine hle _ (List.mem_cons_of_mem _ (List.mem_append_left _ (List.mem_append_right _ ?_)))
  exact List.mem_map_of_mem (List.mem_filter.mpr ⟨hc, hawaits call hc⟩)

-- ---------------------------------------------------------------------------
-- Ends
-- ---------------------------------------------------------------------------

/-- One step is watched, or it leaves less to do that is not. -/
def Goes (r r' : Rehearsal) : Prop :=
  r.watch.Step r'.watch ∨ r'.watch = r.watch ∧ r'.bustle < r.bustle

theorem Kept.step_pass (h : r.Kept) (hs : r.run.Sound) (hp : r.phase = .pass)
    (hc : r.cancelled = false) : r.step.Kept ∧ r.Goes r.step := by
  have hpass : r.step = r.pass := by
    simp [Rehearsal.step, hp, hc]
  rw [hpass]
  exact ⟨h.pass hs, .inl (r.watch_pass ▸ .passes hp hc)⟩

theorem Kept.step_leave (h : r.Kept) (hp : r.phase = .leave) (hc : r.cancelled = false) :
    r.step.Kept ∧ r.Goes r.step := by
  have hleave : r.step = { r with phase := .ended } := by
    simp [Rehearsal.step, hp, hc]
  rw [hleave]
  exact ⟨⟨h.quiet, h.tidy.congr rfl rfl rfl, nofun⟩, .inl (.leaves hp hc)⟩

theorem Kept.step_wait (h : r.Kept) (hs : r.run.Sound) (hp : r.phase = .wait)
    (hc : r.cancelled = false) : r.step.Kept ∧ r.Goes r.step := by
  have hlive : ¬ r.cancelled := Bool.eq_false_iff.mp hc
  unfold Rehearsal.step
  split
  next he => cases hp.symm.trans he
  next hpass => cases hp.symm.trans hpass
  next hleave => cases hp.symm.trans hleave
  rw [if_neg hlive]
  split
  next n outcome rest hknown =>
    have hfirst : (n, outcome) ∈ r.known := by
      rw [hknown]
      exact List.mem_cons_self
    obtain ⟨call, hm, rfl⟩ := h.tidy.known _ hfirst
    exact ⟨h.take hknown, .inl (.ends hp hm outcome)⟩
  next hnone =>
    split
    next hdue => exact ⟨h.wake, .inl (.wakes hp hc hdue)⟩
    next hearly =>
      split
      next hends => exact (h.endCalls hends).imp_right .inr
      next hunder =>
        split
        · have hu : ∀ c ∈ r.underway, r.now < c.ends := by simpa using hunder
          obtain ⟨hkept, now, hwatch, hlt, hle, hdeadlines⟩ :=
            h.jump hs hp hnone (Nat.lt_of_not_le hearly) hu
          exact ⟨hkept, .inl (hwatch ▸ .jumps hp hc hlt hle hdeadlines)⟩
        next hsome => exact (h.beginAll (by simpa using hsome)).imp_right .inr

theorem Kept.step (hk : r.Kept) (hs : r.run.Sound) (hp : r.phase ≠ .ended) :
    (r.step.phase = .ended ∧ ∃ wake, r.watch.Step ⟨r.step.course, wake⟩) ∨
      r.step.Kept ∧ r.Goes r.step := by
  cases hc : r.cancelled with
  | true =>
    have hstop : r.step = r.stop := by
      cases hphase : r.phase with
      | ended => exact absurd hphase hp
      | pass | wait | leave => simp [Rehearsal.step, hphase, hc]
    exact hstop ▸ .inl ⟨rfl, r.wake, .stops hp hc⟩
  | false =>
    cases hphase : r.phase with
    | ended => exact absurd hphase hp
    | pass => exact .inr (hk.step_pass hs hphase hc)
    | leave => exact .inr (hk.step_leave hphase hc)
    | wait => exact .inr (hk.step_wait hs hphase hc)

theorem play_succ {fuel : Nat} (h : r.phase ≠ .ended) : play (fuel + 1) r = play fuel r.step :=
  if_neg h

/-- The rehearsal of a run to which nothing is done from outside. -/
def undisturbed (c : Course) (cast : Cast) : Rehearsal where
  run := c.run
  registry := c.registry
  cast := cast
  now := c.now
  actions := []
  cancelled := c.cancelled
  wake := c.now
  phase := c.phase

theorem kept_undisturbed {c : Course} (h : c.phase = .pass) (cast : Cast) :
    (undisturbed c cast).Kept :=
  ⟨rfl, ⟨List.forall_mem_nil _, .nil, .nil, List.forall_mem_nil _⟩,
    fun hp => nomatch h.symm.trans hp⟩

theorem Kept.ends (hk : r.Kept) (h : Watch.InOrder o r.watch)
    (hi : Watch.Inevitably Watch.Over r.watch) : ∃ fuel wake,
      Watch.Steps r.watch ⟨(play fuel r).course, wake⟩ ∧
        Watch.Over ⟨(play fuel r).course, wake⟩ := by
  generalize hw : r.watch = w at hi
  induction hi generalizing r with
  | now hover =>
    subst hw
    exact ⟨0, r.wake, .refl, hover⟩
  | later _ _ ih =>
    -- what is not watched comes to an end in between
    induction hb : r.bustle using Nat.strong_induction_on generalizing r with
    | _ bustle ihb =>
      by_cases hp : r.phase = .ended
      · exact ⟨0, r.wake, hw ▸ .refl, hp, h.ended hp⟩
      rcases hk.step h.reaches.sound.run hp with ⟨he, wake, hstep⟩ | ⟨hk', hstep | ⟨hsame, hless⟩⟩
      · refine ⟨1, wake, ?_⟩
        rw [play_succ hp]
        exact ⟨.single (hw ▸ hstep), he, (h.step hstep).ended he⟩
      · obtain ⟨fuel, wake, hsteps, hover⟩ := ih _ (hw ▸ hstep) hk' (h.step hstep) rfl
        refine ⟨fuel + 1, wake, ?_⟩
        rw [play_succ hp]
        exact ⟨.head (hw ▸ hstep) hsteps, hover⟩
      · obtain ⟨fuel, wake, hends⟩ := ihb _ (hb ▸ hless) hk' (hsame ▸ h) (hsame.trans hw) rfl
        refine ⟨fuel + 1, wake, ?_⟩
        rw [play_succ hp]
        exact hends

end Crew.Rehearsal
