import Crew.Proofs.Run.Queues

/-!
# Waiting for a capability

What the passes of a run find when they come to the ready tasks is noted beside the course
(`Opening.Sees`). The mark of a task is a function of these notes (`Sees.marked`): it says since
when the latest passes have found the task ready and its capability covered by nobody, without a
break. So a ready task is given up exactly if such passes reach back far enough
(`unavailable_exact`). The registry may change in any way between the passes.
-/

namespace Crew

/-- What a pass finds when it comes to the ready tasks. -/
structure Sight where
  now : Nat
  session : Session
  registry : Registry

namespace Sight

variable {task : Task} {sights : List Sight} {v : Sight}

/-- The task is ready, and nobody covers its capability. -/
def unserved (task : Task) (v : Sight) : Bool :=
  v.session.isReady task && !v.registry.covers task.capability

/-- Nobody was there for the task in any pass since the given one, which was the first. -/
def Drought (task : Task) (sights : List Sight) (first : Sight) : Prop :=
  ∃ rest, first :: rest <:+ sights ∧ ∀ v ∈ first :: rest, v.unserved task

/-- Since when the latest passes have found the task unserved. -/
def unservedSince (task : Task) (sights : List Sight) : Option Nat :=
  sights.foldl (fun since v => if v.unserved task then some (since.getD v.now) else none) none

theorem unservedSince_concat (task : Task) (sights : List Sight) (v : Sight) :
    unservedSince task (sights ++ [v]) =
      if v.unserved task then some ((unservedSince task sights).getD v.now) else none := by
  rw [unservedSince, List.foldl_append]
  rfl

theorem drought_concat {first : Sight} :
    Drought task (sights ++ [v]) first ↔
      v.unserved task ∧ (first = v ∨ Drought task sights first) := by
  constructor
  · rintro ⟨rest, hsuffix, hall⟩
    rcases List.suffix_concat_iff.mp hsuffix with hnil | ⟨stretch, he, hstretch⟩
    · cases hnil
    · rw [he] at hall
      refine ⟨hall v (List.mem_append_right _ List.mem_cons_self), ?_⟩
      cases stretch with
      | nil =>
        cases he
        exact .inl rfl
      | cons first' rest' =>
        cases he
        exact .inr ⟨rest', hstretch, fun w hw => hall w (List.mem_append_left [v] hw)⟩
  · rintro ⟨hv, rfl | ⟨rest, hsuffix, hall⟩⟩
    · exact ⟨[], List.suffix_append _ _, by simpa using hv⟩
    · refine ⟨rest ++ [v], List.suffix_concat_iff.mpr (.inr ⟨first :: rest, rfl, hsuffix⟩), ?_⟩
      intro w hw
      rw [← List.cons_append] at hw
      rcases List.mem_append.mp hw with hw | hw
      · exact hall w hw
      · rwa [List.mem_singleton.mp hw]

theorem drought_of_unservedSince {since : Nat} (h : unservedSince task sights = some since) :
    ∃ first, Drought task sights first ∧ first.now = since := by
  induction sights using List.reverseRecOn generalizing since with
  | nil => cases h
  | append_singleton sights v ih =>
    rw [unservedSince_concat] at h
    split at h
    next hv =>
      cases hs : unservedSince task sights with
      | none =>
        rw [hs] at h
        exact ⟨v, drought_concat.mpr ⟨hv, .inl rfl⟩, Option.some.inj h⟩
      | some earlier =>
        obtain ⟨first, hdrought, hnow⟩ := ih hs
        rw [hs] at h
        exact ⟨first, drought_concat.mpr ⟨hv, .inr hdrought⟩, hnow.trans (Option.some.inj h)⟩
    next => cases h

theorem le_of_drought {first : Sight} (hsorted : (sights.map (·.now)).Pairwise (· ≤ ·))
    (h : Drought task sights first) :
    ∃ since, unservedSince task sights = some since ∧ since ≤ first.now := by
  induction sights using List.reverseRecOn generalizing first with
  | nil =>
    obtain ⟨rest, hsuffix, -⟩ := h
    cases List.suffix_nil.mp hsuffix
  | append_singleton sights v ih =>
    rw [List.map_append, List.pairwise_append] at hsorted
    obtain ⟨hsorted, -, hlast⟩ := hsorted
    obtain ⟨hv, hfirst⟩ := drought_concat.mp h
    rw [unservedSince_concat, if_pos hv]
    refine ⟨_, rfl, ?_⟩
    rcases hfirst with rfl | hdrought
    · cases hs : unservedSince task sights with
      | none => exact Nat.le_refl _
      | some earlier =>
        obtain ⟨begun, ⟨rest, hsuffix, -⟩, rfl⟩ := drought_of_unservedSince hs
        exact hlast _ (List.mem_map_of_mem (hsuffix.subset List.mem_cons_self)) _
          (List.mem_map_of_mem List.mem_cons_self)
    · obtain ⟨since, hs, hle⟩ := ih hsorted hdrought
      rw [hs]
      exact hle

theorem sorted_concat (hsorted : (sights.map (·.now)).Pairwise (· ≤ ·))
    (hle : ∀ w ∈ sights, w.now ≤ v.now) :
    ((sights ++ [v]).map (·.now)).Pairwise (· ≤ ·) := by
  rw [List.map_append]
  refine List.pairwise_append.mpr ⟨hsorted, List.pairwise_singleton _ _, ?_⟩
  rintro _ hearlier _ hlast
  obtain ⟨w, hw, rfl⟩ := List.mem_map.mp hearlier
  rw [List.mem_singleton.mp hlast]
  exact hle w hw

theorem exists_drought_iff {patience now : Nat} (hsorted : (sights.map (·.now)).Pairwise (· ≤ ·)) :
    (∃ first, Drought task sights first ∧ patience ≤ now - first.now) ↔
      ∃ since, unservedSince task sights = some since ∧ patience ≤ now - since := by
  constructor
  · rintro ⟨first, hdrought, hlate⟩
    obtain ⟨since, hsince, hle⟩ := le_of_drought hsorted hdrought
    exact ⟨since, hsince, by omega⟩
  · rintro ⟨since, hsince, hlate⟩
    obtain ⟨first, hdrought, rfl⟩ := drought_of_unservedSince hsince
    exact ⟨first, hdrought, hlate⟩

end Sight

-- ---------------------------------------------------------------------------
-- Marks
-- ---------------------------------------------------------------------------

theorem Session.marked_kept : Session.Kept fun s task p =>
    p.pendingSince ≠ none → p.state.isTerminal ∨ p.state = .pending ∧ s.Enables task where
  mono hf hI hm := (hI hm).imp id fun ⟨hp, he⟩ => ⟨hp, hf.enables he⟩
  round := by
    intro s task p n p' n' hI hround hm
    cases hround with
    | same => exact hI hm
    | release hp =>
      rcases hI hm with ht | ⟨hpending, -⟩
      · rw [hp] at ht
        cases ht
      · cases hp.symm.trans hpending
    | wait since hp he => exact .inr ⟨hp, he⟩
    | withdraw hp he =>
      refine absurd ?_ hm
      simp [Progress.begin, Progress.abort]
    | skip | giveUp | send => exact absurd rfl hm
  back := by
    intro s task result p n p' n' hI hreturn hm
    have hrunning := hreturn.running
    have hnone : p.pendingSince = none := by
      by_contra hsome
      rcases hI hsome with ht | ⟨hpending, -⟩
      · rw [hrunning] at ht
        cases ht
      · cases hrunning.symm.trans hpending
    refine absurd ?_ hm
    cases hreturn with
    | hear | requeue => exact hnone
    | close _ _ _ he =>
      cases he with
      | succeed | backOff => exact hnone
      | exhaust => rfl
  cancel := by
    intro s task p hc hI hm
    unfold Progress.cancel
    split
    next ht => exact .inl ht
    next => exact .inl rfl

namespace Progress

variable {p p' : Progress} {task : Task} {n n' : Nat} {result : Option TaskResult}

def Unavailable (task : Task) (p : Progress) : Prop :=
  p.state = .permanentlyFailed ∧
    ∃ waited, p.error = some (UnavailableError.mk task.capability waited).message

/-- How a pass leaves a ready task, given since when it has waited if nobody is there for it. -/
inductive Verdict (task : Task) (patience since now : Nat) : Bool → Progress → Prop
  | served {p : Progress} (hopen : p.state.isTerminal = false) (hm : p.pendingSince = none) :
      Verdict task patience since now false p
  | waits {p : Progress} (hearly : now - since < patience) (hopen : p.state.isTerminal = false)
      (hm : p.pendingSince = some since) : Verdict task patience since now true p
  | givenUp {p : Progress} (hlate : patience ≤ now - since) (h : p.Unavailable task) :
      Verdict task patience since now true p

theorem Unavailable.isTerminal (h : p.Unavailable task) : p.state.isTerminal := by
  rw [h.1]
  rfl

theorem Return.unmarked (h : p.Return task result n p' n') (hp : p.pendingSince = none) :
    p'.pendingSince = none := by
  cases h with
  | hear | requeue => exact hp
  | close _ _ _ he =>
    cases he with
    | succeed | backOff => exact hp
    | exhaust => rfl

end Progress

-- ---------------------------------------------------------------------------
-- Courses
-- ---------------------------------------------------------------------------

namespace Course

variable {c c' : Course}

def sight (c : Course) : Sight where
  now := c.now
  session := (c.run.prepare c.registry c.now).1.session
  registry := (c.run.prepare c.registry c.now).2

/-- What happens to a course between its passes. -/
inductive Between (c : Course) : Course → Prop
  | completes (hp : c.phase = .wait) (assignmentId : Nat) (outcome : Outcome) :
    Between c (c.complete assignmentId outcome)
  | wakes (hp : c.phase = .wait) (hc : c.cancelled = false) : Between c c.wake
  | leaves (hp : c.phase = .leave) (hc : c.cancelled = false) : Between c c.leave
  | stops (hp : c.phase ≠ .ended) (hc : c.cancelled = true) : Between c c.stop
  | cancels : Between c { c with cancelled := true }
  | advances {now : Nat} (h : c.now ≤ now) : Between c { c with now }
  | meddles (registry : Registry) : Between c { c with registry }

theorem Between.step (h : c.Between c') : c.Step c' := by
  cases h with
  | completes hp n outcome => exact .own (.complete hp n outcome)
  | wakes hp hc => exact .own (.wake hp hc)
  | leaves hp hc => exact .own (.leave hp hc)
  | stops hp hc => exact .own (.stop hp hc)
  | cancels => exact .cancels
  | advances h => exact .advances h
  | meddles registry => exact .meddles registry

theorem Step.pass_or_between (h : c.Step c') :
    (c.phase = .pass ∧ c.cancelled = false ∧ c' = c.pass) ∨ c.Between c' := by
  cases h with
  | own hown =>
    cases hown with
    | pass hp hc => exact .inl ⟨hp, hc, rfl⟩
    | complete hp n outcome => exact .inr (.completes hp n outcome)
    | wake hp hc => exact .inr (.wakes hp hc)
    | leave hp hc => exact .inr (.leaves hp hc)
    | stop hp hc => exact .inr (.stops hp hc)
  | cancels => exact .inr .cancels
  | advances h => exact .inr (.advances h)
  | meddles registry => exact .inr (.meddles registry)

theorem Between.now_le (h : c.Between c') : c.now ≤ c'.now := by
  cases h with
  | advances h => exact h
  | _ => exact Nat.le_refl _

def Marked (sights : List Sight) (c : Course) : Prop :=
  ∀ task ∈ c.run.session.graph.tasks, ∀ p, c.run.session.progress? task.id = some p →
    p.state.isTerminal = false → p.pendingSince = Sight.unservedSince task sights

end Course

namespace Opening

variable {o : Opening} {c c' : Course} {sights : List Sight} {task : Task} {p q : Progress}

/-- A course that an opening reaches, with what its passes have seen on the way. -/
inductive Sees (o : Opening) : List Sight → Course → Prop
  | opens {c : Course} (h : o.course = .ok c) : Sees o [] c
  | passes {sights : List Sight} {c : Course} (h : Sees o sights c) (hp : c.phase = .pass)
      (hc : c.cancelled = false) : Sees o (sights ++ [c.sight]) c.pass
  | goesOn {sights : List Sight} {c c' : Course} (h : Sees o sights c) (hb : c.Between c') :
      Sees o sights c'

theorem Sees.reaches (h : o.Sees sights c) : o.Reaches c := by
  induction h with
  | opens h => exact ⟨_, h, .refl⟩
  | passes _ hp hc ih => exact ih.trans (.single (.own (.pass hp hc)))
  | goesOn _ hb ih => exact ih.trans (.single hb.step)

theorem Reaches.exists_sees (h : o.Reaches c) : ∃ sights, o.Sees sights c := by
  obtain ⟨c₀, h₀, hs⟩ := h
  induction hs with
  | refl => exact ⟨[], .opens h₀⟩
  | tail _ hstep ih =>
    obtain ⟨sights, hsees⟩ := ih
    rcases hstep.pass_or_between with ⟨hp, hc, rfl⟩ | hb
    · exact ⟨_, hsees.passes hp hc⟩
    · exact ⟨_, hsees.goesOn hb⟩

theorem Sees.sorted (h : o.Sees sights c) :
    (sights.map (·.now)).Pairwise (· ≤ ·) ∧ ∀ v ∈ sights, v.now ≤ c.now := by
  induction h with
  | opens => exact ⟨.nil, fun _ => nofun⟩
  | passes _ _ _ ih =>
    obtain ⟨hsorted, hle⟩ := ih
    refine ⟨Sight.sorted_concat hsorted hle, fun v hv => ?_⟩
    rcases List.mem_append.mp hv with hv | hv
    · exact hle v hv
    · rw [List.mem_singleton.mp hv]
      exact Nat.le_refl _
  | goesOn _ hb ih => exact ⟨ih.1, fun v hv => (ih.2 v hv).trans hb.now_le⟩

theorem Reaches.ready_of_marked (h : o.Reaches c) (ht : task ∈ c.run.session.graph.tasks)
    (hp : c.run.session.progress? task.id = some p) (hopen : p.state.isTerminal = false)
    (hm : p.pendingSince ≠ none) : c.run.session.isReady task := by
  have hkept := h.all Session.marked_kept (fun _ _ hm => absurd rfl hm) task ht p hp hm
  rw [hopen] at hkept
  obtain ⟨hpending, henables⟩ := hkept.resolve_left Bool.false_ne_true
  exact Session.isReady_iff.mpr ⟨Session.state?_eq_some.mpr ⟨p, hp, hpending⟩, henables⟩

-- ---------------------------------------------------------------------------
-- The wait
-- ---------------------------------------------------------------------------

theorem Reaches.ready_progress (h : o.Reaches c) (hmarked : c.Marked sights)
    (ht : task ∈ c.run.session.graph.tasks) (hready : c.sight.session.isReady task) :
    ∃ q, c.sight.session.progress? task.id = some q ∧ q.state = .pending ∧
      q.pendingSince = Sight.unservedSince task sights := by
  obtain ⟨q, hq, hpending⟩ := Session.state?_eq_some.mp (Session.isReady_iff.mp hready).1
  obtain ⟨p, hp, -⟩ := h.sound.run.books.progress ht
  obtain ⟨q', hq', hprepared⟩ := Run.prepare_progress c.registry c.now hp
  obtain rfl : q = q' := Option.some.inj (hq.symm.trans hq')
  refine ⟨q, hq, hpending, ?_⟩
  rcases hprepared with hterminal | rfl
  · rw [hpending] at hterminal
    cases hterminal
  · rw [p.pendingSince_release]
    refine hmarked task ht p hp ?_
    rw [← p.isTerminal_release c.now, hpending]
    rfl

theorem Reaches.verdict (h : o.Reaches c) (hmarked : c.Marked sights)
    (ht : task ∈ c.run.session.graph.tasks) (hready : c.sight.session.isReady task) :
    ∃ p, c.pass.run.session.progress? task.id = some p ∧
      p.Verdict task c.run.policy.execution.unavailableTimeout
        ((Sight.unservedSince task sights).getD c.now) c.now (c.sight.unserved task) := by
  obtain ⟨q, hq, hpending, hsince⟩ := h.ready_progress hmarked ht hready
  obtain ⟨run₁, run₂, reg₁, waits, hupshot, hpolicy, hcovers, hpass⟩ :=
    Run.pass_upshot h.sound.run ht hready hq
  have hunserved : c.sight.unserved task = !reg₁.covers task.capability := by
    rw [hcovers, Sight.unserved, hready, Bool.true_and]
    rfl
  have hopen : q.state.isTerminal = false := by
    rw [hpending]
    rfl
  rw [← hsince, hunserved, ← hpolicy]
  cases hupshot with
  | sent offered _ _ _ _ progress =>
    rw [offered.covers]
    exact ⟨_, hpass.trans progress, .served rfl rfl⟩
  | held covered _ _ progress =>
    rw [covered]
    exact ⟨_, hpass.trans progress, .served hopen rfl⟩
  | marked uncovered early _ progress =>
    rw [uncovered]
    exact ⟨_, hpass.trans progress, .waits early hopen rfl⟩
  | givenUp uncovered late _ progress =>
    rw [uncovered]
    exact ⟨_, hpass.trans progress, .givenUp late ⟨rfl, _, rfl⟩⟩

theorem Reaches.marked_pass (h : o.Reaches c) (hmarked : c.Marked sights) :
    c.pass.Marked (sights ++ [c.sight]) := by
  intro task ht p' hp' hopen
  rw [Run.Rounds.graph (Course.pass_rounds h.sound)] at ht
  rw [Sight.unservedSince_concat]
  by_cases hready : c.sight.session.isReady task
  · obtain ⟨p, hp, hverdict⟩ := h.verdict hmarked ht hready
    obtain rfl : p = p' := Option.some.inj (hp.symm.trans hp')
    generalize c.sight.unserved task = unserved at hverdict
    cases hverdict with
    | served _ hm => exact hm
    | waits _ _ hm => exact hm
    | givenUp _ hgiven =>
      rw [hgiven.isTerminal] at hopen
      cases hopen
  · have hunserved : c.sight.unserved task = false := by
      rw [Sight.unserved, Bool.eq_false_iff.mpr hready, Bool.false_and]
    obtain ⟨p, hp, -⟩ := h.sound.run.books.progress ht
    obtain ⟨p'', hp'', hsame⟩ := Run.pass_progress_of_not_ready
      (fun hm => hready (Run.mem_readyTasks.mp hm).2) h.sound.run ht hp
    obtain rfl : p'' = p' := Option.some.inj (hp''.symm.trans hp')
    rcases hsame with hterminal | rfl
    · rw [hopen] at hterminal
      cases hterminal
    · rw [hunserved, if_neg Bool.false_ne_true, p.pendingSince_release]
      rw [p.isTerminal_release] at hopen
      by_contra hm
      exact hready (Run.isReady_prepare h.sound.run ht (h.ready_of_marked ht hp hopen hm)
        c.registry c.now)

theorem Reaches.marked_between (h : o.Reaches c) (hmarked : c.Marked sights) (hb : c.Between c') :
    c'.Marked sights := by
  cases hb with
  | completes _ n outcome =>
    intro task ht p' hp' hopen
    rw [(Course.complete_follows h.sound n outcome).graph] at ht
    obtain ⟨p, hp, -⟩ := h.sound.run.books.progress ht
    rcases Course.complete_progress h.sound n outcome ht hp with
      hsame | ⟨_, -, -, -, q, hq, hreturn⟩
    · obtain rfl : p = p' := Option.some.inj (hsame.symm.trans hp')
      exact hmarked task ht p hp hopen
    · -- a task of which a call ends is not ready, so it had no mark
      obtain rfl : q = p' := Option.some.inj (hq.symm.trans hp')
      have hrunning := hreturn.running
      have hopen' : p.state.isTerminal = false := by rw [hrunning]; rfl
      have hnone : p.pendingSince = none := by
        by_contra hm
        obtain ⟨p₀, hp₀, hpending⟩ := Session.state?_eq_some.mp
          (Session.isReady_iff.mp (h.ready_of_marked ht hp hopen' hm)).1
        obtain rfl : p₀ = p := Option.some.inj (hp₀.symm.trans hp)
        cases hrunning.symm.trans hpending
      rw [hreturn.unmarked hnone, ← hnone]
      exact hmarked task ht p hp hopen'
  | stops hp hc =>
    intro task ht p' hp' hopen
    rw [Course.session_stop] at hp'
    have hterminal := Session.over_cancel _ hp'
    rw [hopen] at hterminal
    cases hterminal
  | _ => exact hmarked

/-- A mark tells since when nobody has been there for its task. -/
theorem Sees.marked (h : o.Sees sights c) : c.Marked sights := by
  induction h with
  | opens h =>
    obtain ⟨graph, registry, count, -, -, -, -, rfl⟩ := course_eq_ok.mp h
    intro task _ p hp _
    rw [Session.progress?_start hp]
    rfl
  | passes h _ _ ih => exact h.reaches.marked_pass ih
  | goesOn h hb ih => exact h.reaches.marked_between ih hb

/-- A task that a pass finds ready is given up in this pass exactly if all passes for long enough,
this one included, have found it ready and nobody to cover its capability. Otherwise it does not
end in this pass; and wherever its capability is covered its wait is over. -/
theorem unavailable_exact (h : o.Sees sights c) (ht : task ∈ c.run.session.graph.tasks)
    (hready : c.sight.session.isReady task) :
    ∃ p, c.pass.run.session.progress? task.id = some p ∧
      (p.Unavailable task ↔ ∃ first, Sight.Drought task (sights ++ [c.sight]) first ∧
        o.coordinator.config.execution.unavailableTimeout ≤ c.now - first.now) ∧
      (p.state.isTerminal → p.Unavailable task) ∧
      (c.sight.registry.covers task.capability →
        p.state.isTerminal = false ∧ p.pendingSince = none) := by
  obtain ⟨p, hp, hverdict⟩ := h.reaches.verdict h.marked ht hready
  rw [h.reaches.policy] at hverdict
  obtain ⟨hsorted, hle⟩ := h.sorted
  have hserved (hc : c.sight.registry.covers task.capability) : c.sight.unserved task = false := by
    rw [Sight.unserved, hc, Bool.not_true, Bool.and_false]
  rw [Sight.exists_drought_iff (Sight.sorted_concat hsorted hle), Sight.unservedSince_concat]
  refine ⟨p, hp, ?_⟩
  generalize c.sight.unserved task = unserved at hverdict hserved
  cases hverdict with
  | served hopen hm =>
    refine ⟨⟨fun hgiven => ?_, ?_⟩, fun hterminal => ?_, fun _ => ⟨hopen, hm⟩⟩
    · rw [hgiven.isTerminal] at hopen
      cases hopen
    · rintro ⟨since, hsince, -⟩
      cases hsince
    · rw [hterminal] at hopen
      cases hopen
  | waits hearly hopen hm =>
    refine ⟨⟨fun hgiven => ?_, ?_⟩, fun hterminal => ?_, fun hc => nomatch hserved hc⟩
    · rw [hgiven.isTerminal] at hopen
      cases hopen
    · rintro ⟨since, hsince, hlate⟩
      cases hsince
      exact absurd hlate (Nat.not_le.mpr hearly)
    · rw [hterminal] at hopen
      cases hopen
  | givenUp hlate hgiven =>
    exact ⟨⟨fun _ => ⟨_, rfl, hlate⟩, fun _ => hgiven⟩, fun _ => hgiven,
      fun hc => nomatch hserved hc⟩

def relayFirst : Task := { id := "first", capability := "run" }

def relayDeserted : Course :=
  { relayStart with registry := { relay.registry with workers := [] } }

def relayLate : Course := { relayDeserted.pass.wake with now := 30000 }

theorem sees_relayLate : relay.Sees [relayDeserted.sight] relayLate := by
  have hdeserted : relay.Sees [] relayDeserted := (Sees.opens course_relay).goesOn (.meddles _)
  have hwait : relayDeserted.pass.phase = .wait := by decide +kernel
  exact ((hdeserted.passes rfl rfl).goesOn (.wakes hwait rfl)).goesOn
    (.advances (by decide +kernel))

theorem relay_given_up : relayLate.sight.session.isReady relayFirst ∧
    ∃ p, relayLate.pass.run.session.progress? "first" = some p ∧ p.Unavailable relayFirst := by
  have hready : relayLate.sight.session.isReady relayFirst := by decide +kernel
  obtain ⟨p, hp, hgiven, -⟩ := unavailable_exact sees_relayLate (by decide +kernel) hready
  refine ⟨hready, p, hp, hgiven.mpr ⟨relayDeserted.sight, ⟨[relayLate.sight], ?_, ?_⟩, ?_⟩⟩
  · exact List.suffix_refl _
  · decide +kernel
  · decide +kernel

end Opening

end Crew
