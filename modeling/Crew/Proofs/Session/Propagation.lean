import Mathlib.Order.Bounds.Defs
import Crew.Proofs.Graph.Cycles
import Crew.Proofs.Session.Operations

/-!
# Skipping what can no longer be run

A task is doomed if it is pending and a dependency of it failed, was skipped or is doomed itself.
One walk over the tasks, each behind its dependencies, skips the doomed ones and nothing else
(`skipDownstream_exact`); what it leaves alone is said by `skipDownstream_frame`. After the walk no
task is doomed, so that a second one finds nothing (`skipDownstream_of_not_doomed`).
-/

namespace Crew.Session

variable {s s' : Session} {id dep other : String} {ids : List String}

/-- The pending tasks of which a dependency failed, was skipped or belongs to the given ones. -/
def downstream (s : Session) (S : Set String) : Set String :=
  {id | s.state? id = some .pending ∧
    ∃ dep, s.graph.DependsOn id dep ∧ (s.HasFailed dep ∨ dep ∈ S)}

inductive Doomed (s : Session) : String → Prop
  | fails {id dep : String} (hp : s.state? id = some .pending) (hd : s.graph.DependsOn id dep)
    (hf : s.HasFailed dep) : Doomed s id
  | follows {id dep : String} (hp : s.state? id = some .pending) (hd : s.graph.DependsOn id dep)
    (h : Doomed s dep) : Doomed s id

/-- The first declared dependency of a task that failed or was skipped. -/
def Blames (s : Session) (id dep : String) : Prop :=
  ∃ before after, s.graph.dependencies id = before ++ dep :: after ∧ s.HasFailed dep ∧
    ∀ other ∈ before, ¬ s.HasFailed other

theorem Doomed.pending (h : s.Doomed id) : s.state? id = some .pending := by
  cases h <;> assumption

theorem isLeast_doomed (s : Session) : IsLeast {S | s.downstream S = S} {id | s.Doomed id} := by
  refine ⟨Set.ext fun id => ⟨?_, fun h => ?_⟩, fun S hS id hid => ?_⟩
  · rintro ⟨hp, dep, hd, hf | hdoomed⟩
    · exact .fails hp hd hf
    · exact .follows hp hd hdoomed
  · cases h with
    | fails hp hd hf => exact ⟨hp, _, hd, .inl hf⟩
    | follows hp hd h => exact ⟨hp, _, hd, .inr h⟩
  · have hclosed {id : String} : id ∈ s.downstream S → id ∈ S := (Set.ext_iff.mp hS id).mp
    induction hid with
    | fails hp hd hf => exact hclosed ⟨hp, _, hd, .inl hf⟩
    | follows hp hd _ ih => exact hclosed ⟨hp, _, hd, .inr ih⟩

theorem failedDependency?_eq_some : s.failedDependency? id = some dep ↔ s.Blames id dep := by
  simp only [failedDependency?, List.find?_eq_some_iff_append, Blames, HasFailed,
    Bool.or_eq_true, decide_eq_true_eq, Bool.not_eq_true', Bool.or_eq_false_iff,
    decide_eq_false_iff_not, not_or]
  constructor
  · rintro ⟨hf, before, after, he, hb⟩
    exact ⟨before, after, he, hf, hb⟩
  · rintro ⟨before, after, he, hf, hb⟩
    exact ⟨hf, before, after, he, hb⟩

theorem failedDependency?_eq_none :
    s.failedDependency? id = none ↔ ∀ dep, s.graph.DependsOn id dep → ¬ s.HasFailed dep := by
  simp [failedDependency?, HasFailed, TaskGraph.DependsOn]

theorem Blames.dependsOn (h : s.Blames id dep) : s.graph.DependsOn id dep := by
  obtain ⟨before, after, he, -, -⟩ := h
  rw [TaskGraph.DependsOn, he]
  exact List.mem_append_right _ List.mem_cons_self

theorem Blames.hasFailed (h : s.Blames id dep) : s.HasFailed dep := by
  obtain ⟨_, _, -, hf, -⟩ := h
  exact hf

theorem Blames.congr (h : s.Blames id dep) (hg : s'.graph = s.graph)
    (hs : ∀ other, s.graph.DependsOn id other → s'.state? other = s.state? other) :
    s'.Blames id dep := by
  obtain ⟨before, after, he, hf, hb⟩ := h
  have hfailed {other : String} (ho : other ∈ before ++ dep :: after) :
      s'.HasFailed other ↔ s.HasFailed other := by
    rw [HasFailed, HasFailed, hs other (by rw [TaskGraph.DependsOn, he]; exact ho)]
  refine ⟨before, after, hg ▸ he, (hfailed (by simp)).mpr hf, fun other ho => ?_⟩
  rw [hfailed (List.mem_append_left _ ho)]
  exact hb other ho

-- ---------------------------------------------------------------------------
-- One task is skipped
-- ---------------------------------------------------------------------------

theorem state?_skip (hp : s.state? id = some .pending) (dep other : String) :
    (s.update id (·.skip dep)).state? other =
      if other = id then some .skipped else s.state? other := by
  obtain ⟨p, hp, -⟩ := state?_eq_some.mp hp
  rw [state?, progress?_update]
  split
  next h =>
    subst h
    rw [hp]
    rfl
  · rfl

theorem hasFailed_skip (hp : s.state? id = some .pending) :
    (s.update id (·.skip dep)).HasFailed other ↔ s.HasFailed other ∨ other = id := by
  rw [HasFailed, state?_skip hp, HasFailed]
  split
  next h => simp [h]
  next h => simp [h]

theorem pending_skip (hp : s.state? id = some .pending) :
    (s.update id (·.skip dep)).state? other = some .pending ↔
      s.state? other = some .pending ∧ other ≠ id := by
  rw [state?_skip hp]
  split
  next h => simp [h]
  next h => simp [h]

/-- Once a doomed task is skipped, those are doomed that were doomed besides. -/
theorem doomed_skip (h : s.Doomed id) :
    (s.update id (·.skip dep)).Doomed other ↔ s.Doomed other ∧ other ≠ id := by
  have hid := h.pending
  constructor
  · intro ho
    induction ho with
    | fails hp hd hf =>
      obtain ⟨hp, hne⟩ := (pending_skip hid).mp hp
      rcases (hasFailed_skip hid).mp hf with hf | he
      · exact ⟨.fails hp hd hf, hne⟩
      · exact ⟨.follows hp hd (he ▸ h), hne⟩
    | follows hp hd _ ih =>
      obtain ⟨hp, hne⟩ := (pending_skip hid).mp hp
      exact ⟨.follows hp hd ih.1, hne⟩
  · rintro ⟨ho, hne⟩
    induction ho with
    | fails hp hd hf =>
      exact .fails ((pending_skip hid).mpr ⟨hp, hne⟩) hd ((hasFailed_skip hid).mpr (.inl hf))
    | @follows other found hp hd _ ih =>
      have hp : (s.update id (·.skip dep)).state? other = some .pending :=
        (pending_skip hid).mpr ⟨hp, hne⟩
      by_cases hfound : found = id
      · exact .fails hp hd ((hasFailed_skip hid).mpr (.inr hfound))
      · exact .follows hp hd (ih hfound)

-- ---------------------------------------------------------------------------
-- The walk
-- ---------------------------------------------------------------------------

theorem skipDownstream_frame (hn : ids.Nodup) :
    (s.skipDownstream ids).1 = { s with progress := (s.skipDownstream ids).1.progress } ∧
      ((s.skipDownstream ids).2.map (·.1)).Sublist ids ∧
      (∀ x ∈ (s.skipDownstream ids).2,
        (s.skipDownstream ids).1.progress? x.1 = (s.progress? x.1).map (·.skip x.2)) ∧
      ∀ id, id ∉ (s.skipDownstream ids).2.map (·.1) →
        (s.skipDownstream ids).1.progress? id = s.progress? id := by
  induction ids generalizing s with
  | nil => exact ⟨rfl, List.Sublist.refl _, fun x hx => (nomatch hx), fun _ _ => rfl⟩
  | cons id rest ih =>
    obtain ⟨hnew, hn⟩ := List.nodup_cons.mp hn
    have hpass := ih (s := s) hn
    rw [skipDownstream]
    split
    · split
      next dep _ =>
        obtain ⟨hfields, hsub, hskips, hkeeps⟩ := ih (s := s.update id (·.skip dep)) hn
        have hother (other : String) (hne : other ≠ id) :
            (s.update id (·.skip dep)).progress? other = s.progress? other :=
          progress?_update_ne _ _ _ hne
        refine ⟨hfields, hsub.cons_cons id, fun x hx => ?_, fun other ho => ?_⟩
        · rcases List.mem_cons.mp hx with rfl | hx
          · refine (hkeeps _ fun hm => hnew (hsub.subset hm)).trans ?_
            rw [progress?_update, if_pos rfl]
          · have hm := hsub.subset (List.mem_map_of_mem hx)
            exact (hskips x hx).trans (by rw [hother x.1 fun he => hnew (he ▸ hm)])
        · rw [List.map_cons, List.mem_cons, not_or] at ho
          exact (hkeeps other ho.2).trans (hother other ho.1)
      · exact ⟨hpass.1, hpass.2.1.cons id, hpass.2.2⟩
    · exact ⟨hpass.1, hpass.2.1.cons id, hpass.2.2⟩

/-- Where each task stands behind its dependencies, the walk skips the doomed tasks: whether a task
is doomed is known when the walk comes to it. -/
theorem skipDownstream_exact (hn : ids.Nodup)
    (ho : ids.Pairwise fun a b => ¬ s.graph.DependsOn a b)
    (hself : ∀ id ∈ ids, ¬ s.graph.DependsOn id id) (hall : ∀ id, s.Doomed id → id ∈ ids) :
    (∀ id, id ∈ (s.skipDownstream ids).2.map (·.1) ↔ s.Doomed id) ∧
      (∀ x ∈ (s.skipDownstream ids).2, (s.skipDownstream ids).1.Blames x.1 x.2) ∧
      ∀ id, ¬ (s.skipDownstream ids).1.Doomed id := by
  induction ids generalizing s with
  | nil =>
    have hnone (id : String) : ¬ s.Doomed id := fun h => nomatch hall id h
    exact ⟨fun id => ⟨fun h => (nomatch h), fun h => (hnone id h).elim⟩, fun x hx => (nomatch hx),
      hnone⟩
  | cons id rest ih =>
    obtain ⟨hnew, hn⟩ := List.nodup_cons.mp hn
    obtain ⟨hlater, ho⟩ := List.pairwise_cons.mp ho
    obtain ⟨hid, hself⟩ := List.forall_mem_cons.mp hself
    have hpass (hsafe : ¬ s.Doomed id) : ∀ other, s.Doomed other → other ∈ rest := fun other h =>
      (List.mem_cons.mp (hall other h)).resolve_left fun he => hsafe (he ▸ h)
    rw [skipDownstream]
    split
    next hp =>
      split
      next dep hd =>
        have hblames := failedDependency?_eq_some.mp hd
        have hdoomed : s.Doomed id := .fails hp hblames.dependsOn hblames.hasFailed
        obtain ⟨hexact, hblamed, hnone⟩ := ih (s := s.update id (·.skip dep)) hn ho hself
          fun other h => (List.mem_cons.mp (hall other ((doomed_skip hdoomed).mp h).1)).resolve_left
            ((doomed_skip hdoomed).mp h).2
        obtain ⟨hfields, hsub, -, hkeeps⟩ :=
          skipDownstream_frame (s := s.update id (·.skip dep)) hn
        refine ⟨fun other => ?_, fun x hx => ?_, hnone⟩
        · rw [List.map_cons, List.mem_cons, hexact, doomed_skip hdoomed]
          constructor
          · rintro (rfl | h)
            · exact hdoomed
            · exact h.1
          · exact fun h => or_iff_not_imp_left.mpr fun hne => ⟨h, hne⟩
        · rcases List.mem_cons.mp hx with rfl | hx
          · -- the dependencies of the task stand before it, and the walk does not come back to them
            refine hblames.congr (by rw [hfields]; rfl) fun other hdep => ?_
            have hother : other ≠ id := fun he => hid (he ▸ hdep)
            have hkept := hkeeps other fun hm => hlater other (hsub.subset hm) hdep
            rw [progress?_update_ne _ _ _ hother] at hkept
            exact congrArg (Option.map _) hkept
          · exact hblamed x hx
      next hd =>
        refine ih hn ho hself (hpass fun h => ?_)
        cases h with
        | fails _ hdep hf => exact failedDependency?_eq_none.mp hd _ hdep hf
        | follows _ hdep h =>
          rcases List.mem_cons.mp (hall _ h) with rfl | hm
          · exact hid hdep
          · exact hlater _ hm hdep
    next hp => exact ih hn ho hself (hpass fun h => hp h.pending)

theorem skipDownstream_of_not_doomed (h : ∀ id, ¬ s.Doomed id) :
    s.skipDownstream ids = (s, []) := by
  induction ids with
  | nil => rfl
  | cons id rest ih =>
    rw [skipDownstream]
    split
    next hp =>
      split
      next dep hd =>
        have hblames := failedDependency?_eq_some.mp hd
        exact absurd (.fails hp hblames.dependsOn hblames.hasFailed) (h id)
      · exact ih
    · exact ih

end Crew.Session
