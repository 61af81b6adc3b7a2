import Crew.Proofs.Graph.Acceptance

/-!
# The tasks downstream of a task

The walk over dependents finds each task once, and it finds those that depend on where it started,
directly or through others (`mem_transitiveDependents`, `nodup_transitiveDependents`).
-/

namespace Crew.TaskGraph

open Relation (TransGen)

variable {g : TaskGraph} {seen found : List String} {id dep root : String} {next fuel : Nat}

theorem mem_dependents (hn : g.ids.Nodup) : id ∈ g.dependents dep ↔ g.DependsOn id dep := by
  constructor
  · intro hm
    obtain ⟨task, ht, rfl⟩ := List.mem_map.mp hm
    obtain ⟨ht, hdep⟩ := List.mem_filter.mp ht
    rw [DependsOn, dependencies_of_mem hn ht]
    exact of_decide_eq_true hdep
  · intro hd
    cases hg : g.get? id with
    | none => simp [DependsOn, dependencies, hg] at hd
    | some task =>
      obtain ⟨ht, rfl⟩ := get?_mem hg
      rw [DependsOn, dependencies_of_mem hn ht] at hd
      exact List.mem_map_of_mem (List.mem_filter.mpr ⟨ht, decide_eq_true hd⟩)

theorem appendNew_cons (seen found : List String) (id : String) :
    appendNew seen (id :: found) = appendNew (if id ∈ seen then seen else seen ++ [id]) found := rfl

theorem prefix_appendNew (seen found : List String) : seen <+: appendNew seen found := by
  induction found generalizing seen with
  | nil => exact List.prefix_rfl
  | cons first rest ih =>
    rw [appendNew_cons]
    split
    · exact ih seen
    · exact (List.prefix_append seen [first]).trans (ih _)

theorem mem_appendNew : id ∈ appendNew seen found ↔ id ∈ seen ∨ id ∈ found := by
  induction found generalizing seen with
  | nil => simp [appendNew]
  | cons first rest ih =>
    rw [appendNew_cons, ih, List.mem_cons]
    split
    next hm =>
      constructor
      · exact fun h => h.imp_right .inr
      · rintro (h | rfl | h)
        · exact .inl h
        · exact .inl hm
        · exact .inr h
    · rw [List.mem_append, List.mem_singleton, or_assoc]

theorem nodup_appendNew (hn : seen.Nodup) : (appendNew seen found).Nodup := by
  induction found generalizing seen with
  | nil => exact hn
  | cons first rest ih =>
    rw [appendNew_cons]
    split
    · exact ih hn
    next hm => exact ih (List.nodup_append.mpr ⟨hn, by simp, fun a ha b hb he =>
        hm (List.mem_singleton.mp hb ▸ he ▸ ha)⟩)

theorem mem_ids_of_dependsOn (h : g.DependsOn id dep) : id ∈ g.ids := by
  cases hg : g.get? id with
  | none => simp [DependsOn, dependencies, hg] at h
  | some task => exact mem_ids.mpr ⟨task, get?_mem hg⟩

-- ---------------------------------------------------------------------------
-- The walk
-- ---------------------------------------------------------------------------

/-- What was found so far is downstream of the root, and the dependents of the root and of the tasks
that were looked at are found. -/
structure Explored (g : TaskGraph) (root : String) (seen : List String) (next : Nat) : Prop where
  nodup : seen.Nodup
  downstream : ∀ id ∈ seen, TransGen g.DependsOn id root
  root : ∀ id, g.DependsOn id root → id ∈ seen
  looked : ∀ i < next, ∀ dep, seen[i]? = some dep → ∀ id, g.DependsOn id dep → id ∈ seen

theorem Explored.start (hn : g.ids.Nodup) (root : String) :
    g.Explored root (appendNew [] (g.dependents root)) 0 := by
  refine ⟨nodup_appendNew List.nodup_nil, fun id hid => ?_, fun id hid => ?_, fun i hi => ?_⟩
  · have hid := (mem_appendNew.mp hid).resolve_left (List.not_mem_nil)
    exact .single ((mem_dependents hn).mp hid)
  · exact mem_appendNew.mpr (.inr ((mem_dependents hn).mpr hid))
  · exact absurd hi (Nat.not_lt_zero i)

theorem Explored.look (hn : g.ids.Nodup) (h : g.Explored root seen next)
    (hs : seen[next]? = some dep) :
    g.Explored root (appendNew seen (g.dependents dep)) (next + 1) := by
  have hdep : TransGen g.DependsOn dep root := h.downstream dep (List.mem_of_getElem? hs)
  refine ⟨nodup_appendNew h.nodup, fun id hid => ?_, fun id hid => ?_,
    fun i hi other ho id hid => ?_⟩
  · rcases mem_appendNew.mp hid with hid | hid
    · exact h.downstream id hid
    · exact .head ((mem_dependents hn).mp hid) hdep
  · exact mem_appendNew.mpr (.inl (h.root id hid))
  · -- what was looked at stands where it stood
    obtain ⟨tail, htail⟩ := prefix_appendNew seen (g.dependents dep)
    have hlt : next < seen.length := (List.getElem?_eq_some_iff.mp hs).1
    rw [← htail, List.getElem?_append_left (by omega)] at ho
    rcases Nat.lt_or_eq_of_le (Nat.le_of_lt_succ hi) with hi | rfl
    · exact mem_appendNew.mpr (.inl (h.looked i hi other ho id hid))
    · obtain rfl := Option.some.inj (ho.symm.trans hs)
      exact mem_appendNew.mpr (.inr ((mem_dependents hn).mpr hid))

theorem Explored.length_le (h : g.Explored root seen next) : seen.length ≤ g.size := by
  rw [size, ← List.length_map (f := Task.id)]
  refine (List.subperm_of_subset h.nodup fun id hid => ?_).length_le
  obtain ⟨dep, hdep, -⟩ := Relation.TransGen.head'_iff.mp (h.downstream id hid)
  exact mem_ids_of_dependsOn hdep

/-- The fuel lasts because no task is found twice. -/
theorem Explored.collect (hn : g.ids.Nodup) (h : g.Explored root seen next)
    (hf : g.size ≤ fuel + next) : ∃ last,
      (g.collectDependents fuel seen next).length ≤ last ∧
        g.Explored root (g.collectDependents fuel seen next) last := by
  induction fuel generalizing seen next with
  | zero => exact ⟨next, Nat.le_trans h.length_le (by omega), h⟩
  | succ fuel ih =>
    rw [collectDependents]
    split
    next hs => exact ⟨next, List.getElem?_eq_none_iff.mp hs, h⟩
    next dep hs => exact ih (h.look hn hs) (by omega)

theorem explored_transitiveDependents (hn : g.ids.Nodup) (root : String) : ∃ next,
    (g.transitiveDependents root).length ≤ next ∧
      g.Explored root (g.transitiveDependents root) next :=
  (Explored.start hn root).collect hn (Nat.le_add_right _ _)

theorem nodup_transitiveDependents (hn : g.ids.Nodup) (root : String) :
    (g.transitiveDependents root).Nodup := by
  obtain ⟨_, -, h⟩ := explored_transitiveDependents hn root
  exact h.nodup

theorem mem_transitiveDependents (hn : g.ids.Nodup) :
    id ∈ g.transitiveDependents root ↔ TransGen g.DependsOn id root := by
  obtain ⟨next, hall, h⟩ := explored_transitiveDependents hn root
  refine ⟨h.downstream id, fun hid => ?_⟩
  induction hid using TransGen.head_induction_on with
  | single hdep => exact h.root _ hdep
  | head hdep _ ih =>
    obtain ⟨i, hi, he⟩ := List.mem_iff_getElem.mp ih
    exact h.looked i (Nat.lt_of_lt_of_le hi hall) _ (List.getElem?_eq_some_iff.mpr ⟨hi, he⟩) _ hdep

end Crew.TaskGraph
