import Mathlib.Data.List.Chain
import Mathlib.Data.List.Perm.Subperm
import Mathlib.Logic.Relation
import Crew.Proofs.Graph.Distinct

/-!
# The search for a cycle

A walk that has met no cycle has grounded every task that it left: no chain of dependencies that
begins there goes on for ever. That is what lets a later walk pass by a task that was entered
before (`Settled`). A dependency that lies on the path of the walk closes a cycle. So the search is
exact: a cycle it finds is one (`isCycle_of_findCycle`), and if it finds none every task is grounded
(`grounded_of_findCycle`). Which of several cycles is found is not described.
-/

namespace Crew.TaskGraph

def DependsOn (g : TaskGraph) (id dep : String) : Prop := dep ∈ g.dependencies id

/-- A path along dependencies back to where it starts, through distinct tasks. -/
structure IsCycle (needs : String → String → Prop) (path : List String) : Prop where
  length : 2 ≤ path.length
  closed : path.head? = path.getLast?
  distinct : path.dropLast.Nodup
  linked : path.IsChain needs

/-- Every chain of dependencies from here ends. -/
def Grounded (g : TaskGraph) (id : String) : Prop := Acc (fun dep id => g.DependsOn id dep) id

variable {g : TaskGraph} {fuel : Nat} {path : List String} {id next : String} {walk : Walk}

theorem Grounded.not_transGen (h : g.Grounded id) : ¬ Relation.TransGen g.DependsOn id id := by
  induction h with
  | intro id _ ih =>
    intro hcycle
    obtain ⟨dep, hdep, hback⟩ := Relation.TransGen.head'_iff.mp hcycle
    exact ih dep hdep (Relation.TransGen.tail' hback hdep)

theorem IsCycle.transGen {needs : String → String → Prop} (h : IsCycle needs path) :
    ∃ id, Relation.TransGen needs id id := by
  obtain ⟨hlength, hclosed, -, hlinked⟩ := h
  match path, hlength with
  | first :: second :: rest, _ =>
    refine ⟨first, ?_⟩
    rw [List.isChain_cons_cons] at hlinked
    have hback := List.relationReflTransGen_of_exists_isChain _ hlinked.2 (List.cons_ne_nil _ _)
    have hlast : (second :: rest).getLast (List.cons_ne_nil _ _) = first := by
      simpa [List.getLast?_eq_some_getLast] using hclosed.symm
    rw [List.head_cons, hlast] at hback
    exact .head' hlinked.1 hback

-- ---------------------------------------------------------------------------
-- The path of a walk
-- ---------------------------------------------------------------------------

structure Trail (g : TaskGraph) (path : List String) : Prop where
  distinct : path.Nodup
  known : ∀ id ∈ path, id ∈ g.ids
  linked : path.IsChain g.DependsOn

theorem Trail.single (h : id ∈ g.ids) : g.Trail ([] ++ [id]) :=
  ⟨List.nodup_singleton id, by simpa using h, List.isChain_singleton id⟩

theorem Trail.concat (h : g.Trail (path ++ [id])) (hnext : g.DependsOn id next)
    (hk : next ∈ g.ids) (hn : next ∉ path ++ [id]) : g.Trail (path ++ [id] ++ [next]) := by
  refine ⟨?_, ?_, ?_⟩
  · exact List.nodup_append.mpr ⟨h.distinct, by simp, fun a ha b hb he =>
      hn (List.mem_singleton.mp hb ▸ he ▸ ha)⟩
  · intro other ho
    rcases List.mem_append.mp ho with ho | ho
    · exact h.known other ho
    · rw [List.mem_singleton.mp ho]
      exact hk
  · refine List.isChain_append.mpr ⟨h.linked, List.isChain_singleton _, ?_⟩
    simpa using hnext

theorem Trail.length_le (h : g.Trail path) : path.length ≤ g.size := by
  rw [size, ← List.length_map (f := Task.id)]
  exact (List.subperm_of_subset h.distinct h.known).length_le

theorem Trail.isCycle (h : g.Trail (path ++ [id])) (hnext : g.DependsOn id next)
    (hm : next ∈ path ++ [id]) :
    IsCycle g.DependsOn ((path ++ [id]).dropWhile (· ≠ next) ++ [next]) := by
  obtain ⟨before, rest, hsplit, hbefore⟩ := List.eq_append_cons_of_mem hm
  have hdrop : (path ++ [id]).dropWhile (· ≠ next) = next :: rest := by
    rw [hsplit, List.dropWhile_append_of_pos]
    · simp
    · intro a ha
      simpa using fun he : a = next => hbefore (he ▸ ha)
  have hlast : (next :: rest).getLast? = some id := by
    rw [← List.getLast?_append_of_ne_nil before (List.cons_ne_nil next rest), ← hsplit]
    simp
  have hsuffix : next :: rest <:+ path ++ [id] := ⟨before, hsplit.symm⟩
  rw [hdrop]
  refine ⟨by simp, by simp [List.getLast?_cons], ?_, ?_⟩
  · rw [List.dropLast_concat]
    exact h.distinct.sublist hsuffix.sublist
  · refine List.isChain_append.mpr ⟨h.linked.suffix hsuffix, List.isChain_singleton _, ?_⟩
    rw [hlast]
    simpa using hnext

-- ---------------------------------------------------------------------------
-- Following dependencies
-- ---------------------------------------------------------------------------

def follow (g : TaskGraph) (fuel : Nat) (path : List String) (walk : Walk) (next : String) : Walk :=
  if walk.cycle.isSome then walk
  else if next ∈ path then { walk with cycle := some (path.dropWhile (· ≠ next) ++ [next]) }
  else if next ∈ walk.visited then walk
  else visit g fuel path next walk

theorem visit_succ (g : TaskGraph) (fuel : Nat) (path : List String) (id : String) (walk : Walk) :
    visit g (fuel + 1) path id walk =
      (g.dependencies id).foldl (g.follow fuel (path ++ [id]))
        { walk with visited := id :: walk.visited } := rfl

theorem findCycle_eq (g : TaskGraph) :
    g.findCycle = (g.ids.foldl (g.follow (g.size + 1) []) {}).cycle := by
  have hstep : g.follow (g.size + 1) [] = fun walk id =>
      if walk.cycle.isSome ∨ id ∈ walk.visited then walk else visit g (g.size + 1) [] id walk := by
    funext walk id
    by_cases hc : walk.cycle.isSome <;> by_cases hv : id ∈ walk.visited <;>
      simp [follow, hc, hv]
  rw [findCycle, hstep]

/-- Any cycle that a walk has met is one. -/
def Walk.Right (g : TaskGraph) (walk : Walk) : Prop :=
  ∀ path, walk.cycle = some path → IsCycle g.DependsOn path

theorem follow_right (hw : walk.Right g)
    (hc : next ∈ path → IsCycle g.DependsOn (path.dropWhile (· ≠ next) ++ [next]))
    (hv : next ∉ path → (visit g fuel path next walk).Right g) :
    (g.follow fuel path walk next).Right g := by
  unfold follow
  split
  · exact hw
  · split
    next hm =>
      intro found hf
      obtain rfl := Option.some.inj hf
      exact hc hm
    next hm =>
      split
      · exact hw
      · exact hv hm

theorem visit_right (hk : ∀ id dep, g.DependsOn id dep → dep ∈ g.ids)
    (ht : g.Trail (path ++ [id])) (hw : walk.Right g) : (visit g fuel path id walk).Right g := by
  induction fuel generalizing path id walk with
  | zero => exact hw
  | succ fuel ih =>
    rw [visit_succ]
    refine List.foldlRecOn (motive := Walk.Right g) _ _ hw fun walk hw next hnext => ?_
    exact follow_right hw (ht.isCycle hnext) fun hm => ih (ht.concat hnext (hk _ _ hnext) hm) hw

theorem isCycle_of_findCycle (hk : ∀ id dep, g.DependsOn id dep → dep ∈ g.ids)
    (h : g.findCycle = some path) : IsCycle g.DependsOn path := by
  rw [findCycle_eq] at h
  refine List.foldlRecOn (motive := Walk.Right g) g.ids _ (fun _ hf => by cases hf) ?_ path h
  intro walk hw id hid
  exact follow_right hw (fun hm => nomatch hm) fun _ => visit_right hk (.single hid) hw

-- ---------------------------------------------------------------------------
-- Walks without a cycle
-- ---------------------------------------------------------------------------

/-- Every task that a walk has entered and left is grounded. -/
def Settled (g : TaskGraph) (path : List String) (walk : Walk) : Prop :=
  ∀ id ∈ walk.visited, id ∉ path → g.Grounded id

/-- A walk that begins at the end of a path and meets no cycle grounds the task it begins at. -/
def Grounds (g : TaskGraph) (fuel : Nat) (path : List String) (id : String) : Prop :=
  ∀ walk, g.Settled path walk → (visit g fuel path id walk).cycle = none →
    g.Settled path (visit g fuel path id walk) ∧ g.Grounded id

theorem follow_grounded (hv : next ∉ path → g.Grounds fuel path next) (hs : g.Settled path walk)
    (hc : (g.follow fuel path walk next).cycle = none) :
    g.Settled path (g.follow fuel path walk next) ∧ g.Grounded next := by
  unfold follow at hc ⊢
  split
  next hsome =>
    rw [if_pos hsome] at hc
    simp [hc] at hsome
  next hsome =>
    rw [if_neg hsome] at hc
    split
    next hm =>
      rw [if_pos hm] at hc
      cases hc
    next hm =>
      rw [if_neg hm] at hc
      split
      next hvisited => exact ⟨hs, hs next hvisited hm⟩
      next hvisited =>
        rw [if_neg hvisited] at hc
        exact hv hm walk hs hc

theorem foldl_follow_grounded {deps : List String}
    (hv : ∀ dep ∈ deps, dep ∉ path → g.Grounds fuel path dep) (hs : g.Settled path walk)
    (hc : (deps.foldl (g.follow fuel path) walk).cycle = none) :
    g.Settled path (deps.foldl (g.follow fuel path) walk) ∧ ∀ dep ∈ deps, g.Grounded dep := by
  -- a cycle that was met is kept, so that none at the end means none on the way
  have hkept (deps : List String) (walk : Walk) (hsome : walk.cycle.isSome) :
      deps.foldl (g.follow fuel path) walk = walk := by
    induction deps with
    | nil => rfl
    | cons next rest ih => rw [List.foldl_cons, follow, if_pos hsome, ih]
  induction deps generalizing walk with
  | nil => exact ⟨hs, List.forall_mem_nil _⟩
  | cons next rest ih =>
    rw [List.foldl_cons] at hc ⊢
    have hnone : (g.follow fuel path walk next).cycle = none := by
      by_contra hsome
      rw [hkept rest _ (Option.isSome_iff_ne_none.mpr hsome)] at hc
      exact hsome hc
    obtain ⟨hstep, hnext⟩ := follow_grounded (hv next List.mem_cons_self) hs hnone
    obtain ⟨hrest, hgrounded⟩ := ih (fun dep h => hv dep (List.mem_cons_of_mem _ h)) hstep hc
    exact ⟨hrest, List.forall_mem_cons.mpr ⟨hnext, hgrounded⟩⟩

/-- The fuel lasts because the path holds distinct tasks of the graph. -/
theorem visit_grounds (hk : ∀ id dep, g.DependsOn id dep → dep ∈ g.ids)
    (ht : g.Trail (path ++ [id])) (hfuel : g.size < fuel + path.length) :
    g.Grounds fuel path id := by
  induction fuel generalizing path id with
  | zero =>
    have hlength := ht.length_le
    rw [List.length_append] at hlength
    omega
  | succ fuel ih =>
    intro walk hs hc
    rw [visit_succ] at hc ⊢
    have henter : g.Settled (path ++ [id]) { walk with visited := id :: walk.visited } := by
      intro other ho hm
      rcases List.mem_cons.mp ho with rfl | ho
      · exact absurd (by simp) hm
      · exact hs other ho fun h => hm (List.mem_append_left _ h)
    obtain ⟨hsettled, hgrounded⟩ := foldl_follow_grounded (fun dep hdep hm =>
      ih (ht.concat hdep (hk _ _ hdep) hm) (by rw [List.length_append, List.length_singleton]; omega))
      henter hc
    have hid : g.Grounded id := .intro id hgrounded
    refine ⟨fun other ho hm => ?_, hid⟩
    by_cases he : other = id
    · rw [he]
      exact hid
    · refine hsettled other ho fun h => ?_
      rcases List.mem_append.mp h with h | h
      · exact hm h
      · exact he (List.mem_singleton.mp h)

theorem grounded_of_findCycle (hk : ∀ id dep, g.DependsOn id dep → dep ∈ g.ids)
    (h : g.findCycle = none) : ∀ id ∈ g.ids, g.Grounded id := by
  rw [findCycle_eq] at h
  refine (foldl_follow_grounded (fun id hid _ => ?_) (fun _ h => by cases h) h).2
  exact visit_grounds hk (.single hid) (Nat.lt_succ_self _)

theorem findCycle_eq_none_iff (hk : ∀ id dep, g.DependsOn id dep → dep ∈ g.ids) :
    g.findCycle = none ↔ ∀ id, ¬ Relation.TransGen g.DependsOn id id := by
  constructor
  · intro h id hcycle
    -- a task on a cycle is a dependency, so it is one of the graph
    obtain ⟨before, -, hid⟩ := Relation.TransGen.tail'_iff.mp hcycle
    exact (grounded_of_findCycle hk h id (hk before id hid)).not_transGen hcycle
  · intro h
    cases hf : g.findCycle with
    | none => rfl
    | some path =>
      obtain ⟨id, hcycle⟩ := (isCycle_of_findCycle hk hf).transGen
      exact absurd hcycle (h id)

end Crew.TaskGraph
