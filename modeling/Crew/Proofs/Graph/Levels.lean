import Mathlib.Logic.Function.Iterate
import Mathlib.Order.Bounds.Defs
import Crew.Proofs.Graph.Order

/-!
# Layers are levels

A task is on the level of its longest chain of dependencies. The layers of a graph are its levels
(`layers_exact`), because a frontier has placed just the tasks all of whose chains are shorter than
the number of layers before it (`mem_reached`). So the fuel of the layers lasts, no count of open
dependencies is lowered that is not positive, and the ready tasks are a layer wherever just the
layers before it are completed.

Which level a task is on says nothing about when it is run.
-/

namespace Crew

def Frontier.after (g : TaskGraph) (k : Nat) : Frontier := (Frontier.advance g)^[k] (.ofGraph g)

namespace TaskGraph

variable {g : TaskGraph} {placed completed : List String} {id dep : String} {tasks : List Task}
  {fuel k n : Nat}

-- ---------------------------------------------------------------------------
-- Levels
-- ---------------------------------------------------------------------------

/-- Some chain of dependencies that begins at the task has so many. -/
def HasChain (g : TaskGraph) (id : String) (k : Nat) : Prop :=
  ∃ path : List String, (id :: path).IsChain g.DependsOn ∧ path.length = k

/-- The longest chain of dependencies that begins at the task has so many. -/
def OnLevel (g : TaskGraph) (k : Nat) (id : String) : Prop := IsGreatest {n | g.HasChain id n} k

def InLayer (g : TaskGraph) (k : Nat) (id : String) : Prop :=
  ∃ layer, g.layers[k]? = some layer ∧ id ∈ layer

/-- What the layers of the graph of a submission are. -/
structure Layered (tasks : List Task) (g : TaskGraph) : Prop where
  dependsOn : g.DependsOn = Needs tasks
  /-- The layers are those of one frontier after the other, and they end with the first that has
  none. -/
  frontiers : ∀ k, g.layers[k]? =
    if (Frontier.after g k).current = [] then none else some (Frontier.after g k).current
  nonempty : ∀ layer ∈ g.layers, layer ≠ []
  partition : g.layers.flatten.Perm (tasks.map (·.id)) ∧ g.layers.flatten.Nodup
  ordered : ∀ layer ∈ g.layers, layer.Sublist (tasks.map (·.id))
  levels : ∀ task ∈ tasks, ∀ k, g.InLayer k task.id ↔ g.OnLevel k task.id
  earlier : ∀ k id dep, g.InLayer k id → g.DependsOn id dep → ∃ j < k, g.InLayer j dep
  previous : ∀ k id, g.InLayer (k + 1) id → ∃ dep, g.DependsOn id dep ∧ g.InLayer k dep
  longest : IsGreatest {n | ∃ path : List String, path.IsChain g.DependsOn ∧
    (∀ id ∈ path, id ∈ tasks.map (·.id)) ∧ path.length = n} g.criticalPathLength
  /-- Whenever the count of a dependent is lowered, it is positive. -/
  counts : ∀ k before dependent rest,
    (Frontier.after g k).current.flatMap g.dependents = before ++ dependent :: rest →
    ∃ count, (before.foldl Frontier.settle ((Frontier.after g k).pending, [])).1.get? dependent =
      some count ∧ 0 < count
  ready : ∀ k, (g.readySet (g.layers.take k).flatten).Perm (g.layers[k]?.getD [])
  progress : ∀ completed, (∃ task ∈ tasks, task.id ∉ completed) → g.readySet completed ≠ []

theorem hasChain_zero (g : TaskGraph) (id : String) : g.HasChain id 0 :=
  ⟨[], List.isChain_singleton id, rfl⟩

theorem hasChain_succ : g.HasChain id (k + 1) ↔ ∃ dep, g.DependsOn id dep ∧ g.HasChain dep k := by
  constructor
  · rintro ⟨path, hchain, hlength⟩
    obtain ⟨dep, rest, rfl⟩ := List.exists_cons_of_length_eq_add_one hlength
    obtain ⟨hdep, hrest⟩ := List.isChain_cons_cons.mp hchain
    exact ⟨dep, hdep, rest, hrest, Nat.succ.inj hlength⟩
  · rintro ⟨dep, hdep, path, hchain, rfl⟩
    exact ⟨dep :: path, List.isChain_cons_cons.mpr ⟨hdep, hchain⟩, rfl⟩

theorem forall_hasChain_lt_succ : (∀ n, g.HasChain id n → n < k + 1) ↔
    ∀ dep, g.DependsOn id dep → ∀ n, g.HasChain dep n → n < k := by
  constructor
  · intro h dep hdep n hn
    exact Nat.lt_of_succ_lt_succ (h (n + 1) (hasChain_succ.mpr ⟨dep, hdep, hn⟩))
  · intro h n hn
    cases n with
    | zero => exact Nat.succ_pos k
    | succ n =>
      obtain ⟨dep, hdep, hn⟩ := hasChain_succ.mp hn
      exact Nat.succ_lt_succ (h dep hdep n hn)

theorem mem_ids_of_isChain (hv : g.Valid) {path : List String}
    (h : (id :: path).IsChain g.DependsOn) (hid : id ∈ g.ids) : ∀ x ∈ id :: path, x ∈ g.ids := by
  induction path generalizing id with
  | nil => exact List.forall_mem_singleton.mpr hid
  | cons dep rest ih =>
    obtain ⟨hdep, hrest⟩ := List.isChain_cons_cons.mp h
    exact List.forall_mem_cons.mpr ⟨hid, ih hrest (hv.known id dep hdep)⟩

-- ---------------------------------------------------------------------------
-- What is placed after so many layers
-- ---------------------------------------------------------------------------

def place (g : TaskGraph) (placed : List String) : List String := placed ++ g.due placed

def reached (g : TaskGraph) (k : Nat) : List String := g.place^[k] []

theorem reached_succ (g : TaskGraph) (k : Nat) :
    g.reached (k + 1) = g.reached k ++ g.due (g.reached k) :=
  Function.iterate_succ_apply' g.place k []

theorem place_of_due_eq_nil (h : g.due placed = []) : g.place placed = placed := by
  rw [place, h, List.append_nil]

theorem closed_reached (g : TaskGraph) (k : Nat) : g.Closed (g.reached k) := by
  induction k with
  | zero => exact g.closed_nil
  | succ k ih =>
    rw [reached_succ]
    exact ih.append_due

theorem stands_after (hv : g.Valid) (k : Nat) :
    Frontier.Stands g (g.reached k) (Frontier.after g k) := by
  induction k with
  | zero => exact Frontier.stands_ofGraph hv
  | succ k ih =>
    rw [reached_succ, Frontier.after, Function.iterate_succ_apply']
    exact ih.advance hv (g.closed_reached k)

/-- A task is placed as soon as all chains from it are shorter than the number of layers. -/
theorem mem_reached (hv : g.Valid) :
    id ∈ g.reached k ↔ id ∈ g.ids ∧ ∀ n, g.HasChain id n → n < k := by
  induction k generalizing id with
  | zero =>
    refine ⟨fun h => (nomatch h), fun h => ?_⟩
    exact absurd (h.2 0 (g.hasChain_zero id)) (Nat.lt_irrefl 0)
  | succ k ih =>
    have hdeps : (∀ dep, g.DependsOn id dep → dep ∈ g.reached k) ↔
        ∀ n, g.HasChain id n → n < k + 1 := by
      rw [forall_hasChain_lt_succ]
      refine forall_congr' fun dep => imp_congr_right fun hdep => ?_
      rw [ih, and_iff_right (hv.known id dep hdep)]
    rw [reached_succ, List.mem_append, mem_due, ← hdeps]
    constructor
    · rintro (hplaced | ⟨hid, -, hall⟩)
      · exact ⟨(ih.mp hplaced).1, g.closed_reached k id hplaced⟩
      · exact ⟨hid, hall⟩
    · rintro ⟨hid, hall⟩
      by_cases hplaced : id ∈ g.reached k
      · exact .inl hplaced
      · exact .inr ⟨hid, hplaced, hall⟩

theorem nodup_reached (hv : g.Valid) (k : Nat) : (g.reached k).Nodup := by
  induction k with
  | zero => exact List.nodup_nil
  | succ k ih =>
    rw [reached_succ]
    exact List.nodup_append.mpr ⟨ih, nodup_due hv _, fun a ha b hb he =>
      (mem_due.mp hb).2.1 (he ▸ ha)⟩

theorem mem_due_reached (hv : g.Valid) :
    id ∈ g.due (g.reached k) ↔ id ∈ g.ids ∧ g.OnLevel k id := by
  have hnext : id ∈ g.due (g.reached k) ↔ id ∈ g.reached (k + 1) ∧ id ∉ g.reached k := by
    rw [reached_succ, List.mem_append]
    constructor
    · exact fun hdue => ⟨.inr hdue, (mem_due.mp hdue).2.1⟩
    · exact fun h => h.1.resolve_left h.2
  rw [hnext, mem_reached hv, mem_reached hv]
  constructor
  · rintro ⟨⟨hid, hle⟩, hnew⟩
    refine ⟨hid, ?_, fun n hn => Nat.le_of_lt_succ (hle n hn)⟩
    -- some chain is not shorter than the number of layers, and none is longer
    by_contra hnone
    refine hnew ⟨hid, fun n hn => Nat.lt_of_le_of_ne (Nat.le_of_lt_succ (hle n hn)) ?_⟩
    rintro rfl
    exact hnone hn
  · rintro ⟨hid, hchain, hle⟩
    refine ⟨⟨hid, fun n hn => Nat.lt_succ_of_le (hle hn)⟩, fun h => ?_⟩
    exact absurd (h.2 k hchain) (Nat.lt_irrefl k)

-- ---------------------------------------------------------------------------
-- The layers one by one
-- ---------------------------------------------------------------------------

theorem getElem?_stages : (g.stages fuel placed)[k]? =
    if k < fuel ∧ g.due (g.place^[k] placed) ≠ [] then some (g.due (g.place^[k] placed))
    else none := by
  induction fuel generalizing placed k with
  | zero => simp [stages]
  | succ fuel ih =>
    rw [stages]
    by_cases hnone : g.due placed = []
    · -- nothing is due any more
      rw [Function.iterate_fixed (place_of_due_eq_nil hnone)]
      simp [hnone]
    · rw [if_neg hnone]
      cases k with
      | zero => simp [hnone]
      | succ k =>
        rw [List.getElem?_cons_succ, Function.iterate_succ_apply, ← place, ih]
        simp only [Nat.add_lt_add_iff_right]

theorem due_reached_ne_nil_of_succ (h : g.due (g.reached (k + 1)) ≠ []) :
    g.due (g.reached k) ≠ [] := by
  intro hnone
  rw [reached_succ, hnone, List.append_nil] at h
  exact h hnone

theorem lt_length_reached (h : g.due (g.reached k) ≠ []) : k < (g.reached (k + 1)).length := by
  induction k with
  | zero => exact List.length_pos_iff.mpr h
  | succ k ih =>
    have hbefore := ih (due_reached_ne_nil_of_succ h)
    have hpos := List.length_pos_iff.mpr h
    rw [reached_succ, List.length_append]
    omega

theorem lt_size_of_due (hv : g.Valid) (h : g.due (g.reached k) ≠ []) : k < g.size := by
  have hsub : ∀ id ∈ g.reached (k + 1), id ∈ g.ids := fun id hid => ((mem_reached hv).mp hid).1
  have hle := (List.subperm_of_subset (nodup_reached hv (k + 1)) hsub).length_le
  rw [ids, List.length_map] at hle
  exact Nat.lt_of_lt_of_le (lt_length_reached h) hle

theorem getElem?_layers (hv : g.Valid) (k : Nat) : g.layers[k]? =
    if g.due (g.reached k) = [] then none else some (g.due (g.reached k)) := by
  rw [layers_eq hv, getElem?_stages, ← reached]
  by_cases hnone : g.due (g.reached k) = []
  · simp [hnone]
  · rw [if_neg hnone, if_pos ⟨Nat.lt_succ_of_lt (lt_size_of_due hv hnone), hnone⟩]

theorem exists_due_of_mem_layers (hv : g.Valid) {layer : List String} (h : layer ∈ g.layers) :
    ∃ k, layer = g.due (g.reached k) ∧ layer ≠ [] := by
  obtain ⟨k, hk⟩ := List.mem_iff_getElem?.mp h
  rw [getElem?_layers hv] at hk
  split at hk
  · cases hk
  next hsome =>
    obtain rfl := Option.some.inj hk
    exact ⟨k, rfl, hsome⟩

theorem inLayer_iff (hv : g.Valid) : g.InLayer k id ↔ id ∈ g.due (g.reached k) := by
  rw [InLayer, getElem?_layers hv]
  constructor
  · rintro ⟨layer, hlayer, hid⟩
    split at hlayer
    · cases hlayer
    · rwa [Option.some.inj hlayer]
  · intro hid
    exact ⟨_, if_neg (List.ne_nil_of_mem hid), hid⟩

theorem inLayer_iff_onLevel (hv : g.Valid) : g.InLayer k id ↔ id ∈ g.ids ∧ g.OnLevel k id := by
  rw [inLayer_iff hv, mem_due_reached hv]

theorem flatten_take_layers (hv : g.Valid) (k : Nat) :
    (g.layers.take k).flatten = g.reached k := by
  induction k with
  | zero => rfl
  | succ k ih =>
    rw [List.take_add_one, List.flatten_append, ih, reached_succ, getElem?_layers hv]
    split
    next hnone => rw [hnone]; rfl
    · rw [Option.toList_some, List.flatten_singleton]

theorem exists_inLayer (hv : g.Valid) (hid : id ∈ g.ids) :
    ∃ k < g.criticalPathLength, g.InLayer k id := by
  obtain ⟨layer, hlayer, hm⟩ := List.mem_flatten.mp ((order_perm hv).mem_iff.mpr hid)
  obtain ⟨k, hk⟩ := List.mem_iff_getElem?.mp hlayer
  exact ⟨k, (List.getElem?_eq_some_iff.mp hk).1, layer, hk, hm⟩

-- ---------------------------------------------------------------------------
-- Chains
-- ---------------------------------------------------------------------------

theorem exists_earlier (hv : g.Valid) (h : g.InLayer k id) (hdep : g.DependsOn id dep) :
    ∃ j < k, g.InLayer j dep := by
  obtain ⟨-, -, hlongest⟩ := (inLayer_iff_onLevel hv).mp h
  obtain ⟨j, -, hj⟩ := exists_inLayer hv (hv.known id dep hdep)
  obtain ⟨-, hchain, -⟩ := (inLayer_iff_onLevel hv).mp hj
  exact ⟨j, hlongest (hasChain_succ.mpr ⟨dep, hdep, hchain⟩), hj⟩

theorem exists_previous (hv : g.Valid) (h : g.InLayer (k + 1) id) :
    ∃ dep, g.DependsOn id dep ∧ g.InLayer k dep := by
  obtain ⟨-, hchain, hlongest⟩ := (inLayer_iff_onLevel hv).mp h
  obtain ⟨dep, hdep, hrest⟩ := hasChain_succ.mp hchain
  refine ⟨dep, hdep, (inLayer_iff_onLevel hv).mpr ⟨hv.known id dep hdep, hrest, fun n hn => ?_⟩⟩
  exact Nat.le_of_succ_le_succ (hlongest (hasChain_succ.mpr ⟨dep, hdep, hn⟩))

theorem isGreatest_criticalPathLength (hv : g.Valid) :
    IsGreatest {n | ∃ path : List String, path.IsChain g.DependsOn ∧
      (∀ id ∈ path, id ∈ g.ids) ∧ path.length = n} g.criticalPathLength := by
  constructor
  · -- the last layer has a task, and so a chain through all layers
    cases hlast : g.criticalPathLength with
    | zero => exact ⟨[], List.isChain_nil, List.forall_mem_nil _, rfl⟩
    | succ k =>
      have hk : k < g.layers.length := Nat.lt_of_lt_of_eq (Nat.lt_succ_self k) hlast.symm
      obtain ⟨_, -, hsome⟩ := exists_due_of_mem_layers hv (List.getElem_mem hk)
      obtain ⟨id, hid⟩ := List.exists_mem_of_ne_nil _ hsome
      obtain ⟨hknown, ⟨path, hchain, hlength⟩, -⟩ := (inLayer_iff_onLevel hv).mp
        ⟨_, List.getElem?_eq_getElem hk, hid⟩
      exact ⟨id :: path, hchain, mem_ids_of_isChain hv hchain hknown, congrArg (· + 1) hlength⟩
  · rintro n ⟨path, hchain, hknown, rfl⟩
    cases path with
    | nil => exact Nat.zero_le _
    | cons id rest =>
      obtain ⟨k, hk, hlayer⟩ := exists_inLayer hv (hknown id List.mem_cons_self)
      obtain ⟨-, -, hlongest⟩ := (inLayer_iff_onLevel hv).mp hlayer
      exact Nat.lt_of_le_of_lt (hlongest ⟨rest, hchain, rfl⟩) hk

-- ---------------------------------------------------------------------------
-- Counts and ready sets
-- ---------------------------------------------------------------------------

theorem exists_count_pos (hv : g.Valid) {before rest : List String} {dependent : String}
    (h : (Frontier.after g k).current.flatMap g.dependents = before ++ dependent :: rest) :
    ∃ count, (before.foldl Frontier.settle ((Frontier.after g k).pending, [])).1.get? dependent =
      some count ∧ 0 < count := by
  have hs := stands_after hv k
  have hcurrent : (Frontier.after g k).current.Nodup := by
    rw [hs.current]
    exact nodup_due hv _
  have hid : dependent ∈ g.ids := by
    have hm : dependent ∈ (Frontier.after g k).current.flatMap g.dependents := by simp [h]
    obtain ⟨dep, -, hm⟩ := List.mem_flatMap.mp hm
    obtain ⟨task, ht, rfl⟩ := List.mem_map.mp hm
    exact mem_ids.mpr ⟨task, List.mem_of_mem_filter ht, rfl⟩
  have hcount := Frontier.count_dependents hv hcurrent hid
  have hopen : ((g.dependencies dependent).filter (· ∈ (Frontier.after g k).current)).length ≤
      (g.openDependencies (g.reached k) dependent).length := by
    refine (List.monotone_filter_right _ fun dep hdep => ?_).length_le
    rw [hs.current, decide_eq_true_eq] at hdep
    exact decide_eq_true (mem_due.mp hdep).2.1
  rw [h, List.count_append, List.count_cons_self] at hcount
  refine ⟨(g.openDependencies (g.reached k) dependent).length - before.count dependent, ?_, ?_⟩
  · rw [(Frontier.foldl_settle before _ []).1, hs.pending dependent hid, Option.map_some]
  · omega

theorem readySet_perm (hn : g.ids.Nodup) (completed : List String) :
    (g.readySet completed).Perm (g.due completed) := by
  have hdue : (g.tasks.filter fun task =>
      task.id ∉ completed && task.dependencies.all (· ∈ completed)).map (·.id) =
        g.due completed := by
    rw [due, ids, List.filter_map]
    refine congrArg _ (List.filter_congr fun task ht => ?_)
    simp [dependencies_of_mem hn ht]
  rw [readySet, ascending, hdue]
  exact (List.mergeSort_perm _ _).trans ((List.perm_ext_iff_of_nodup
    (Condensed.eraseDups _).nodup (hn.filter _)).mpr fun _ => List.mem_eraseDups)

theorem readySet_ne_nil (hv : g.Valid) (hid : id ∈ g.ids) (hnew : id ∉ completed) :
    g.readySet completed ≠ [] := by
  intro hnone
  have hdue : g.due completed = [] :=
    List.perm_nil.mp (hnone ▸ (readySet_perm hv.distinct completed).symm)
  exact hnew (mem_placed_of_due_eq_nil hv hdue hid)

theorem layers_exact (h : build tasks = .ok g) : Layered tasks g := by
  have hv := valid_of_build h
  have hids := ids_of_build h
  have hmem {task : Task} (ht : task ∈ tasks) : task.id ∈ g.ids := by
    rw [hids]
    exact List.mem_map_of_mem ht
  exact {
    dependsOn := by
      rw [eq_submitted_of_build h]
      exact dependsOn_submitted (hids ▸ hv.distinct)
    frontiers := fun k => by rw [getElem?_layers hv, (stands_after hv k).current]
    nonempty := fun layer hlayer => (exists_due_of_mem_layers hv hlayer).elim fun _ h => h.2
    partition := ⟨hids ▸ order_perm hv, (inOrder_order hv).nodup⟩
    ordered := fun layer hlayer => by
      obtain ⟨k, rfl, -⟩ := exists_due_of_mem_layers hv hlayer
      rw [← hids]
      exact List.filter_sublist
    levels := fun task ht k => by
      rw [inLayer_iff_onLevel hv, and_iff_right (hmem ht)]
    earlier := fun k id dep => exists_earlier hv
    previous := fun k id => exists_previous hv
    longest := hids ▸ isGreatest_criticalPathLength hv
    counts := fun k before dependent rest => exists_count_pos hv
    ready := fun k => by
      rw [flatten_take_layers hv, getElem?_layers hv]
      refine (readySet_perm hv.distinct _).trans ?_
      split
      next hnone => rw [hnone]; rfl
      · rfl
    progress := fun completed ⟨task, ht, hnew⟩ => readySet_ne_nil hv (hmem ht) hnew }

theorem layers_diamond : Layered diamond (submitted diamond) ∧
    (submitted diamond).layers = [["fetch"], ["parse"], ["store"]] :=
  ⟨layers_exact (show build diamond = .ok (submitted diamond) by decide +kernel),
    by decide +kernel⟩

end TaskGraph

end Crew
