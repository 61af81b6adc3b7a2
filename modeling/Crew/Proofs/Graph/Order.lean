import Mathlib.Data.List.Count
import Crew.Graph.Layers
import Crew.Proofs.Graph.Acceptance

/-!
# The order of a graph

A layer holds the tasks that are due: not placed yet, and all their dependencies are. The counts of
open dependencies are how a frontier knows them (`Frontier.Stands.advance`), so that the layers are
the stages of the graph (`layers_eq`). In a valid graph the stages end only when every task is
placed: the order lists each task once, behind its dependencies (`order_perm`, `inOrder_order`).
-/

namespace Crew

namespace TaskGraph

variable {g : TaskGraph} {placed xs ys : List String} {id dep : String}

def due (g : TaskGraph) (placed : List String) : List String :=
  g.ids.filter fun id => id ∉ placed && (g.dependencies id).all (· ∈ placed)

def openDependencies (g : TaskGraph) (placed : List String) (id : String) : List String :=
  (g.dependencies id).filter (· ∉ placed)

/-- What is placed does not wait for anything. -/
def Closed (g : TaskGraph) (placed : List String) : Prop :=
  ∀ id ∈ placed, ∀ dep, g.DependsOn id dep → dep ∈ placed

/-- The tasks are placed one after the other, each once and behind its dependencies. -/
def InOrder (g : TaskGraph) : List String → List String → Prop
  | _, [] => True
  | placed, id :: rest =>
    id ∉ placed ∧ (∀ dep, g.DependsOn id dep → dep ∈ placed) ∧ g.InOrder (placed ++ [id]) rest

def stages (g : TaskGraph) : Nat → List String → List (List String)
  | 0, _ => []
  | fuel + 1, placed =>
    if g.due placed = [] then [] else g.due placed :: g.stages fuel (placed ++ g.due placed)

theorem mem_due : id ∈ g.due placed ↔
    id ∈ g.ids ∧ id ∉ placed ∧ ∀ dep, g.DependsOn id dep → dep ∈ placed := by
  simp [due, DependsOn]

theorem nodup_due (hv : g.Valid) (placed : List String) : (g.due placed).Nodup :=
  hv.distinct.filter _

theorem openDependencies_eq_nil_iff :
    g.openDependencies placed id = [] ↔ ∀ dep, g.DependsOn id dep → dep ∈ placed := by
  simp [openDependencies, DependsOn]

theorem Closed.append_due (h : g.Closed placed) : g.Closed (placed ++ g.due placed) := by
  intro id hid dep hdep
  rcases List.mem_append.mp hid with hid | hid
  · exact List.mem_append_left _ (h id hid dep hdep)
  · exact List.mem_append_left _ ((mem_due.mp hid).2.2 dep hdep)

theorem mem_due_append (h : g.Closed placed) : id ∈ g.due (placed ++ g.due placed) ↔
    id ∈ g.ids ∧ g.openDependencies placed id ≠ [] ∧
      ∀ dep ∈ g.openDependencies placed id, dep ∈ g.due placed := by
  have hopen : (∀ dep ∈ g.openDependencies placed id, dep ∈ g.due placed) ↔
      ∀ dep, g.DependsOn id dep → dep ∈ placed ++ g.due placed := by
    simp only [openDependencies, List.mem_filter, decide_eq_true_eq, List.mem_append, DependsOn]
    exact forall_congr' fun dep => ⟨fun hd hm => or_iff_not_imp_left.mpr fun hn => hd ⟨hm, hn⟩,
      fun hd hm => (hd hm.1).resolve_left hm.2⟩
  rw [mem_due, hopen, List.mem_append, Ne, openDependencies_eq_nil_iff]
  constructor
  · rintro ⟨hid, hnew, hdeps⟩
    exact ⟨hid, fun hall => hnew (.inr (mem_due.mpr ⟨hid, fun hp => hnew (.inl hp), hall⟩)), hdeps⟩
  · rintro ⟨hid, hsome, hdeps⟩
    refine ⟨hid, ?_, hdeps⟩
    rintro (hp | hd)
    · exact hsome (h id hp)
    · exact hsome (mem_due.mp hd).2.2

/-- While a task is left some task is due: one whose dependencies are all placed. -/
theorem mem_placed_of_due_eq_nil (hv : g.Valid) (h : g.due placed = []) (hid : id ∈ g.ids) :
    id ∈ placed := by
  induction hv.grounded id with
  | intro id _ ih =>
    by_contra hnew
    have hdue : id ∈ g.due placed :=
      mem_due.mpr ⟨hid, hnew, fun dep hdep => ih dep hdep (hv.known id dep hdep)⟩
    rw [h] at hdue
    cases hdue

-- ---------------------------------------------------------------------------
-- Orders
-- ---------------------------------------------------------------------------

theorem inOrder_append : g.InOrder placed (xs ++ ys) ↔
    g.InOrder placed xs ∧ g.InOrder (placed ++ xs) ys := by
  induction xs generalizing placed with
  | nil => simp [InOrder]
  | cons id rest ih => simp [InOrder, ih, and_assoc]

theorem inOrder_of_subset_due (hn : xs.Nodup) (hx : ∀ id ∈ xs, id ∉ placed)
    (hd : ∀ id ∈ xs, ∀ dep, g.DependsOn id dep → dep ∈ placed) : g.InOrder placed xs := by
  induction xs generalizing placed with
  | nil => trivial
  | cons id rest ih =>
    obtain ⟨hnew, hn⟩ := List.nodup_cons.mp hn
    refine ⟨hx id List.mem_cons_self, hd id List.mem_cons_self, ih hn ?_ ?_⟩
    · intro other ho hm
      rcases List.mem_append.mp hm with hm | hm
      · exact hx other (List.mem_cons_of_mem _ ho) hm
      · exact hnew (List.mem_singleton.mp hm ▸ ho)
    · intro other ho dep hdep
      exact List.mem_append_left _ (hd other (List.mem_cons_of_mem _ ho) dep hdep)

theorem InOrder.not_mem (h : g.InOrder placed xs) (hid : id ∈ xs) : id ∉ placed := by
  induction xs generalizing placed with
  | nil => cases hid
  | cons first rest ih =>
    obtain ⟨hnew, -, hrest⟩ := h
    rcases List.mem_cons.mp hid with rfl | hid
    · exact hnew
    · exact fun hm => ih hrest hid (List.mem_append_left _ hm)

theorem InOrder.nodup (h : g.InOrder placed xs) : xs.Nodup := by
  induction xs generalizing placed with
  | nil => exact List.nodup_nil
  | cons id rest ih =>
    obtain ⟨-, -, hrest⟩ := h
    exact List.nodup_cons.mpr ⟨fun hm => hrest.not_mem hm (by simp), ih hrest⟩

theorem InOrder.pairwise (h : g.InOrder placed xs) :
    xs.Pairwise (fun a b => ¬ g.DependsOn a b) ∧ ∀ id ∈ xs, ¬ g.DependsOn id id := by
  induction xs generalizing placed with
  | nil => exact ⟨.nil, List.forall_mem_nil _⟩
  | cons id rest ih =>
    obtain ⟨hnew, hdeps, hrest⟩ := h
    obtain ⟨hpair, hself⟩ := ih hrest
    refine ⟨List.pairwise_cons.mpr ⟨fun other ho hdep => ?_, hpair⟩,
      List.forall_mem_cons.mpr ⟨fun hdep => hnew (hdeps id hdep), hself⟩⟩
    exact hrest.not_mem ho (List.mem_append_left _ (hdeps other hdep))

-- ---------------------------------------------------------------------------
-- Stages
-- ---------------------------------------------------------------------------

theorem inOrder_stages (hv : g.Valid) (fuel : Nat) (placed : List String) :
    g.InOrder placed (g.stages fuel placed).flatten := by
  induction fuel generalizing placed with
  | zero => trivial
  | succ fuel ih =>
    rw [stages]
    split
    · trivial
    · rw [List.flatten_cons, inOrder_append]
      exact ⟨inOrder_of_subset_due (nodup_due hv placed) (fun id hid => (mem_due.mp hid).2.1)
        fun id hid => (mem_due.mp hid).2.2, ih _⟩

theorem mem_flatten_stages (hv : g.Valid) {fuel : Nat} (hp : placed.Nodup)
    (hk : ∀ id ∈ placed, id ∈ g.ids) (hf : g.size < fuel + placed.length) (hid : id ∈ g.ids) :
    id ∈ placed ∨ id ∈ (g.stages fuel placed).flatten := by
  have hlength {xs : List String} (hn : xs.Nodup) (hx : ∀ id ∈ xs, id ∈ g.ids) :
      xs.length ≤ g.size := by
    rw [size, ← List.length_map (f := Task.id)]
    exact (List.subperm_of_subset hn hx).length_le
  induction fuel generalizing placed with
  | zero =>
    have := hlength hp hk
    omega
  | succ fuel ih =>
    rw [stages]
    split
    next hnone => exact .inl (mem_placed_of_due_eq_nil hv hnone hid)
    next hsome =>
      have hn : (placed ++ g.due placed).Nodup :=
        List.nodup_append.mpr ⟨hp, nodup_due hv placed, fun a ha b hb he =>
          (mem_due.mp hb).2.1 (he ▸ ha)⟩
      have hpos := List.length_pos_iff.mpr hsome
      rw [List.flatten_cons, List.mem_append, ← or_assoc, ← List.mem_append]
      refine ih hn ?_ (by rw [List.length_append]; omega)
      intro other ho
      exact (List.mem_append.mp ho).elim (hk other) fun ho => (mem_due.mp ho).1

theorem mem_ids_of_stages {fuel : Nat} (hid : id ∈ (g.stages fuel placed).flatten) :
    id ∈ g.ids := by
  induction fuel generalizing placed with
  | zero => cases hid
  | succ fuel ih =>
    rw [stages] at hid
    split at hid
    · cases hid
    · rw [List.flatten_cons, List.mem_append] at hid
      exact hid.elim (fun hid => (mem_due.mp hid).1) ih

end TaskGraph

-- ---------------------------------------------------------------------------
-- Frontiers
-- ---------------------------------------------------------------------------

namespace Frontier

open TaskGraph

variable {g : TaskGraph} {f : Frontier} {placed : List String} {id : String}

/-- Placing dependencies of known tasks lowers their counts, and those are due whose counts fall to
zero, each once. -/
theorem foldl_settle (dependents : List String) (pending : Table String Int)
    (before : List String) : (∀ id, (dependents.foldl settle (pending, before)).1.get? id =
      (pending.get? id).map fun count => count - (dependents.count id : Int)) ∧
    ∃ found : List String, (dependents.foldl settle (pending, before)).2 = before ++ found ∧
      found.Nodup ∧ ∀ id, id ∈ found ↔
        ∃ count, pending.get? id = some count ∧ 1 ≤ count ∧ count ≤ dependents.count id := by
  induction dependents generalizing pending before with
  | nil =>
    refine ⟨fun id => by simp, [], by simp, List.nodup_nil, fun id => ⟨fun h => (nomatch h), ?_⟩⟩
    rintro ⟨count, -, hpos, hle⟩
    rw [List.count_nil] at hle
    omega
  | cons dependent rest ih =>
    cases hp : pending.get? dependent with
    | none =>
      have hs : settle (pending, before) dependent = (pending, before) := by simp [settle, hp]
      obtain ⟨hget, found, hfound, hnodup, hmem⟩ := ih pending before
      have hcount {id : String} {count : Int} (h : pending.get? id = some count) :
          (dependent :: rest).count id = rest.count id := by
        refine List.count_cons_of_ne fun he => ?_
        rw [← he, hp] at h
        cases h
      rw [List.foldl_cons, hs]
      refine ⟨fun id => ?_, found, hfound, hnodup, fun id => ?_⟩
      · rw [hget]
        cases h : pending.get? id with
        | none => rfl
        | some count => simp [hcount h]
      · rw [hmem]
        refine exists_congr fun count => and_congr_right fun h => ?_
        rw [hcount h]
    | some count =>
      have hs : settle (pending, before) dependent = (pending.insert dependent (count - 1),
          if count - 1 = 0 then before ++ [dependent] else before) := by simp [settle, hp]
      obtain ⟨hget, found, hfound, hnodup, hmem⟩ := ih (pending.insert dependent (count - 1))
        (if count - 1 = 0 then before ++ [dependent] else before)
      rw [List.foldl_cons, hs]
      simp only [Table.get?_insert] at hget hmem
      refine ⟨fun id => ?_, (if count - 1 = 0 then [dependent] else []) ++ found, ?_, ?_,
        fun id => ?_⟩
      · rw [hget]
        by_cases he : id = dependent
        · subst he
          simp [hp]
          omega
        · simp [he, List.count_cons_of_ne (Ne.symm he)]
      · rw [hfound]
        split <;> simp
      · split
        next h0 =>
          -- the count of the dependent is zero now and will not fall to zero again
          refine List.nodup_cons.mpr ⟨fun hm => ?_, hnodup⟩
          obtain ⟨left, hleft, hpos, -⟩ := (hmem dependent).mp hm
          rw [if_pos rfl, Option.some.injEq] at hleft
          omega
        · exact hnodup
      · rw [List.mem_append, hmem]
        by_cases he : id = dependent
        · subst he
          simp only [if_true, Option.some.injEq, hp, exists_eq_left', List.count_cons_self]
          split
          next h0 => simp; omega
          next h0 => simp; omega
        · have hnot : id ∉ if count - 1 = 0 then [dependent] else [] := by
            split <;> simp [he]
          simp [he, hnot, List.count_cons_of_ne (Ne.symm he)]

theorem count_dependents (hv : g.Valid) {current : List String} (hc : current.Nodup)
    (hid : id ∈ g.ids) : (current.flatMap g.dependents).count id =
      ((g.dependencies id).filter (· ∈ current)).length := by
  have hone (dep : String) :
      (g.dependents dep).count id = if dep ∈ g.dependencies id then 1 else 0 := by
    have hmem : id ∈ g.dependents dep ↔ dep ∈ g.dependencies id := by
      obtain ⟨task, ht, rfl⟩ := mem_ids.mp hid
      rw [dependencies_of_mem hv.distinct ht, dependents]
      constructor
      · intro hm
        obtain ⟨other, ho, he⟩ := List.mem_map.mp hm
        obtain ⟨ho, hdep⟩ := List.mem_filter.mp ho
        rw [← eq_of_id_eq hv.distinct ht ho he]
        exact of_decide_eq_true hdep
      · exact fun hm => List.mem_map_of_mem (List.mem_filter.mpr ⟨ht, decide_eq_true hm⟩)
    have hnodup : (g.dependents dep).Nodup := hv.distinct.sublist (List.filter_sublist.map _)
    rw [List.Nodup.count hnodup]
    simp [hmem]
  have hcount : (current.flatMap g.dependents).count id =
      (current.filter (· ∈ g.dependencies id)).length := by
    clear hc
    induction current with
    | nil => rfl
    | cons dep rest ih =>
      rw [List.flatMap_cons, List.count_append, hone, ih, List.filter_cons]
      by_cases hd : dep ∈ g.dependencies id
      · simp [hd, Nat.add_comm]
      · simp [hd]
  rw [hcount]
  refine List.Perm.length_eq ((List.perm_ext_iff_of_nodup (hc.filter _)
    ((hv.once id).filter _)).mpr fun dep => ?_)
  simp [and_comm]

/-- A frontier knows how many dependencies of each task are open and which tasks are due. -/
structure Stands (g : TaskGraph) (placed : List String) (f : Frontier) : Prop where
  pending : ∀ id ∈ g.ids, f.pending.get? id = some ((g.openDependencies placed id).length : Int)
  known : ∀ {id count}, f.pending.get? id = some count → id ∈ g.ids
  current : f.current = g.due placed

theorem stands_ofGraph (hv : g.Valid) : Stands g [] (ofGraph g) := by
  have hall (task : Task) (ht : task ∈ g.tasks) :
      (ofGraph g).pending.get? task.id = some (task.dependencies.length : Int) := by
    have hkeys : ((ofGraph g).pending.rows.map Prod.fst).Nodup := by
      simpa [ofGraph, ids, Function.comp_def] using hv.distinct
    have hmem : (task.id, (task.dependencies.length : Int)) ∈ (ofGraph g).pending.rows :=
      List.mem_map_of_mem ht
    simp only [Table.get?, find?_of_nodup_map hkeys hmem, Option.map_some]
  refine ⟨fun id hid => ?_, fun {id count} h => ?_, ?_⟩
  · obtain ⟨task, ht, rfl⟩ := mem_ids.mp hid
    rw [hall task ht, openDependencies, dependencies_of_mem hv.distinct ht]
    simp
  · obtain ⟨row, hr, -⟩ := Option.map_eq_some_iff.mp h
    have hkey : row.1 = id := by simpa using List.find?_some hr
    obtain ⟨task, ht, rfl⟩ := List.mem_map.mp (List.mem_of_find?_eq_some hr)
    exact mem_ids.mpr ⟨task, ht, hkey⟩
  · rw [ofGraph, due, ids, List.filter_map]
    refine congrArg _ (List.filter_congr fun task ht => ?_)
    cases hdeps : task.dependencies with
    | nil => simp [dependencies_of_mem hv.distinct ht, hdeps]
    | cons => simp [dependencies_of_mem hv.distinct ht, hdeps]

/-- Sorting tasks by their place in a graph gives the sublist of its tasks that they are. -/
theorem mergeSort_idxOf {found : List String} (hv : g.Valid) (hn : found.Nodup)
    (hm : ∀ id, id ∈ found ↔ id ∈ g.due placed) :
    found.mergeSort (fun a b => g.ids.idxOf a ≤ g.ids.idxOf b) = g.due placed := by
  have hsorted : (found.mergeSort fun a b => decide (g.ids.idxOf a ≤ g.ids.idxOf b)).Pairwise
      fun a b => decide (g.ids.idxOf a ≤ g.ids.idxOf b) = true := List.pairwise_mergeSort
    (by simp only [decide_eq_true_eq]; exact fun _ _ _ => Nat.le_trans)
    (by simp only [Bool.or_eq_true, decide_eq_true_eq]; exact fun _ _ => Nat.le_total _ _) found
  have hids : g.ids.Pairwise fun a b => decide (g.ids.idxOf a ≤ g.ids.idxOf b) = true := by
    refine List.pairwise_iff_getElem.mpr fun i j hi hj hlt => ?_
    rw [decide_eq_true_eq, hv.distinct.idxOf_getElem, hv.distinct.idxOf_getElem]
    exact Nat.le_of_lt hlt
  have hperm : (found.mergeSort fun a b => decide (g.ids.idxOf a ≤ g.ids.idxOf b)).Perm
      (g.due placed) :=
    (List.mergeSort_perm _ _).trans
      ((List.perm_ext_iff_of_nodup hn (nodup_due hv placed)).mpr hm)
  refine hperm.eq_of_pairwise (fun a b ha hb hab hba => ?_) hsorted
    (hids.sublist List.filter_sublist)
  rw [decide_eq_true_eq] at hab hba
  exact (List.idxOf_inj ((mem_due.mp (hperm.mem_iff.mp ha)).1)).mp (Nat.le_antisymm hab hba)

theorem Stands.advance (hv : g.Valid) (hc : g.Closed placed) (h : Stands g placed f) :
    Stands g (placed ++ g.due placed) (f.advance g) := by
  obtain ⟨hget, found, hfound, hnodup, hmem⟩ :=
    foldl_settle (f.current.flatMap g.dependents) f.pending []
  rw [List.nil_append] at hfound
  have hcount (id : String) (hid : id ∈ g.ids) : (f.current.flatMap g.dependents).count id =
      ((g.openDependencies placed id).filter (· ∈ g.due placed)).length := by
    rw [h.current, count_dependents hv (nodup_due hv placed) hid, openDependencies,
      List.filter_filter]
    refine congrArg _ (List.filter_congr fun dep _ => ?_)
    by_cases hd : dep ∈ g.due placed
    · simp [hd, (mem_due.mp hd).2.1]
    · simp [hd]
  have hdue (id : String) : id ∈ found ↔ id ∈ g.due (placed ++ g.due placed) := by
    rw [hmem, mem_due_append hc]
    constructor
    · rintro ⟨count, hcount', hpos, hle⟩
      have hid := h.known hcount'
      rw [h.pending id hid, Option.some.injEq] at hcount'
      subst hcount'
      rw [hcount id hid] at hle
      refine ⟨hid, List.length_pos_iff.mp (by omega), ?_⟩
      have hall := List.filter_eq_self.mp
        (List.filter_sublist.eq_of_length_le (Int.ofNat_le.mp hle))
      exact fun dep hdep => of_decide_eq_true (hall dep hdep)
    · rintro ⟨hid, hsome, hall⟩
      refine ⟨_, h.pending id hid, Int.ofNat_le.mpr (List.length_pos_iff.mpr hsome),
        Int.le_of_eq ?_⟩
      rw [hcount id hid, List.filter_eq_self.mpr fun dep hdep => decide_eq_true (hall dep hdep)]
  have hadvance : f.advance g = ⟨((f.current.flatMap g.dependents).foldl settle (f.pending, [])).1,
      found.mergeSort fun a b => g.ids.idxOf a ≤ g.ids.idxOf b⟩ := by
    rw [← hfound]
    rfl
  rw [hadvance]
  refine ⟨fun id hid => ?_, fun {id count} hsome => ?_, mergeSort_idxOf hv hnodup hdue⟩
  · rw [hget, h.pending id hid, hcount id hid, Option.map_some, Option.some.injEq]
    have hsplit := List.length_eq_length_filter_add (l := g.openDependencies placed id)
      fun dep => decide (dep ∈ g.due placed)
    have hrest : g.openDependencies (placed ++ g.due placed) id =
        (g.openDependencies placed id).filter fun dep => !decide (dep ∈ g.due placed) := by
      rw [openDependencies, openDependencies, List.filter_filter]
      refine List.filter_congr fun dep _ => ?_
      by_cases hd : dep ∈ placed <;> simp [hd]
    rw [hrest]
    omega
  · rw [hget] at hsome
    obtain ⟨left, hleft, -⟩ := Option.map_eq_some_iff.mp hsome
    exact h.known hleft

theorem layers_eq_stages (hv : g.Valid) (fuel : Nat) (hc : g.Closed placed)
    (h : Stands g placed f) : layers g fuel f = g.stages fuel placed := by
  induction fuel generalizing f placed with
  | zero => rfl
  | succ fuel ih =>
    rw [layers, stages, h.current, ih hc.append_due (h.advance hv hc)]
    simp [List.isEmpty_iff]

end Frontier

namespace TaskGraph

variable {g : TaskGraph}

theorem closed_nil (g : TaskGraph) : g.Closed [] := List.forall_mem_nil _

theorem layers_eq (hv : g.Valid) : g.layers = g.stages (g.size + 1) [] :=
  Frontier.layers_eq_stages hv _ g.closed_nil (Frontier.stands_ofGraph hv)

theorem inOrder_order (hv : g.Valid) : g.InOrder [] g.order := by
  rw [order, layers_eq hv]
  exact inOrder_stages hv _ _

theorem order_perm (hv : g.Valid) : g.order.Perm g.ids := by
  refine (List.perm_ext_iff_of_nodup (inOrder_order hv).nodup hv.distinct).mpr fun id => ?_
  rw [order, layers_eq hv]
  refine ⟨mem_ids_of_stages, fun hid => ?_⟩
  have hall : id ∈ [] ∨ id ∈ (g.stages (g.size + 1) []).flatten :=
    mem_flatten_stages hv List.nodup_nil (List.forall_mem_nil _) (by rw [List.length_nil]; omega)
      hid
  exact hall.resolve_left (fun h => nomatch h)

end TaskGraph

end Crew
