import Mathlib.Order.Lattice.Nat
import Mathlib.Order.Bounds.Basic
import Crew.Proofs.Graph.Descendants

/-!
# Downstream tasks, nearest ones first

The distance of a task from one that it depends on is the length of a shortest chain of dependencies
between them. The walk over dependents finds the tasks downstream of its root in the order of their
distances (`transitiveDependents_exact`). What carries this is that nobody whom the walk has not
found yet is as near as the task it looks at next (`Ranked.lt_of_not_mem`), and that those it has
found are at most one dependency farther (`Ranked.near`).

The root is never marked as found. That it is not found either is due to the graph, which has no
cycle.
-/

namespace Crew.TaskGraph

open Relation (TransGen)

variable {g : TaskGraph} {needs : String → String → Prop} {seen : List String} {tasks : List Task}
  {id dep root : String} {fuel next k n : Nat}

-- ---------------------------------------------------------------------------
-- Distances
-- ---------------------------------------------------------------------------

/-- Some chain of so many dependencies leads from the task to the root. -/
def LeadsTo (needs : String → String → Prop) (root : String) (n : Nat) (id : String) : Prop :=
  ∃ path : List String, (id :: path).IsChain needs ∧ path.length = n ∧
    (id :: path).getLast? = some root

/-- The shortest chain from the task to the root has so many dependencies. -/
def AtDistance (needs : String → String → Prop) (root : String) (n : Nat) (id : String) : Prop :=
  IsLeast {k | LeadsTo needs root k id} n

def NoFarther (needs : String → String → Prop) (root a b : String) : Prop :=
  ∀ m n, AtDistance needs root m a → AtDistance needs root n b → m ≤ n

/-- What is found downstream of a task. -/
structure Downstream (tasks : List Task) (root : String) (found : List String) : Prop where
  mem : ∀ id, id ∈ found ↔ TransGen (Needs tasks) id root
  once : found.Nodup
  apart : root ∉ found
  reached : ∀ id ∈ found, ∃ n, 0 < n ∧ AtDistance (Needs tasks) root n id
  nearest : found.Pairwise (NoFarther (Needs tasks) root)
  unknown : root ∉ tasks.map (·.id) → found = []

theorem leadsTo_zero : LeadsTo needs root 0 id ↔ id = root := by
  constructor
  · rintro ⟨path, -, hlength, hlast⟩
    obtain rfl := List.length_eq_zero_iff.mp hlength
    exact Option.some.inj hlast
  · rintro rfl
    exact ⟨[], List.isChain_singleton id, rfl, rfl⟩

theorem leadsTo_succ :
    LeadsTo needs root (n + 1) id ↔ ∃ dep, needs id dep ∧ LeadsTo needs root n dep := by
  constructor
  · rintro ⟨path, hchain, hlength, hlast⟩
    obtain ⟨dep, rest, rfl⟩ := List.exists_cons_of_length_eq_add_one hlength
    obtain ⟨hdep, hrest⟩ := List.isChain_cons_cons.mp hchain
    exact ⟨dep, hdep, rest, hrest, Nat.succ.inj hlength, by rwa [List.getLast?_cons_cons] at hlast⟩
  · rintro ⟨dep, hdep, path, hchain, rfl, hlast⟩
    exact ⟨dep :: path, List.isChain_cons_cons.mpr ⟨hdep, hchain⟩, rfl,
      by rwa [List.getLast?_cons_cons]⟩

theorem LeadsTo.exists_atDistance (h : LeadsTo needs root n id) :
    ∃ k ≤ n, AtDistance needs root k id :=
  ⟨_, Nat.sInf_le h, Nat.sInf_mem ⟨n, h⟩, fun _ => Nat.sInf_le⟩

theorem exists_leadsTo_of_transGen (h : TransGen needs id root) :
    ∃ n, LeadsTo needs root (n + 1) id := by
  induction h using TransGen.head_induction_on with
  | single hdep => exact ⟨0, leadsTo_succ.mpr ⟨root, hdep, leadsTo_zero.mpr rfl⟩⟩
  | head hdep _ ih =>
    obtain ⟨n, hn⟩ := ih
    exact ⟨n + 1, leadsTo_succ.mpr ⟨_, hdep, hn⟩⟩

theorem exists_atDistance_of_transGen (h : TransGen needs id root) :
    ∃ n, AtDistance needs root n id := by
  obtain ⟨n, hn⟩ := exists_leadsTo_of_transGen h
  obtain ⟨k, -, hk⟩ := hn.exists_atDistance
  exact ⟨k, hk⟩

theorem AtDistance.pos (h : AtDistance needs root n id) (hne : id ≠ root) : 0 < n := by
  refine Nat.pos_of_ne_zero ?_
  rintro rfl
  exact hne (leadsTo_zero.mp h.1)

theorem AtDistance.exists_dep (h : AtDistance needs root (n + 1) id) :
    ∃ dep, needs id dep ∧ AtDistance needs root n dep := by
  obtain ⟨dep, hdep, hrest⟩ := leadsTo_succ.mp h.1
  refine ⟨dep, hdep, hrest, fun k hk => ?_⟩
  exact Nat.le_of_succ_le_succ (h.2 (leadsTo_succ.mpr ⟨dep, hdep, hk⟩))

-- ---------------------------------------------------------------------------
-- The order of the walk
-- ---------------------------------------------------------------------------

/-- What was found so far stands in the order of distances, and the task to be looked at next is at
most one dependency nearer than any of it. -/
structure Ranked (g : TaskGraph) (root : String) (seen : List String) (next : Nat) : Prop where
  ascending : seen.Pairwise (NoFarther g.DependsOn root)
  near : ∀ dep, seen[next]? = some dep → ∀ id ∈ seen, ∀ m n,
    AtDistance g.DependsOn root m id → AtDistance g.DependsOn root n dep → m ≤ n + 1

theorem Ranked.lt_of_not_mem (h : g.Ranked root seen next) (he : g.Explored root seen next)
    (hs : seen[next]? = some dep) (hk : AtDistance g.DependsOn root k dep)
    (hid : AtDistance g.DependsOn root n id) (hne : id ≠ root) (hnew : id ∉ seen) : k < n := by
  induction n generalizing id with
  | zero => exact absurd (leadsTo_zero.mp hid.1) hne
  | succ n ih =>
    obtain ⟨other, hother, hrest⟩ := hid.exists_dep
    by_cases hroot : other = root
    · exact absurd (he.root id (hroot ▸ hother)) hnew
    by_cases hm : other ∈ seen
    · -- had it been looked at, its dependents would be found
      obtain ⟨i, hi, hget⟩ := List.mem_iff_getElem.mp hm
      have hle : next ≤ i := by
        by_contra hlt
        exact hnew (he.looked i (Nat.lt_of_not_le hlt) other
          (List.getElem?_eq_some_iff.mpr ⟨hi, hget⟩) id hother)
      rcases Nat.eq_or_lt_of_le hle with rfl | hlt
      · obtain rfl : other = dep :=
          Option.some.inj ((List.getElem?_eq_some_iff.mpr ⟨hi, hget⟩).symm.trans hs)
        exact Nat.lt_succ_of_le (hk.2 hrest.1)
      · obtain ⟨hn, hdep⟩ := List.getElem?_eq_some_iff.mp hs
        have hpair := List.pairwise_iff_getElem.mp h.ascending next i hn hi hlt
        rw [hdep, hget] at hpair
        exact Nat.lt_succ_of_le (hpair k n hk hrest)
    · exact Nat.lt_succ_of_lt (ih hrest hroot hm)

theorem exists_appendNew (hn : seen.Nodup) (found : List String) :
    ∃ fresh, appendNew seen found = seen ++ fresh ∧ ∀ id ∈ fresh, id ∉ seen ∧ id ∈ found := by
  obtain ⟨fresh, hfresh⟩ := prefix_appendNew seen found
  refine ⟨fresh, hfresh.symm, fun id hid => ?_⟩
  have hnodup : (seen ++ fresh).Nodup := hfresh ▸ nodup_appendNew hn
  have hnew : id ∉ seen := fun hm => (List.disjoint_of_nodup_append hnodup) hm hid
  have hm : id ∈ appendNew seen found := hfresh ▸ List.mem_append_right seen hid
  exact ⟨hnew, (mem_appendNew.mp hm).resolve_left hnew⟩

theorem Ranked.start (hv : g.Valid) (root : String) :
    g.Ranked root (appendNew [] (g.dependents root)) 0 := by
  have hone : ∀ id ∈ appendNew [] (g.dependents root), ∀ n, AtDistance g.DependsOn root n id →
      n = 1 := by
    intro id hid n hn
    have hdep : g.DependsOn id root :=
      (mem_dependents hv.distinct).mp ((mem_appendNew.mp hid).resolve_left List.not_mem_nil)
    have hne : id ≠ root := fun he => (hv.grounded root).not_transGen (.single (he ▸ hdep))
    have hle : n ≤ 1 := hn.2 (leadsTo_succ.mpr ⟨root, hdep, leadsTo_zero.mpr rfl⟩)
    exact Nat.le_antisymm hle (hn.pos hne)
  refine ⟨List.pairwise_of_forall_mem_list fun a ha b hb m n hm hn => ?_,
    fun dep hdep id hid m n hm hn => ?_⟩
  · rw [hone a ha m hm, hone b hb n hn]
  · rw [hone id hid m hm]
    exact Nat.le_add_left 1 n

theorem Ranked.look (hv : g.Valid) (h : g.Ranked root seen next) (he : g.Explored root seen next)
    (hs : seen[next]? = some dep) :
    g.Ranked root (appendNew seen (g.dependents dep)) (next + 1) := by
  have hdep : TransGen g.DependsOn dep root := he.downstream dep (List.mem_of_getElem? hs)
  obtain ⟨k, hk⟩ := exists_atDistance_of_transGen hdep
  obtain ⟨fresh, heq, hfresh⟩ := exists_appendNew he.nodup (g.dependents dep)
  -- who is found now is one dependency farther than the task looked at
  have hexact : ∀ id ∈ fresh, ∀ n, AtDistance g.DependsOn root n id → n = k + 1 := by
    intro id hid n hn
    obtain ⟨hnew, hm⟩ := hfresh id hid
    have hneeds : g.DependsOn id dep := (mem_dependents hv.distinct).mp hm
    have hne : id ≠ root := by
      rintro rfl
      exact (hv.grounded id).not_transGen (.head hneeds hdep)
    have hle : n ≤ k + 1 := hn.2 (leadsTo_succ.mpr ⟨dep, hneeds, hk.1⟩)
    exact Nat.le_antisymm hle (h.lt_of_not_mem he hs hk hn hne hnew)
  have hseen : ∀ id ∈ seen, ∀ n, AtDistance g.DependsOn root n id → n ≤ k + 1 :=
    fun id hid n hn => h.near dep hs id hid n k hn hk
  rw [heq]
  refine ⟨List.pairwise_append.mpr ⟨h.ascending,
    List.pairwise_of_forall_mem_list fun a ha b hb m n hm hn => ?_,
    fun a ha b hb m n hm hn => ?_⟩, fun other hother id hid m n hm hn => ?_⟩
  · rw [hexact a ha m hm, hexact b hb n hn]
  · rw [hexact b hb n hn]
    exact hseen a ha m hm
  · have hle : m ≤ k + 1 := by
      rcases List.mem_append.mp hid with hid | hid
      · exact hseen id hid m hm
      · exact Nat.le_of_eq (hexact id hid m hm)
    have hge : k ≤ n := by
      obtain ⟨hnext, hget⟩ := List.getElem?_eq_some_iff.mp hs
      rcases Nat.lt_or_ge (next + 1) seen.length with hlt | hge
      · rw [List.getElem?_append_left hlt, List.getElem?_eq_getElem hlt] at hother
        have hpair := List.pairwise_iff_getElem.mp h.ascending next (next + 1) hnext hlt
          (Nat.lt_succ_self next)
        rw [hget, Option.some.inj hother] at hpair
        exact hpair k n hk hn
      · rw [List.getElem?_append_right hge] at hother
        rw [hexact other (List.mem_of_getElem? hother) n hn]
        exact Nat.le_succ k
    omega

theorem Ranked.collect (hv : g.Valid) (h : g.Ranked root seen next)
    (he : g.Explored root seen next) :
    (g.collectDependents fuel seen next).Pairwise (NoFarther g.DependsOn root) := by
  induction fuel generalizing seen next with
  | zero => exact h.ascending
  | succ fuel ih =>
    rw [collectDependents]
    split
    · exact h.ascending
    next dep hs => exact ih (h.look hv he hs) (he.look hv.distinct hs)

/-- More fuel than there are tasks changes nothing: the walk has come to its end by itself. -/
theorem Explored.collect_eq (hn : g.ids.Nodup) (h : g.Explored root seen next) {more : Nat}
    (hf : g.size ≤ fuel + next) (hle : fuel ≤ more) :
    g.collectDependents more seen next = g.collectDependents fuel seen next := by
  induction fuel generalizing seen next more with
  | zero =>
    have hnone : seen[next]? = none :=
      List.getElem?_eq_none_iff.mpr (Nat.le_trans h.length_le (by omega))
    cases more with
    | zero => rfl
    | succ more => simp only [collectDependents, hnone]
  | succ fuel ih =>
    obtain ⟨more, rfl⟩ := Nat.exists_eq_add_of_le' (Nat.le_trans (Nat.succ_pos fuel) hle)
    rw [collectDependents, collectDependents]
    split
    · rfl
    next dep hs => exact ih (h.look hn hs) (by omega) (Nat.le_of_succ_le_succ hle)

/-- The walk from any task of a built graph, or from an id that is none, comes to its end and finds
just the tasks downstream, each once and nearest ones first. -/
theorem transitiveDependents_exact (h : build tasks = .ok g) (root : String) :
    Downstream tasks root (g.transitiveDependents root) ∧
      ∀ fuel, g.size ≤ fuel → g.collectDependents fuel (appendNew [] (g.dependents root)) 0 =
        g.transitiveDependents root := by
  have hv := valid_of_build h
  have hneeds : g.DependsOn = Needs tasks := by
    rw [eq_submitted_of_build h]
    exact dependsOn_submitted (ids_of_build h ▸ hv.distinct)
  have hmem (id : String) : id ∈ g.transitiveDependents root ↔ TransGen (Needs tasks) id root :=
    hneeds ▸ mem_transitiveDependents hv.distinct
  have hapart : root ∉ g.transitiveDependents root := fun hm =>
    (hv.grounded root).not_transGen (hneeds ▸ (hmem root).mp hm)
  have he := Explored.start hv.distinct root
  refine ⟨{
    mem := hmem
    once := nodup_transitiveDependents hv.distinct root
    apart := hapart
    reached := fun id hid => by
      obtain ⟨n, hn⟩ := exists_atDistance_of_transGen ((hmem id).mp hid)
      exact ⟨n, hn.pos (ne_of_mem_of_not_mem hid hapart), hn⟩
    nearest := hneeds ▸ (Ranked.start hv root).collect hv he
    unknown := fun hroot => List.eq_nil_iff_forall_not_mem.mpr fun id hid => ?_ },
    fun fuel hf => he.collect_eq hv.distinct (Nat.le_add_right _ _) hf⟩
  obtain ⟨last, -, hlast⟩ := TransGen.tail'_iff.mp ((hmem id).mp hid)
  exact hroot (ids_of_build h ▸ hv.known last root (hneeds ▸ hlast))

def branches : List Task :=
  [{ id := "fetch", capability := "io" },
   { id := "parse", capability := "cpu", dependencies := ["fetch"] },
   { id := "check", capability := "cpu", dependencies := ["parse"] },
   { id := "store", capability := "io", dependencies := ["fetch"] },
   { id := "report", capability := "io", dependencies := ["check", "store"] }]

theorem transitiveDependents_branches : build branches = .ok (submitted branches) ∧
    (submitted branches).transitiveDependents "fetch" = ["parse", "store", "check", "report"] ∧
    Downstream branches "fetch" ["parse", "store", "check", "report"] := by
  have hb : build branches = .ok (submitted branches) := by decide +kernel
  have hfound : (submitted branches).transitiveDependents "fetch" =
      ["parse", "store", "check", "report"] := by decide +kernel
  exact ⟨hb, hfound, hfound ▸ (transitiveDependents_exact hb "fetch").1⟩

end Crew.TaskGraph
