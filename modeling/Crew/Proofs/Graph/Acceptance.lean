import Mathlib.Data.List.Induction
import Mathlib.Data.List.TakeWhile
import Crew.Proofs.Condensed
import Crew.Proofs.Graph.Cycles

/-!
# Which submissions are graphs

The main statement is `build_decides`: a submission is a graph if and only if its tasks can be told
apart, need only each other and do not wait for themselves. Otherwise the error is that of the first
task whose id fails, then that of the first dependency that is no task, and only then a cycle.
-/

namespace Crew

open Relation (TransGen)

namespace Text

theorem isBlankText_iff {s : String} : isBlankText s = true ↔ trim s = "" := by
  rw [isBlankText, List.all_eq_true, trim, String.ofList_eq_empty_iff, List.reverse_eq_nil_iff,
    List.dropWhile_eq_nil_iff]
  constructor
  · intro h c hc
    exact h c ((List.dropWhile_suffix isBlank).subset (List.mem_reverse.mp hc))
  · intro h c hc
    rw [← List.takeWhile_append_dropWhile (p := isBlank) (l := s.toList)] at hc
    rcases List.mem_append.mp hc with hc | hc
    · exact List.mem_takeWhile_imp hc
    · exact h c (List.mem_reverse.mpr hc)

end Text

namespace TaskGraph

variable {g : TaskGraph} {task : Task} {tasks before rest : List Task} {id missing : String}

-- ---------------------------------------------------------------------------
-- What a submission asks for
-- ---------------------------------------------------------------------------

/-- The tasks can be told apart by visible ids. -/
structure Distinguished (tasks : List Task) : Prop where
  visible : ∀ task ∈ tasks, Text.trim task.id ≠ ""
  distinct : (tasks.map (·.id)).Nodup

def Needs (tasks : List Task) (id dep : String) : Prop :=
  ∃ task ∈ tasks, task.id = id ∧ dep ∈ task.dependencies

def SelfContained (tasks : List Task) : Prop :=
  ∀ task ∈ tasks, ∀ dep ∈ task.dependencies, dep ∈ tasks.map (·.id)

def Foremost {α : Type} (p : α → Prop) (xs : List α) (x : α) : Prop :=
  ∃ before rest, xs = before ++ x :: rest ∧ (∀ other ∈ before, ¬ p other) ∧ p x

/-- The first task that fails has no visible id, and this is its position. -/
def EmptyAt (tasks : List Task) (position : Nat) : Prop :=
  ∃ before task rest, tasks = before ++ task :: rest ∧ Distinguished before ∧
    before.length = position ∧ Text.trim task.id = ""

/-- The first task that fails has the visible id of one before it. -/
def Repeats (tasks : List Task) (id : String) : Prop :=
  ∃ before task rest, tasks = before ++ task :: rest ∧ Distinguished before ∧
    task.id = id ∧ Text.trim id ≠ "" ∧ id ∈ before.map (·.id)

/-- Of the first task that needs what is not there, the first dependency that is not there. -/
def Lacks (tasks : List Task) (id missing : String) : Prop :=
  ∃ task, task.id = id ∧
    Foremost (fun task => ∃ dep ∈ task.dependencies, dep ∉ tasks.map (·.id)) tasks task ∧
    Foremost (· ∉ tasks.map (·.id)) task.dependencies missing

structure Holds (g : TaskGraph) (tasks : List Task) : Prop where
  ids : g.ids = tasks.map (·.id)
  stored : ∀ task ∈ tasks, ∃ deps, Condensed task.dependencies deps ∧
    g.get? task.id = some { task with dependencies := deps } ∧ g.dependencies task.id = deps
  unknown : ∀ id ∉ tasks.map (·.id), g.get? id = none ∧ g.dependencies id = []
  dependents : ∀ dep, g.dependents dep = (tasks.filter (dep ∈ ·.dependencies)).map (·.id)
  once : ∀ dep, (g.dependents dep).Nodup

-- ---------------------------------------------------------------------------
-- The check of ids
-- ---------------------------------------------------------------------------

theorem Distinguished.concat_iff : Distinguished (before ++ [task]) ↔
    Distinguished before ∧ Text.trim task.id ≠ "" ∧ task.id ∉ before.map (·.id) := by
  have hnodup : ((before ++ [task]).map (·.id)).Nodup ↔
      (before.map (·.id)).Nodup ∧ task.id ∉ before.map (·.id) := by
    rw [List.map_append, List.map_singleton, ← List.concat_eq_append, List.nodup_concat, and_comm]
  constructor
  · intro h
    obtain ⟨hd, hm⟩ := hnodup.mp h.distinct
    exact ⟨⟨fun other ho => h.visible other (List.mem_append_left _ ho), hd⟩,
      h.visible task (by simp), hm⟩
  · rintro ⟨h, hv, hm⟩
    refine ⟨fun other ho => ?_, hnodup.mpr ⟨h.distinct, hm⟩⟩
    rcases List.mem_append.mp ho with ho | ho
    · exact h.visible other ho
    · rw [List.mem_singleton.mp ho]
      exact hv

theorem checkIds_append (h : Distinguished before) : checkIds 0 [] (before ++ rest) =
    checkIds before.length (before.map (·.id)).reverse rest := by
  induction before using List.reverseRecOn generalizing rest with
  | nil => rfl
  | append_singleton before task ih =>
    obtain ⟨hbefore, hv, hm⟩ := Distinguished.concat_iff.mp h
    rw [List.append_assoc, ih hbefore, List.singleton_append, checkIds,
      if_neg (Text.isBlankText_iff.not.mpr hv), if_neg (List.mem_reverse.not.mpr hm)]
    simp

theorem checkIds_of_distinguished (h : Distinguished tasks) : checkIds 0 [] tasks = .ok () := by
  have hall : checkIds 0 [] (tasks ++ []) = .ok () := checkIds_append h
  rwa [List.append_nil] at hall

theorem checkIds_of_emptyAt {position : Nat} (h : EmptyAt tasks position) :
    checkIds 0 [] tasks = .error (.emptyId position) := by
  obtain ⟨before, task, rest, rfl, hd, rfl, hv⟩ := h
  rw [checkIds_append hd, checkIds, if_pos (Text.isBlankText_iff.mpr hv)]

theorem checkIds_of_repeats (h : Repeats tasks id) :
    checkIds 0 [] tasks = .error (.duplicateId id) := by
  obtain ⟨before, task, rest, rfl, hd, rfl, hv, hm⟩ := h
  rw [checkIds_append hd, checkIds, if_neg (Text.isBlankText_iff.not.mpr hv),
    if_pos (List.mem_reverse.mpr hm)]

theorem distinguished_or (tasks : List Task) :
    Distinguished tasks ∨ (∃ position, EmptyAt tasks position) ∨ ∃ id, Repeats tasks id := by
  induction tasks using List.reverseRecOn with
  | nil => exact .inl { visible := by simp, distinct := List.nodup_nil }
  | append_singleton before task ih =>
    rcases ih with hd | ⟨position, early, other, late, rfl, hd, hp, hv⟩ |
      ⟨id, early, other, late, rfl, hd, hid, hv, hm⟩
    · by_cases hv : Text.trim task.id = ""
      · exact .inr (.inl ⟨_, before, task, [], rfl, hd, rfl, hv⟩)
      · by_cases hm : task.id ∈ before.map (·.id)
        · exact .inr (.inr ⟨_, before, task, [], rfl, hd, rfl, hv, hm⟩)
        · exact .inl (Distinguished.concat_iff.mpr ⟨hd, hv, hm⟩)
    · exact .inr (.inl ⟨position, early, other, late ++ [task], by simp, hd, hp, hv⟩)
    · exact .inr (.inr ⟨id, early, other, late ++ [task], by simp, hd, hid, hv, hm⟩)

-- ---------------------------------------------------------------------------
-- The graph of a submission
-- ---------------------------------------------------------------------------

/-- The graph that a submission makes, if it makes one. -/
def submitted (tasks : List Task) : TaskGraph :=
  ⟨tasks.map fun task => { task with dependencies := task.dependencies.eraseDups }⟩

theorem ids_submitted (tasks : List Task) : (submitted tasks).ids = tasks.map (·.id) := by
  rw [ids, submitted, List.map_map]
  rfl

theorem mem_submitted (h : task ∈ tasks) :
    { task with dependencies := task.dependencies.eraseDups } ∈ (submitted tasks).tasks :=
  List.mem_map_of_mem h

theorem get?_submitted (hn : (tasks.map (·.id)).Nodup) (h : task ∈ tasks) :
    (submitted tasks).get? task.id =
      some { task with dependencies := task.dependencies.eraseDups } :=
  get?_of_mem (by rwa [ids_submitted]) (mem_submitted h)

theorem get?_submitted_eq_none (h : id ∉ tasks.map (·.id)) : (submitted tasks).get? id = none := by
  cases hg : (submitted tasks).get? id with
  | none => rfl
  | some task =>
    refine absurd ?_ h
    rw [← ids_submitted]
    exact mem_ids.mpr ⟨task, get?_mem hg⟩

theorem dependents_submitted (tasks : List Task) (dep : String) :
    (submitted tasks).dependents dep = (tasks.filter (dep ∈ ·.dependencies)).map (·.id) := by
  rw [dependents, submitted, List.filter_map, List.map_map]
  simp [Function.comp_def]

theorem dependsOn_submitted (hn : (tasks.map (·.id)).Nodup) :
    (submitted tasks).DependsOn = Needs tasks := by
  funext id dep
  rw [DependsOn, Needs, dependencies, eq_iff_iff]
  constructor
  · intro h
    cases hg : (submitted tasks).get? id with
    | none => simp [hg] at h
    | some stored =>
      obtain ⟨hs, rfl⟩ := get?_mem hg
      obtain ⟨task, ht, rfl⟩ := List.mem_map.mp hs
      exact ⟨task, ht, rfl, by simpa [hg] using h⟩
  · rintro ⟨task, ht, rfl, hdep⟩
    simpa [get?_submitted hn ht] using hdep

theorem holds_submitted (hn : (tasks.map (·.id)).Nodup) : Holds (submitted tasks) tasks where
  ids := ids_submitted tasks
  stored task ht := by
    have hg := get?_submitted hn ht
    exact ⟨_, .eraseDups _, hg, by simp [dependencies, hg]⟩
  unknown id hid := by
    have hg := get?_submitted_eq_none hid
    exact ⟨hg, by simp [dependencies, hg]⟩
  dependents := dependents_submitted tasks
  once dep := by
    rw [dependents_submitted]
    exact hn.sublist (List.filter_sublist.map _)

-- ---------------------------------------------------------------------------
-- The check of dependencies
-- ---------------------------------------------------------------------------

theorem find?_eq_some_iff_foremost {α : Type} {p : α → Bool} {xs : List α} {x : α} :
    xs.find? p = some x ↔ Foremost (p · = true) xs x := by
  rw [List.find?_eq_some_iff_append]
  constructor
  · rintro ⟨hx, before, rest, hsplit, hbefore⟩
    exact ⟨before, rest, hsplit, by simpa using hbefore, hx⟩
  · rintro ⟨before, rest, hsplit, hbefore, hx⟩
    exact ⟨hx, before, rest, hsplit, by simpa using hbefore⟩

def firstUnknown (tasks : List Task) : Option (String × String) :=
  tasks.findSome? fun task =>
    (task.dependencies.find? (· ∉ tasks.map (·.id))).map fun missing => (task.id, missing)

theorem checkDependencies_submitted (tasks : List Task) :
    checkDependencies (submitted tasks).ids (submitted tasks).tasks =
      match firstUnknown tasks with
      | some (task, missing) => .error (.unknownDependency task missing)
      | none => .ok () := by
  rw [checkDependencies, ids_submitted, submitted, List.findSome?_map]
  simp only [Function.comp_def, find?_eraseDups, firstUnknown]
  rfl

theorem firstUnknown_eq_none_iff : firstUnknown tasks = none ↔ SelfContained tasks := by
  simp [firstUnknown, SelfContained]

theorem firstUnknown_eq_some_iff : firstUnknown tasks = some (id, missing) ↔
    Lacks tasks id missing := by
  rw [firstUnknown, List.findSome?_eq_some_iff]
  constructor
  · rintro ⟨before, task, rest, hsplit, htask, hbefore⟩
    obtain ⟨found, hfound, he⟩ := Option.map_eq_some_iff.mp htask
    obtain ⟨rfl, rfl⟩ := Prod.mk.inj he
    have hfirst := find?_eq_some_iff_foremost.mp hfound
    simp only [decide_eq_true_eq] at hfirst
    refine ⟨task, rfl, ⟨before, rest, hsplit, ?_, ?_⟩, hfirst⟩
    · intro other ho
      simpa using hbefore other ho
    · obtain ⟨early, late, hdeps, -, hmissing⟩ := hfirst
      exact ⟨found, by simp [hdeps], hmissing⟩
  · rintro ⟨task, rfl, ⟨before, rest, hsplit, hbefore, -⟩, hfirst⟩
    refine ⟨before, task, rest, hsplit, ?_, ?_⟩
    · rw [find?_eq_some_iff_foremost.mpr (by simpa only [decide_eq_true_eq] using hfirst)]
      rfl
    · intro other ho
      simpa using hbefore other ho

-- ---------------------------------------------------------------------------
-- The whole check
-- ---------------------------------------------------------------------------

theorem build_eq (tasks : List Task) : build tasks = do
    checkIds 0 [] tasks
    checkDependencies (submitted tasks).ids (submitted tasks).tasks
    match (submitted tasks).findCycle with
    | some path => .error (.cycle path)
    | none => return submitted tasks := rfl

theorem build_of_emptyAt {position : Nat} (h : EmptyAt tasks position) :
    build tasks = .error (.emptyId position) := by
  rw [build_eq, checkIds_of_emptyAt h]
  rfl

theorem build_of_repeats (h : Repeats tasks id) : build tasks = .error (.duplicateId id) := by
  rw [build_eq, checkIds_of_repeats h]
  rfl

theorem build_of_lacks (hd : Distinguished tasks) (h : Lacks tasks id missing) :
    build tasks = .error (.unknownDependency id missing) := by
  rw [build_eq, checkIds_of_distinguished hd, checkDependencies_submitted,
    firstUnknown_eq_some_iff.mpr h]
  rfl

theorem build_of_selfContained (hd : Distinguished tasks) (hs : SelfContained tasks) :
    build tasks = match (submitted tasks).findCycle with
      | some path => .error (.cycle path)
      | none => .ok (submitted tasks) := by
  rw [build_eq, checkIds_of_distinguished hd, checkDependencies_submitted,
    firstUnknown_eq_none_iff.mpr hs]
  rfl

theorem known_of_selfContained (hn : (tasks.map (·.id)).Nodup) (hs : SelfContained tasks)
    (id dep : String) (h : (submitted tasks).DependsOn id dep) : dep ∈ (submitted tasks).ids := by
  rw [dependsOn_submitted hn] at h
  obtain ⟨task, ht, -, hdep⟩ := h
  rw [ids_submitted]
  exact hs task ht dep hdep

/-- What a submission comes to. At most one case applies, but for the choice among cycles. -/
inductive Verdict (tasks : List Task) : Except GraphError TaskGraph → Prop
  | emptyId {position : Nat} (h : EmptyAt tasks position) : Verdict tasks (.error (.emptyId position))
  | duplicateId {id : String} (h : Repeats tasks id) : Verdict tasks (.error (.duplicateId id))
  | unknownDependency {id missing : String} (hd : Distinguished tasks) (h : Lacks tasks id missing) :
    Verdict tasks (.error (.unknownDependency id missing))
  | cycle {path : List String} (hd : Distinguished tasks) (hs : SelfContained tasks)
    (hc : IsCycle (Needs tasks) path) : Verdict tasks (.error (.cycle path))
  | graph {g : TaskGraph} (hd : Distinguished tasks) (hs : SelfContained tasks)
    (ha : ∀ id, ¬ TransGen (Needs tasks) id id) (hg : Holds g tasks) : Verdict tasks (.ok g)

theorem verdict_build (tasks : List Task) : Verdict tasks (build tasks) := by
  rcases distinguished_or tasks with hd | ⟨position, h⟩ | ⟨id, h⟩
  · cases hu : firstUnknown tasks with
    | some unknown =>
      have hl := firstUnknown_eq_some_iff.mp hu
      rw [build_of_lacks hd hl]
      exact .unknownDependency hd hl
    | none =>
      have hs := firstUnknown_eq_none_iff.mp hu
      have hk := known_of_selfContained hd.distinct hs
      rw [build_of_selfContained hd hs]
      cases hf : (submitted tasks).findCycle with
      | some path =>
        exact .cycle hd hs (dependsOn_submitted hd.distinct ▸ isCycle_of_findCycle hk hf)
      | none =>
        refine .graph hd hs ?_ (holds_submitted hd.distinct)
        exact dependsOn_submitted hd.distinct ▸ (findCycle_eq_none_iff hk).mp hf
  · rw [build_of_emptyAt h]
    exact .emptyId h
  · rw [build_of_repeats h]
    exact .duplicateId h

structure Valid (g : TaskGraph) : Prop where
  distinct : g.ids.Nodup
  once : ∀ id, (g.dependencies id).Nodup
  known : ∀ id dep, g.DependsOn id dep → dep ∈ g.ids
  grounded : ∀ id, g.Grounded id

theorem valid_submitted (hd : Distinguished tasks) (hs : SelfContained tasks)
    (ha : ∀ id, ¬ TransGen (Needs tasks) id id) : (submitted tasks).Valid := by
  have hk := known_of_selfContained hd.distinct hs
  rw [← dependsOn_submitted hd.distinct] at ha
  refine ⟨by rw [ids_submitted]; exact hd.distinct, fun id => ?_, hk, fun id => ?_⟩
  · rw [dependencies]
    cases hg : (submitted tasks).get? id with
    | none => exact List.nodup_nil
    | some stored =>
      obtain ⟨task, -, rfl⟩ := List.mem_map.mp (get?_mem hg).1
      exact (Condensed.eraseDups task.dependencies).nodup
  · by_cases hid : id ∈ (submitted tasks).ids
    · exact grounded_of_findCycle hk ((findCycle_eq_none_iff hk).mpr ha) id hid
    · -- a task that is not there has no dependencies
      refine .intro id fun dep hdep => ?_
      have hnone := get?_submitted_eq_none (by rwa [← ids_submitted])
      simp [DependsOn, dependencies, hnone] at hdep

theorem eq_submitted_of_build (h : build tasks = .ok g) : g = submitted tasks :=
  congrArg TaskGraph.mk (build_eq_ok h).2

theorem valid_of_build (h : build tasks = .ok g) : g.Valid := by
  have hv := verdict_build tasks
  rw [h] at hv
  cases hv with
  | graph hd hs ha _ =>
    rw [eq_submitted_of_build h]
    exact valid_submitted hd hs ha

theorem build_decides (tasks : List Task) :
    ((∃ g, build tasks = .ok g) ↔ Distinguished tasks ∧ SelfContained tasks ∧
      ∀ id, ¬ TransGen (Needs tasks) id id) ∧
    (∀ g, build tasks = .ok g → Holds g tasks) ∧
    (∀ position, build tasks = .error (.emptyId position) ↔ EmptyAt tasks position) ∧
    (∀ id, build tasks = .error (.duplicateId id) ↔ Repeats tasks id) ∧
    (∀ id missing, build tasks = .error (.unknownDependency id missing) ↔
      Distinguished tasks ∧ Lacks tasks id missing) ∧
    ((∃ path, build tasks = .error (.cycle path)) ↔ Distinguished tasks ∧ SelfContained tasks ∧
      ∃ id, TransGen (Needs tasks) id id) ∧
    ∀ path, build tasks = .error (.cycle path) → IsCycle (Needs tasks) path := by
  have hv := verdict_build tasks
  refine ⟨⟨?_, ?_⟩, ?_, fun position => ⟨?_, build_of_emptyAt⟩, fun id => ⟨?_, build_of_repeats⟩,
    fun id missing => ⟨?_, fun h => build_of_lacks h.1 h.2⟩, ⟨?_, ?_⟩, ?_⟩
  · rintro ⟨g, h⟩
    rw [h] at hv
    cases hv with
    | graph hd hs ha _ => exact ⟨hd, hs, ha⟩
  · rintro ⟨hd, hs, ha⟩
    have hk := known_of_selfContained hd.distinct hs
    rw [← dependsOn_submitted hd.distinct] at ha
    rw [build_of_selfContained hd hs, (findCycle_eq_none_iff hk).mpr ha]
    exact ⟨_, rfl⟩
  · intro g h
    rw [h] at hv
    cases hv with
    | graph _ _ _ hg => exact hg
  · intro h
    rw [h] at hv
    cases hv with
    | emptyId h => exact h
  · intro h
    rw [h] at hv
    cases hv with
    | duplicateId h => exact h
  · intro h
    rw [h] at hv
    cases hv with
    | unknownDependency hd h => exact ⟨hd, h⟩
  · rintro ⟨path, h⟩
    rw [h] at hv
    cases hv with
    | cycle hd hs hc => exact ⟨hd, hs, hc.transGen⟩
  · rintro ⟨hd, hs, id, hc⟩
    rw [build_of_selfContained hd hs]
    cases hf : (submitted tasks).findCycle with
    | some path => exact ⟨path, rfl⟩
    | none =>
      have ha := (findCycle_eq_none_iff (known_of_selfContained hd.distinct hs)).mp hf id
      rw [dependsOn_submitted hd.distinct] at ha
      exact absurd hc ha
  · intro path h
    rw [h] at hv
    cases hv with
    | cycle _ _ hc => exact hc

def diamond : List Task :=
  [{ id := "fetch", capability := "io" },
   { id := "parse", capability := "cpu", dependencies := ["fetch"] },
   { id := "store", capability := "io", dependencies := ["parse", "fetch", "parse"] }]

theorem build_diamond :
    build diamond = .ok (submitted diamond) ∧ Holds (submitted diamond) diamond ∧
      ∃ id, TransGen (Needs [{ id := "loop", capability := "cpu", dependencies := ["loop"] }]) id id := by
  have hd : build diamond = .ok (submitted diamond) := by decide +kernel
  exact ⟨hd, (build_decides diamond).2.1 _ hd,
    ((build_decides _).2.2.2.2.2.1.mp ⟨["loop", "loop"], by decide +kernel⟩).2.2⟩

end TaskGraph

end Crew
