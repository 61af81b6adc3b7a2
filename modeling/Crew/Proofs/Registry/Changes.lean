import Mathlib.Data.List.Nodup
import Mathlib.Logic.Relation
import Crew.Registry.Basic

/-!
# What becomes of a registry

Runs only use a registry (`Registry.Uses`): they look for workers, take and give back leases, report
outcomes and announce what they do. Which workers there are changes by registration and removal
alone (`Registry.Changes`), and no two workers ever have one id (`Registry.Built.distinct`). So the
workers chosen for a capability are distinct and known to the trust table.
-/

namespace Crew.Registry

variable {reg : Registry} {workerId capability : String} {now : Nat}

def ids (reg : Registry) : List String := reg.workers.map (·.workerId)

def Distinct (reg : Registry) : Prop := reg.ids.Nodup

theorem mem_ids_iff : workerId ∈ reg.ids ↔ (reg.find? workerId).isSome := by
  simp [ids, find?, List.find?_isSome]

theorem ids_map {f : Registration → Registration} (hf : ∀ r ∈ reg.workers,
    (f r).workerId = r.workerId) : ids { reg with workers := reg.workers.map f } = reg.ids := by
  simp only [ids, List.map_map]
  exact List.map_congr_left hf

theorem ids_modify {f : Registration → Registration}
    (hf : ∀ r, r.workerId = workerId → (f r).workerId = r.workerId) :
    (reg.modify workerId f).ids = reg.ids := by
  refine ids_map fun r _ => ?_
  split
  next h => exact hf r h
  · rfl

theorem ids_emit (reg : Registry) (e : Event) : (reg.emit e).ids = reg.ids := rfl

theorem ids_refresh (reg : Registry) (now : Nat) (which : Registration → Bool) :
    (reg.refresh now which).ids = reg.ids := by
  refine ids_map fun r _ => ?_
  split <;> rfl

theorem ids_release (reg : Registry) (lease : Lease) : (reg.release lease).ids = reg.ids :=
  ids_modify fun r _ => by split <;> rfl

theorem ids_grant (reg : Registry) (workerId : String) :
    (reg.grant workerId).1.ids = reg.ids := by
  unfold grant
  split
  · rfl
  · exact ids_modify fun _ _ => rfl

theorem ids_reportOutcome (reg : Registry) (workerId : String) (success : Bool)
    (now : Nat) : (reg.reportOutcome workerId success now).1.ids = reg.ids := by
  have hmodify (breaker : Breaker) :
      (reg.modify workerId fun r => { r with breaker }).ids = reg.ids := ids_modify fun _ _ => rfl
  unfold reportOutcome
  split
  · rfl
  · dsimp only
    split
    · rw [ids_emit, hmodify]
    · rw [ids_emit, hmodify]
    · exact hmodify _
    · exact hmodify _

-- ---------------------------------------------------------------------------
-- Changes
-- ---------------------------------------------------------------------------

inductive Use (reg : Registry) : Registry → Prop
  | refreshes (now : Nat) (which : Registration → Bool) : Use reg (reg.refresh now which)
  | reports (workerId : String) (success : Bool) (now : Nat) :
    Use reg (reg.reportOutcome workerId success now).1
  | grants (workerId : String) : Use reg (reg.grant workerId).1
  | releases (lease : Lease) : Use reg (reg.release lease)
  | announces (e : Event) : Use reg (reg.emit e)

abbrev Uses : Registry → Registry → Prop := Relation.ReflTransGen Use

/-- What has nothing to do with the calls to the workers: breakers are looked at, and something is
announced. -/
inductive Rest (reg : Registry) : Registry → Prop
  | refreshes (now : Nat) (which : Registration → Bool) : Rest reg (reg.refresh now which)
  | announces (e : Event) : Rest reg (reg.emit e)

abbrev Rests : Registry → Registry → Prop := Relation.ReflTransGen Rest

inductive Change (reg : Registry) : Registry → Prop
  | used {reg' : Registry} (h : Use reg reg') : Change reg reg'
  | registers (spec : WorkerSpec) (executor : Nat) : Change reg (reg.register spec executor)
  | deregisters (workerId : String) : Change reg (reg.deregister workerId).1

abbrev Changes : Registry → Registry → Prop := Relation.ReflTransGen Change

def Built (reg : Registry) : Prop := ∃ rules, Changes { rules } reg

variable {reg' : Registry}

theorem Rests.uses (h : Rests reg reg') : Uses reg reg' := by
  induction h with
  | refl => exact .refl
  | tail _ hr ih =>
    cases hr with
    | refreshes now which => exact ih.tail (.refreshes now which)
    | announces e => exact ih.tail (.announces e)

theorem Uses.changes (h : Uses reg reg') : Changes reg reg' := by
  induction h with
  | refl => exact .refl
  | tail _ hu ih => exact ih.tail (.used hu)

theorem Use.ids (h : Use reg reg') : reg'.ids = reg.ids := by
  cases h with
  | refreshes now which => exact ids_refresh reg now which
  | reports workerId success now => exact ids_reportOutcome reg workerId success now
  | grants workerId => exact ids_grant reg workerId
  | releases lease => exact ids_release reg lease
  | announces e => rfl

theorem Uses.ids (h : Uses reg reg') : reg'.ids = reg.ids := by
  induction h with
  | refl => rfl
  | tail _ hu ih => exact hu.ids.trans ih

theorem distinct_register (h : reg.Distinct) (spec : WorkerSpec) (executor : Nat) :
    (reg.register spec executor).Distinct := by
  unfold register Distinct
  split
  · have hids : (reg.modify spec.workerId fun r => { r with spec, executor }).ids = reg.ids :=
      ids_modify fun r hr => hr.symm
    rw [hids]
    exact h
  next hnew =>
    rw [← mem_ids_iff] at hnew
    simp only [ids, List.map_append, List.map_cons, List.map_nil]
    refine List.nodup_append.mpr ⟨h, List.nodup_singleton _, fun a ha b hb he => hnew ?_⟩
    rw [he, List.mem_singleton.mp hb] at ha
    exact ha

theorem distinct_deregister (h : reg.Distinct) (workerId : String) :
    (reg.deregister workerId).1.Distinct := by
  unfold deregister
  split
  · exact h
  · exact h.sublist (List.filter_sublist.map _)

theorem Change.distinct (hd : reg.Distinct) (h : Change reg reg') : reg'.Distinct := by
  cases h with
  | used h =>
    rw [Distinct, h.ids]
    exact hd
  | registers spec executor => exact distinct_register hd spec executor
  | deregisters workerId => exact distinct_deregister hd workerId

theorem Changes.distinct (hd : reg.Distinct) (h : Changes reg reg') : reg'.Distinct := by
  induction h with
  | refl => exact hd
  | tail _ hc ih => exact hc.distinct ih

theorem Built.distinct (h : reg.Built) : reg.Distinct := by
  obtain ⟨rules, hc⟩ := h
  have hempty : Distinct { rules } := List.nodup_nil
  exact Changes.distinct hempty hc

theorem Built.changes (h : reg.Built) (hc : Changes reg reg') : reg'.Built := by
  obtain ⟨rules, hb⟩ := h
  exact ⟨rules, Relation.ReflTransGen.trans hb hc⟩

-- ---------------------------------------------------------------------------
-- The workers that are chosen
-- ---------------------------------------------------------------------------

theorem selectFor_perm (reg : Registry) (capability : String) (now : Nat) :
    ∃ chosen : List Registration, (chosen.map (·.workerId)).Sublist reg.ids ∧
      ((reg.selectFor capability now).2.map (·.spec.workerId)).Perm
        (chosen.map (·.workerId)) := by
  refine ⟨(reg.refresh now (·.spec.serves capability)).workers.filter fun r =>
    r.spec.serves capability && r.isEligible, ?_, ?_⟩
  · rw [← ids_refresh reg now (·.spec.serves capability)]
    exact List.filter_sublist.map _
  · refine ((List.mergeSort_perm _ _).map _).trans ?_
    rw [List.map_map]
    exact List.Perm.refl _

theorem nodup_selectFor (h : reg.Distinct) (capability : String) (now : Nat) :
    ((reg.selectFor capability now).2.map (·.spec.workerId)).Nodup := by
  obtain ⟨chosen, hsub, hperm⟩ := reg.selectFor_perm capability now
  exact hperm.nodup_iff.mpr (h.sublist hsub)

theorem mem_ids_of_selectFor {worker : WorkerSnapshot}
    (h : worker ∈ (reg.selectFor capability now).2) : worker.spec.workerId ∈ reg.ids := by
  obtain ⟨chosen, hsub, hperm⟩ := reg.selectFor_perm capability now
  exact hsub.subset (hperm.mem_iff.mp (List.mem_map_of_mem h))

theorem keys_trustTable (reg : Registry) : Table.keys reg.trustTable = reg.ids := by
  simp [trustTable, Table.keys, ids, Function.comp_def]

end Crew.Registry

theorem Crew.TrustTable.mem_keys_merge {table latest : TrustTable} {workerId : String} :
    workerId ∈ Table.keys (table.merge latest) ↔
      workerId ∈ Table.keys latest ∨ workerId ∈ Table.keys table :=
  Table.mem_keys_insertAll

theorem Crew.TrustTable.get?_merge (table : TrustTable) {latest : TrustTable}
    (h : (Table.keys latest).Nodup) (workerId : String) :
    Table.get? (table.merge latest) workerId =
      (Table.get? latest workerId).or (Table.get? table workerId) :=
  Table.get?_insertAll table h workerId
