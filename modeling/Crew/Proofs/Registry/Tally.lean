import Crew.Proofs.Registry.Service

/-!
# What is recorded of a registry

A tally is a registry with the record of what was asked of it: which leases were taken and given
back, and which registrations were made under which numbers. As long as no lease is given back more
often than it was taken, the record explains the registry (`Tally.Kept`): loads count the leases of
the current registrations that are still out, and no number is given twice.

Leases that describe the same grant are equal, so the record counts them instead of telling them
apart.
-/

namespace Crew

namespace Registry

variable {reg : Registry} {workerId : String} {r : Registration} {lease : Lease}

-- ---------------------------------------------------------------------------
-- Single requests
-- ---------------------------------------------------------------------------

theorem register_of_known {spec : WorkerSpec} (h : (reg.find? spec.workerId).isSome)
    (executor : Nat) : reg.register spec executor =
      reg.modify spec.workerId fun r => { r with spec, executor } := by
  rw [register, if_pos h]

theorem register_of_unknown {spec : WorkerSpec} (h : reg.find? spec.workerId = none)
    (executor : Nat) : reg.register spec executor =
      { reg with
        workers := reg.workers ++ [{ spec, seq := reg.nextSeq, executor }]
        nextSeq := reg.nextSeq + 1 } := by
  rw [register, h]
  rfl

theorem find?_register_of_known {spec : WorkerSpec} (h : reg.find? spec.workerId = some r)
    (executor : Nat) (other : String) : (reg.register spec executor).find? other =
      if other = spec.workerId then some { r with spec, executor } else reg.find? other := by
  have hkeep (q : Registration) (hq : q.workerId = spec.workerId) :
      Registration.workerId { q with spec, executor } = q.workerId := hq.symm
  rw [register_of_known (by rw [h]; rfl), find?_modify hkeep]
  split
  next he => rw [he, h, Option.map_some]
  · rfl

theorem deregister_snd (reg : Registry) (workerId : String) :
    (reg.deregister workerId).2 = (reg.find? workerId).map (·.load) := by
  rw [deregister]
  cases reg.find? workerId <;> rfl

theorem release_of_gone (hd : reg.Distinct)
    (h : ∀ r, reg.find? lease.workerId = some r → r.seq ≠ lease.seq) : reg.release lease = reg := by
  have hsame : ∀ q ∈ reg.workers, (if q.workerId = lease.workerId then
      if q.seq = lease.seq then { q with load := q.load - 1 } else q else q) = q := by
    intro q hq
    split
    next hw => rw [if_neg (h q ((find?_eq_some hd).mpr ⟨hq, hw⟩))]
    · rfl
  rw [release, modify, List.map_congr_left hsame, List.map_id']

theorem release_of_current (h : reg.find? lease.workerId = some r) (hs : r.seq = lease.seq) :
    (reg.release lease).find? lease.workerId = some { r with load := r.load - 1 } := by
  have hkeep (q : Registration) (_ : q.workerId = lease.workerId) : Registration.workerId
      (if q.seq = lease.seq then { q with load := q.load - 1 } else q) = q.workerId := by
    split <;> rfl
  rw [release, find?_modify hkeep, if_pos rfl, h, Option.map_some, if_pos hs]

inductive Request where
  | register (spec : WorkerSpec) (executor : Nat)
  | deregister (workerId : String)
  | take (workerId : String)
  | giveBack (lease : Lease)
  | report (workerId : String) (success : Bool) (now : Nat)
  | select (capability : String) (now : Nat)

end Registry

open Registry (Request)

/-- `taken` and `returned` are the leases, `enrolled` the workers that were registered while they
were not, each with the number of the registration. -/
structure Tally where
  registry : Registry
  taken : List Lease := []
  returned : List Lease := []
  enrolled : List (String × Nat) := []

namespace Tally

def serve (t : Tally) : Request → Tally
  | .register spec executor =>
    { t with
      registry := t.registry.register spec executor
      enrolled := if (t.registry.find? spec.workerId).isSome then t.enrolled
        else t.enrolled ++ [(spec.workerId, t.registry.nextSeq)] }
  | .deregister workerId => { t with registry := (t.registry.deregister workerId).1 }
  | .take workerId =>
    { t with
      registry := (t.registry.grant workerId).1
      taken := t.taken ++ (t.registry.grant workerId).2.toList }
  | .giveBack lease =>
    { t with registry := t.registry.release lease, returned := t.returned ++ [lease] }
  | .report workerId success now =>
    { t with registry := (t.registry.reportOutcome workerId success now).1 }
  | .select capability now => { t with registry := (t.registry.selectFor capability now).1 }

def ofRequests (rules : BreakerRules) (requests : List Request) : Tally :=
  requests.foldl serve { registry := { rules } }

def isOut (t : Tally) (lease : Lease) : Bool := t.returned.count lease < t.taken.count lease

def allows (t : Tally) : Request → Bool
  | .giveBack lease => t.isOut lease
  | _ => true

def allowsAll (t : Tally) : List Request → Bool
  | [] => true
  | request :: rest => t.allows request && (t.serve request).allowsAll rest

structure Kept (t : Tally) : Prop where
  loaded : ∃ out : List Lease, t.registry.Loaded out ∧ (out ++ t.returned).Perm t.taken
  ascending : (t.enrolled.map (·.2)).Pairwise (· < ·)
  below : ∀ x ∈ t.enrolled, x.2 < t.registry.nextSeq
  known : ∀ r ∈ t.registry.workers, (r.workerId, r.seq) ∈ t.enrolled
  granted : ∀ lease ∈ t.taken, (lease.workerId, lease.seq) ∈ t.enrolled

variable {t : Tally} {lease : Lease} {r : Registration} {workerId : String}

theorem kept_empty (rules : BreakerRules) : Kept { registry := { rules } } :=
  ⟨⟨[], Registry.loaded_empty rules, .nil⟩, .nil, List.forall_mem_nil _, List.forall_mem_nil _,
    List.forall_mem_nil _⟩

-- ---------------------------------------------------------------------------
-- What a request keeps
-- ---------------------------------------------------------------------------

theorem Kept.uses {reg : Registry} {taken returned : List Lease} (h : t.Kept)
    (hu : Registry.Uses t.registry reg)
    (hl : ∃ out : List Lease, reg.Loaded out ∧ (out ++ returned).Perm taken)
    (hg : ∀ lease ∈ taken, (lease.workerId, lease.seq) ∈ t.enrolled) :
    Kept { t with registry := reg, taken, returned } := by
  refine ⟨hl, h.ascending, fun x hx => ?_, fun r hr => ?_, hg⟩
  · rw [hu.nextSeq]
    exact h.below x hx
  · have hrow := List.mem_map_of_mem (f := fun r => (r.workerId, r.seq)) hr
    rw [hu.map_workers fun _ _ _ => rfl] at hrow
    obtain ⟨q, hq, he⟩ := List.mem_map.mp hrow
    exact he ▸ h.known q hq

theorem Kept.register (h : t.Kept) (spec : WorkerSpec) (executor : Nat) :
    (t.serve (.register spec executor)).Kept := by
  obtain ⟨out, hloaded, hperm⟩ := h.loaded
  have hl := hloaded.register spec executor
  cases hf : t.registry.find? spec.workerId with
  | some r =>
    have hknown : (t.registry.find? spec.workerId).isSome := by rw [hf]; rfl
    rw [serve, if_pos hknown]
    refine ⟨⟨out, hl, hperm⟩, h.ascending, ?_, ?_, h.granted⟩
    · rw [Registry.register_of_known hknown]
      exact h.below
    · rw [Registry.register_of_known hknown]
      intro q hq
      obtain ⟨p, hp, rfl⟩ := List.mem_map.mp hq
      have hrow := h.known p hp
      split
      next he =>
        rw [he] at hrow
        exact hrow
      · exact hrow
  | none =>
    rw [serve, hf, if_neg (by simp)]
    rw [Registry.register_of_unknown hf] at hl ⊢
    refine ⟨⟨out, hl, hperm⟩, ?_, ?_, ?_, ?_⟩
    · rw [List.map_append, List.pairwise_append]
      refine ⟨h.ascending, List.pairwise_singleton _ _, fun a ha b hb => ?_⟩
      obtain ⟨x, hx, rfl⟩ := List.mem_map.mp ha
      obtain rfl := List.mem_singleton.mp hb
      exact h.below x hx
    · intro x hx
      rcases List.mem_append.mp hx with hx | hx
      · exact Nat.lt_succ_of_lt (h.below x hx)
      · obtain rfl := List.mem_singleton.mp hx
        exact Nat.lt_succ_self _
    · intro q hq
      rcases List.mem_append.mp hq with hq | hq
      · exact List.mem_append_left _ (h.known q hq)
      · obtain rfl := List.mem_singleton.mp hq
        exact List.mem_append_right _ (List.mem_singleton_self _)
    · exact fun lease hl => List.mem_append_left _ (h.granted lease hl)

theorem Kept.deregister (h : t.Kept) (workerId : String) :
    (t.serve (.deregister workerId)).Kept := by
  obtain ⟨out, hloaded, hperm⟩ := h.loaded
  have hl := hloaded.deregister workerId
  rw [serve]
  unfold Registry.deregister at hl ⊢
  split at hl
  · exact h
  · exact ⟨⟨out, hl, hperm⟩, h.ascending, h.below,
      fun r hr => h.known r (List.mem_of_mem_filter hr), h.granted⟩

theorem Kept.take (h : t.Kept) (workerId : String) : (t.serve (.take workerId)).Kept := by
  obtain ⟨out, hloaded, hperm⟩ := h.loaded
  have hu : Registry.Uses t.registry (t.registry.grant workerId).1 := .single (.grants workerId)
  cases hg : (t.registry.grant workerId).2 with
  | none =>
    have hsame : (t.registry.grant workerId).1 = t.registry := by
      unfold Registry.grant at hg ⊢
      split at hg
      · rfl
      · cases hg
    rw [serve, hg, hsame, Option.toList_none, List.append_nil]
    exact h
  | some lease =>
    obtain ⟨r, hr, rfl⟩ := Registry.grant_eq_some.mp hg
    obtain ⟨hm, rfl⟩ := (Registry.find?_eq_some hloaded.distinct).mp hr
    rw [serve, hg, Option.toList_some]
    refine h.uses hu ⟨_, hloaded.grant hg, ?_⟩ fun other ho => ?_
    · exact (hperm.cons _).trans (List.perm_append_singleton _ _).symm
    · rcases List.mem_append.mp ho with ho | ho
      · exact h.granted other ho
      · obtain rfl := List.mem_singleton.mp ho
        exact h.known r hm

theorem mem_of_isOut {out : List Lease} (hperm : (out ++ t.returned).Perm t.taken)
    (ho : t.isOut lease) : lease ∈ out := by
  have hlt : t.returned.count lease < t.taken.count lease := by simpa [isOut] using ho
  rw [← hperm.count_eq, List.count_append] at hlt
  exact List.count_pos_iff.mp (by omega)

theorem Kept.giveBack (h : t.Kept) (ho : t.isOut lease) : (t.serve (.giveBack lease)).Kept := by
  obtain ⟨out, hloaded, hperm⟩ := h.loaded
  obtain ⟨before, after, rfl⟩ := List.append_of_mem (mem_of_isOut hperm ho)
  rw [serve]
  refine h.uses (.single (.releases lease))
    ⟨before ++ after, (hloaded.perm List.perm_middle).release, .trans ?_ hperm⟩ h.granted
  rw [← List.append_assoc]
  exact List.perm_append_comm.trans (List.perm_middle.symm.append_right _)

theorem Kept.serve {request : Request} (h : t.Kept) (ha : t.allows request) :
    (t.serve request).Kept := by
  obtain ⟨out, hloaded, hperm⟩ := h.loaded
  cases request with
  | register spec executor => exact h.register spec executor
  | deregister workerId => exact h.deregister workerId
  | take workerId => exact h.take workerId
  | giveBack lease => exact h.giveBack ha
  | report workerId success now =>
    exact h.uses (.single (.reports workerId success now))
      ⟨out, hloaded.reportOutcome _ _ _, hperm⟩ h.granted
  | select capability now =>
    exact h.uses (.single (.refreshes now _)) ⟨out, hloaded.refresh _ _, hperm⟩ h.granted

theorem Kept.serveAll {requests : List Request} (h : t.Kept) (ha : t.allowsAll requests) :
    (requests.foldl Tally.serve t).Kept := by
  induction requests generalizing t with
  | nil => exact h
  | cons request rest ih =>
    rw [allowsAll, Bool.and_eq_true] at ha
    exact ih (h.serve ha.1) ha.2

theorem kept_ofRequests {rules : BreakerRules} {requests : List Request}
    (ha : allowsAll { registry := { rules } } requests) : (ofRequests rules requests).Kept :=
  (kept_empty rules).serveAll ha

-- ---------------------------------------------------------------------------
-- What the record explains
-- ---------------------------------------------------------------------------

theorem Kept.load (h : t.Kept) (hr : r ∈ t.registry.workers) :
    r.load + t.returned.countP r.granted = t.taken.countP r.granted := by
  obtain ⟨out, hloaded, hperm⟩ := h.loaded
  rw [hloaded.load r hr, ← List.countP_append, hperm.countP_eq]

theorem Kept.distinct (h : t.Kept) : t.registry.Distinct := by
  obtain ⟨out, hloaded, -⟩ := h.loaded
  exact hloaded.distinct

theorem Kept.load_pos (h : t.Kept) (ho : t.isOut lease)
    (hr : t.registry.find? lease.workerId = some r) (hs : r.seq = lease.seq) : 0 < r.load := by
  obtain ⟨out, hloaded, hperm⟩ := h.loaded
  obtain ⟨hm, hw⟩ := (Registry.find?_eq_some hloaded.distinct).mp hr
  rw [hloaded.load r hm, List.countP_pos_iff]
  exact ⟨lease, mem_of_isOut hperm ho, by simp [Registration.granted, hw, hs]⟩

end Tally

end Crew
