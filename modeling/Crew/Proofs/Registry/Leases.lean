import Crew.Call
import Crew.Proofs.Graph.Distinct
import Crew.Proofs.Registry.Changes

/-!
# Leases

The load of a worker is the number of leases that were granted for its registration and not given
back (`Registry.Loaded`). Calls that are made one after the other find the registry as the calls
before them left it (`Registry.moments`); a worker that none of them went to is as it was
(`find?_moments`).
-/

namespace Crew

def Registration.granted (r : Registration) (lease : Lease) : Bool :=
  lease.workerId = r.workerId && lease.seq = r.seq

namespace Registry

variable {reg reg' : Registry} {workerId other : String} {r : Registration} {lease : Lease}
  {leases rest : List Lease} {f : Registration → Registration} {now : Nat}

-- ---------------------------------------------------------------------------
-- Single workers
-- ---------------------------------------------------------------------------

theorem find?_eq_some (hd : reg.Distinct) :
    reg.find? workerId = some r ↔ r ∈ reg.workers ∧ r.workerId = workerId := by
  constructor
  · exact fun h => ⟨List.mem_of_find?_eq_some h, by simpa using List.find?_some h⟩
  · rintro ⟨hm, rfl⟩
    exact find?_of_nodup_map hd hm

theorem find?_map (hf : ∀ r ∈ reg.workers, (f r).workerId = r.workerId) (workerId : String) :
    find? { reg with workers := reg.workers.map f } workerId = (reg.find? workerId).map f := by
  have h (workers : List Registration) (hf : ∀ r ∈ workers, (f r).workerId = r.workerId) :
      (workers.map f).find? (·.workerId = workerId) =
        (workers.find? (·.workerId = workerId)).map f := by
    induction workers with
    | nil => rfl
    | cons r rest ih =>
      obtain ⟨hr, hrest⟩ := List.forall_mem_cons.mp hf
      rw [List.map_cons, List.find?_cons, List.find?_cons, hr, ih hrest]
      split <;> rfl
  exact h reg.workers hf

theorem find?_modify (hf : ∀ r, r.workerId = workerId → (f r).workerId = r.workerId)
    (other : String) : (reg.modify workerId f).find? other =
      if other = workerId then (reg.find? other).map f else reg.find? other := by
  have hkeep (r : Registration) :
      (if r.workerId = workerId then f r else r).workerId = r.workerId := by
    split
    next h => exact hf r h
    · rfl
  rw [modify, find?_map fun r _ => hkeep r]
  cases h : reg.find? other with
  | none => simp
  | some r =>
    have hr : r.workerId = other := by simpa using List.find?_some h
    by_cases he : other = workerId
    · simp [hr, he]
    · simp [hr, he]

theorem find?_emit (reg : Registry) (e : Event) : (reg.emit e).find? = reg.find? := rfl

theorem find?_refresh (reg : Registry) (now : Nat) (which : Registration → Bool) :
    (reg.refresh now which).find? workerId = (reg.find? workerId).map fun r =>
      if which r then { r with breaker := (reg.rules.refresh r.breaker now).1 } else r :=
  find?_map (fun r _ => by split <;> rfl) workerId

theorem grant_eq_some : (reg.grant workerId).2 = some lease ↔
    ∃ r, reg.find? workerId = some r ∧ lease = ⟨workerId, r.seq, r.executor⟩ := by
  unfold grant
  cases reg.find? workerId with
  | none => simp
  | some r => simp [eq_comm]

theorem grant_of_find? (h : reg.find? workerId = some r) : reg.grant workerId =
    (reg.modify workerId fun r => { r with load := r.load + 1 },
      some ⟨workerId, r.seq, r.executor⟩) := by
  rw [grant, h]

theorem find?_grant (reg : Registry) (workerId other : String) :
    (reg.grant workerId).1.find? other =
      if other = workerId then (reg.find? other).map fun r => { r with load := r.load + 1 }
      else reg.find? other := by
  cases h : reg.find? workerId with
  | none =>
    have hg : reg.grant workerId = (reg, none) := by rw [grant, h]
    rw [hg]
    split
    next he => rw [he, h, Option.map_none]
    · rfl
  | some r =>
    rw [grant_of_find? h]
    exact find?_modify (f := fun r => { r with load := r.load + 1 }) (fun _ _ => rfl) other

-- ---------------------------------------------------------------------------
-- Calls one after the other
-- ---------------------------------------------------------------------------

/-- Lend a worker for a call, and announce the call. -/
def lend (runId : String) (reg : Registry) (call : Call) : Registry :=
  (reg.grant call.lease.workerId).1.emit (.taskDispatched runId call.assignment.taskId
    call.lease.workerId call.assignment.attempt)

/-- Calls that are made one after the other, each with the registry as it finds it. -/
def moments (runId : String) : Registry → List Call → List (Registry × Call)
  | _, [] => []
  | reg, call :: rest => (reg, call) :: moments runId (reg.lend runId call) rest

theorem map_snd_moments (runId : String) (reg : Registry) (calls : List Call) :
    (moments runId reg calls).map (·.2) = calls := by
  induction calls generalizing reg with
  | nil => rfl
  | cons call rest ih => rw [moments, List.map_cons, ih]

theorem mem_of_mem_moments {runId : String} {calls : List Call} {x : Registry × Call}
    (hx : x ∈ moments runId reg calls) : x.2 ∈ calls := by
  have hcall := List.mem_map_of_mem (f := Prod.snd) hx
  rwa [map_snd_moments] at hcall

theorem uses_lend (runId : String) (reg : Registry) (call : Call) :
    Uses reg (reg.lend runId call) :=
  .head (.grants _) (.single (.announces _))

theorem uses_lends (runId : String) (reg : Registry) (calls : List Call) :
    Uses reg (calls.foldl (lend runId) reg) := by
  induction calls generalizing reg with
  | nil => exact .refl
  | cons call rest ih => exact (uses_lend runId reg call).trans (ih _)

theorem uses_moments {runId : String} {calls : List Call} {x : Registry × Call}
    (hx : x ∈ moments runId reg calls) :
    Uses reg x.1 ∧ Uses (x.1.lend runId x.2) (calls.foldl (lend runId) reg) := by
  induction calls generalizing reg with
  | nil => cases hx
  | cons call rest ih =>
    rcases List.mem_cons.mp hx with rfl | hx
    · exact ⟨.refl, uses_lends runId _ rest⟩
    · obtain ⟨hbefore, hafter⟩ := ih hx
      exact ⟨(uses_lend runId reg call).trans hbefore, hafter⟩

theorem find?_lend_ne {call : Call} (runId : String) (reg : Registry)
    (hne : workerId ≠ call.lease.workerId) :
    (reg.lend runId call).find? workerId = reg.find? workerId := by
  rw [lend, find?_emit, find?_grant, if_neg hne]

/-- Each of several calls to distinct workers finds its worker as it was before all of them. -/
theorem find?_moments {runId : String} {calls : List Call} {x : Registry × Call}
    (hn : (calls.map (·.lease.workerId)).Nodup) (hx : x ∈ moments runId reg calls) :
    x.1.find? x.2.lease.workerId = reg.find? x.2.lease.workerId := by
  induction calls generalizing reg with
  | nil => cases hx
  | cons call rest ih =>
    rw [List.map_cons, List.nodup_cons] at hn
    rcases List.mem_cons.mp hx with rfl | hx
    · rfl
    · rw [ih hn.2 hx]
      exact find?_lend_ne runId reg fun he =>
        hn.1 (he ▸ List.mem_map_of_mem (mem_of_mem_moments hx))

-- ---------------------------------------------------------------------------
-- What others do
-- ---------------------------------------------------------------------------

/-- What may be done to a registry by hand, leases aside. -/
inductive Care (reg : Registry) : Registry → Prop
  | rests {reg' : Registry} (h : Rest reg reg') : Care reg reg'
  | registers (spec : WorkerSpec) (executor : Nat) : Care reg (reg.register spec executor)
  | deregisters (workerId : String) : Care reg (reg.deregister workerId).1

-- ---------------------------------------------------------------------------
-- Loads
-- ---------------------------------------------------------------------------

/-- Loads count the given leases, and numbers of registrations are never given again. -/
structure Loaded (reg : Registry) (leases : List Lease) : Prop where
  distinct : reg.Distinct
  numbered : ∀ r ∈ reg.workers, r.seq < reg.nextSeq
  earlier : ∀ lease ∈ leases, lease.seq < reg.nextSeq
  load : ∀ r ∈ reg.workers, r.load = leases.countP r.granted

theorem loaded_empty (rules : BreakerRules) : Loaded { rules } [] :=
  ⟨List.nodup_nil, List.forall_mem_nil _, List.forall_mem_nil _, List.forall_mem_nil _⟩

theorem Loaded.perm (h : reg.Loaded leases) (hp : leases.Perm rest) : reg.Loaded rest :=
  ⟨h.distinct, h.numbered, fun lease hl => h.earlier lease (hp.mem_iff.mpr hl),
    fun r hr => by rw [h.load r hr, hp.countP_eq]⟩

theorem Loaded.map (h : reg.Loaded leases)
    (hf : ∀ r ∈ reg.workers, (f r).workerId = r.workerId ∧ (f r).seq = r.seq)
    (he : ∀ lease ∈ rest, lease.seq < reg.nextSeq)
    (hl : ∀ r ∈ reg.workers, r.load = leases.countP r.granted →
      (f r).load = rest.countP r.granted) :
    Loaded { reg with workers := reg.workers.map f } rest := by
  refine ⟨?_, fun r hr => ?_, he, fun r hr => ?_⟩
  · rw [Distinct, ids_map fun r hr => (hf r hr).1]
    exact h.distinct
  · obtain ⟨q, hq, rfl⟩ := List.mem_map.mp hr
    rw [(hf q hq).2]
    exact h.numbered q hq
  · obtain ⟨q, hq, rfl⟩ := List.mem_map.mp hr
    rw [hl q hq (h.load q hq)]
    refine congrArg rest.countP (funext fun lease => ?_)
    rw [Registration.granted, Registration.granted, (hf q hq).1, (hf q hq).2]

theorem Loaded.emit (h : reg.Loaded leases) (e : Event) : (reg.emit e).Loaded leases :=
  ⟨h.distinct, h.numbered, h.earlier, h.load⟩

theorem Loaded.refresh (h : reg.Loaded leases) (now : Nat) (which : Registration → Bool) :
    (reg.refresh now which).Loaded leases :=
  h.map (fun r _ => by split <;> exact ⟨rfl, rfl⟩) h.earlier
    (fun r _ hl => by split <;> exact hl)

theorem Loaded.rests (h : reg.Loaded leases) (hr : Rests reg reg') : reg'.Loaded leases := by
  induction hr with
  | refl => exact h
  | tail _ hr ih =>
    cases hr with
    | refreshes now which => exact ih.refresh now which
    | announces e => exact ih.emit e

theorem Loaded.reportOutcome (h : reg.Loaded leases) (workerId : String) (success : Bool)
    (now : Nat) : (reg.reportOutcome workerId success now).1.Loaded leases := by
  have hmodify (breaker : Breaker) :
      (reg.modify workerId fun r => { r with breaker }).Loaded leases :=
    h.map (fun r _ => by split <;> exact ⟨rfl, rfl⟩) h.earlier
      (fun r _ hl => by split <;> exact hl)
  unfold Registry.reportOutcome
  split
  · exact h
  · dsimp only
    split
    · exact (hmodify _).emit _
    · exact (hmodify _).emit _
    · exact hmodify _
    · exact hmodify _

theorem Loaded.grant (h : reg.Loaded leases) (hg : (reg.grant workerId).2 = some lease) :
    (reg.grant workerId).1.Loaded (lease :: leases) := by
  obtain ⟨r, hr, rfl⟩ := grant_eq_some.mp hg
  obtain ⟨hm, rfl⟩ := (find?_eq_some h.distinct).mp hr
  rw [grant_of_find? hr]
  refine h.map (fun q _ => by split <;> exact ⟨rfl, rfl⟩)
    (List.forall_mem_cons.mpr ⟨h.numbered r hm, h.earlier⟩) fun q hq hl => ?_
  rw [List.countP_cons]
  split
  next he =>
    obtain rfl : q = r := List.inj_on_of_nodup_map h.distinct hq hm he
    simp [hl, Registration.granted]
  next he => simp [hl, Registration.granted, Ne.symm he]

theorem Loaded.lend {call : Call} {runId : String} (h : reg.Loaded leases)
    (hg : (reg.grant call.lease.workerId).2 = some call.lease) :
    (reg.lend runId call).Loaded (call.lease :: leases) :=
  (h.grant hg).emit _

theorem Loaded.lends {calls : List Call} (h : reg.Loaded leases) (runId : String)
    (hn : (calls.map (·.lease.workerId)).Nodup)
    (hg : ∀ call ∈ calls, (reg.grant call.lease.workerId).2 = some call.lease) :
    (calls.foldl (Registry.lend runId) reg).Loaded (calls.map (·.lease) ++ leases) := by
  induction calls generalizing reg leases with
  | nil => exact h
  | cons call others ih =>
    rw [List.map_cons, List.nodup_cons] at hn
    obtain ⟨hcall, hothers⟩ := List.forall_mem_cons.mp hg
    refine (ih (h.lend hcall) hn.2 fun other ho => ?_).perm List.perm_middle
    obtain ⟨r, hr, hlease⟩ := grant_eq_some.mp (hothers other ho)
    refine grant_eq_some.mpr ⟨r, ?_, hlease⟩
    rw [find?_lend_ne _ _ fun he => hn.1 (he ▸ List.mem_map_of_mem ho), hr]

theorem Loaded.release (h : reg.Loaded (lease :: rest)) : (reg.release lease).Loaded rest := by
  refine h.map (fun q _ => ?_) (fun other ho => h.earlier other (List.mem_cons_of_mem _ ho))
    fun q hq hl => ?_
  · dsimp only
    split
    · split <;> exact ⟨rfl, rfl⟩
    · exact ⟨rfl, rfl⟩
  · rw [List.countP_cons] at hl
    by_cases hw : q.workerId = lease.workerId
    · by_cases hs : q.seq = lease.seq
      · simp [Registration.granted, hw, hs] at hl
        simp [hw, hs, hl]
      · simp [Registration.granted, hw, Ne.symm hs] at hl
        simp [hw, hs, hl]
    · simp [Registration.granted, Ne.symm hw] at hl
      simp [hw, hl]

theorem Loaded.releases {calls : List Call} (h : reg.Loaded (calls.map (·.lease) ++ leases)) :
    (calls.foldl (fun reg call => reg.release call.lease) reg).Loaded leases := by
  induction calls generalizing reg with
  | nil => exact h
  | cons call others ih => exact ih h.release

theorem Loaded.register (h : reg.Loaded leases) (spec : WorkerSpec) (executor : Nat) :
    (reg.register spec executor).Loaded leases := by
  unfold Registry.register
  split
  · refine h.map (fun q _ => ?_) h.earlier fun q _ hl => by split <;> exact hl
    split
    next he => exact ⟨he.symm, rfl⟩
    · exact ⟨rfl, rfl⟩
  next hnew =>
    have hdistinct := distinct_register h.distinct spec executor
    rw [Registry.register, if_neg hnew] at hdistinct
    refine ⟨hdistinct, fun r hr => ?_, fun lease hl => Nat.lt_succ_of_lt (h.earlier lease hl),
      fun r hr => ?_⟩
    · rcases List.mem_append.mp hr with hr | hr
      · exact Nat.lt_succ_of_lt (h.numbered r hr)
      · obtain rfl := List.mem_singleton.mp hr
        exact Nat.lt_succ_self _
    · rcases List.mem_append.mp hr with hr | hr
      · exact h.load r hr
      · -- the number of the new registration is above those of all leases
        obtain rfl := List.mem_singleton.mp hr
        refine (List.countP_eq_zero.mpr fun lease hl => ?_).symm
        have hlt := h.earlier lease hl
        simp [Registration.granted, Nat.ne_of_lt hlt]

theorem Loaded.deregister (h : reg.Loaded leases) (workerId : String) :
    (reg.deregister workerId).1.Loaded leases := by
  have hdistinct := distinct_deregister h.distinct workerId
  unfold Registry.deregister at hdistinct ⊢
  split at hdistinct
  · exact h
  · exact ⟨hdistinct, fun r hr => h.numbered r (List.mem_of_mem_filter hr), h.earlier,
      fun r hr => h.load r (List.mem_of_mem_filter hr)⟩

theorem Loaded.care (h : reg.Loaded leases) (hc : Care reg reg') : reg'.Loaded leases := by
  cases hc with
  | rests hr => exact h.rests (.single hr)
  | registers spec executor => exact h.register spec executor
  | deregisters workerId => exact h.deregister workerId

theorem Loaded.not_granted (h : reg.Loaded leases) (hr : reg.find? workerId = some r)
    (hl : r.load = 0) (hm : lease ∈ leases) : r.granted lease = false := by
  have hcount := h.load r ((find?_eq_some h.distinct).mp hr).1
  rw [hl] at hcount
  simpa using List.countP_eq_zero.mp hcount.symm lease hm

end Registry

end Crew
