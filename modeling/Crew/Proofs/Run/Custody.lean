import Crew.Proofs.Registry.Service
import Crew.Proofs.Run.Attempts

/-!
# Runs that have a registry to themselves

If a run is alone on its registry, the load of the workers is that of its calls, none of which is
ever revoked (`Run.Alone`). What a run does itself keeps it that way: every call of a pass is made
under a lease of a worker that is registered, and no worker leaves (`Passage.alone`,
`Sound.alone_complete`, `alone_cancel`).
-/

namespace Crew

open Registry (Rests Uses)

theorem Registry.isRevoked_of_grant {reg : Registry} {workerId : String} {lease : Lease}
    (h : (reg.grant workerId).2 = some lease) : reg.isRevoked lease = false := by
  obtain ⟨r, hr, rfl⟩ := grant_eq_some.mp h
  simp [isRevoked, hr]

namespace Run

variable {run run' : Run} {reg reg' : Registry} {task : Task} {notes : List Note}
  {now attempt bound : Nat} {leases : List Lease}

/-- All load on the registry is that of the calls of the run, which are neither revoked nor
overdue. -/
structure Alone (now : Nat) (run : Run) (reg : Registry) : Prop where
  loaded : reg.Loaded (run.calls.map (·.lease))
  held : ∀ call ∈ run.calls, reg.isRevoked call.lease = false
  due : ∀ call ∈ run.calls, now ≤ call.deadline

/-- Calls may end, if what is done besides to the loads could as well be done beside other leases.
-/
theorem Alone.fewer (h : run.Alone now reg) (hu : Uses reg reg')
    (hl : ∀ others, reg.Loaded (run.calls.map (·.lease) ++ others) →
      reg'.Loaded (run'.calls.map (·.lease) ++ others))
    (hc : ∀ call ∈ run'.calls, call ∈ run.calls) : run'.Alone now reg' := by
  have hleft := hl []
  rw [List.append_nil, List.append_nil] at hleft
  exact ⟨hleft h.loaded, fun call hm => hu.isRevoked ▸ h.held call (hc call hm),
    fun call hm => h.due call (hc call hm)⟩

theorem Alone.sends (h : run.Alone now reg) (hs : run.Sending reg task attempt leases) :
    (leases.foldl (place task attempt now) (run.opened task)).Alone now
      ((issued task attempt now leases run.session.lastAssignment).foldl
        (Registry.lend run.session.runId) reg) := by
  let calls := issued task attempt now leases run.session.lastAssignment
  have hcalls : (leases.foldl (place task attempt now) (run.opened task)).calls =
      run.calls ++ calls := foldl_place_calls leases (run.opened task)
  have hgrants : ∀ call ∈ calls, (reg.grant call.lease.workerId).2 = some call.lease :=
    fun _ hc => hs.granted hc
  have hloaded := h.loaded.lends run.session.runId (hs.nodup_workers now _) hgrants
  have hrevoked := (Registry.uses_lends run.session.runId reg calls).isRevoked
  refine ⟨?_, fun call hm => ?_, fun call hm => ?_⟩
  · rw [hcalls, List.map_append]
    exact hloaded.perm List.perm_append_comm
  · rw [hrevoked]
    rw [hcalls] at hm
    rcases List.mem_append.mp hm with hm | hm
    · exact h.held call hm
    · exact Registry.isRevoked_of_grant (hgrants call hm)
  · rw [hcalls] at hm
    rcases List.mem_append.mp hm with hm | hm
    · exact h.due call hm
    · rw [Call.deadline, (mem_issued hm).2.2.2]
      exact Nat.le_add_right _ _

theorem Passage.alone (h : Passage now run reg notes run' reg') (ha : run.Alone now reg) :
    run'.Alone now reg' := by
  induction h with
  | start => exact ha
  | idles _ _ hc hq ih =>
    exact ih.fewer hq.uses (fun _ hl => hc ▸ hl.rests hq) fun call hm => hc ▸ hm
  | sends _ _ _ hs ih => exact ih.sends hs

theorem Passage.cooled (h : Passage now run reg notes run' reg') (hc : reg.Cooled bound) :
    reg'.Cooled bound := by
  induction h with
  | start => exact hc
  | idles _ _ _ hq ih => exact ih.rests hq
  | sends _ _ _ _ ih => exact ih.lends

theorem mem_calls_complete {n : Nat} {cancelled : Bool} {outcome : Outcome} {call : Call}
    (h : call ∈ (run.complete reg n cancelled outcome now).1.calls) : call ∈ run.calls := by
  rcases complete_return run reg n cancelled outcome now with heq | ⟨_, -, -, hreturn⟩
  · rwa [heq] at h
  · rw [hreturn.calls] at h
    exact List.mem_of_mem_filter h

theorem Sound.alone_complete (hs : run.Sound) (h : run.Alone now reg) (n : Nat)
    (cancelled : Bool) (outcome : Outcome) : (run.complete reg n cancelled outcome now).1.Alone now
      (run.complete reg n cancelled outcome now).2 :=
  h.fewer (run.uses_complete reg n cancelled outcome now)
    (fun _ hl => hs.loaded_complete hl n cancelled outcome now) fun _ => mem_calls_complete

theorem alone_cancel (h : run.Alone now reg) :
    (run.cancel reg).1.Alone now (run.cancel reg).2 := by
  refine h.fewer (run.uses_cancel reg) (fun _ hl => ?_) fun call hm => ?_
  · have hnone : (run.cancel reg).1.calls = [] := by
      rw [cancel_eq]
    rw [hnone]
    exact loaded_cancel hl
  · rw [cancel_eq] at hm
    cases hm

end Run

end Crew
