import Crew.Proofs.Registry.Tally
import Crew.Proofs.Run.Cancellation

/-!
# Loads across registrations

Whatever is asked of a registry, the load of a worker is the number of leases that were taken under
its current registration and not given back; leases of earlier registrations of the same id count
for nothing (`Tally.loads_balance`). A run that has ended holds no lease any more, so that nothing
is left of the load of a worker once every run that called it has ended, but for the leases that
were taken by hand.
-/

namespace Crew

open Registry (Request)
open Concourse (History Begun)

namespace Concourse

variable {k : Concourse} {log : List (Nat × Note)} {i : Nat} {m : Member} {r : Registration}

theorem History.calls_of_ended (h : History log k) (hm : k.members[i]? = some m)
    (hp : m.phase = .ended) : m.run.calls = [] := by
  obtain ⟨o, ho⟩ := h.reaches hm
  exact ho.sound.run.calls_of_over (ho.sound.ended hp)

theorem History.load_of_ended (h : History log k) (hr : r ∈ k.registry.workers)
    (he : ∀ i x, Begun log i x → x.2.lease.workerId = r.workerId →
      ∃ m, k.members[i]? = some m ∧ m.phase = .ended) : r.load = k.held.countP r.granted := by
  rw [h.orderly.loaded.load r hr, leases, List.countP_append, Nat.add_eq_left,
    List.countP_eq_zero]
  intro lease hl hgranted
  obtain ⟨m, hm, hlease⟩ := List.mem_flatMap.mp hl
  obtain ⟨call, hc, rfl⟩ := List.mem_map.mp hlease
  obtain ⟨i, hi⟩ := List.getElem?_of_mem hm
  obtain ⟨x, hx, rfl⟩ := h.orderly.noted i call ⟨m, hi, hc⟩
  have hworker : x.2.lease.workerId = r.workerId := by
    simp only [Registration.granted, Bool.and_eq_true, decide_eq_true_eq] at hgranted
    exact hgranted.1
  obtain ⟨m', hm', hended⟩ := he i x hx hworker
  obtain rfl : m = m' := Option.some.inj (hi.symm.trans hm')
  rw [h.calls_of_ended hi hended] at hc
  cases hc

end Concourse

namespace Tally

/-- For all that may be asked of a registry, if only leases that are out are given back: the load
of a worker counts the leases of its current registration that are out, so that to give one back
always finds a load, and to give back one of another registration changes nothing; who removes a
worker learns of that load; no number is given to two registrations; and to register a worker anew
changes its description and executor only. In a concourse, the load of a worker is gone once every
run that called it has ended, but for what is held by hand. -/
theorem loads_balance {rules : BreakerRules} {requests : List Request}
    (ha : allowsAll { registry := { rules } } requests) :
    let t := ofRequests rules requests
    (∀ r ∈ t.registry.workers,
      r.load + t.returned.countP r.granted = t.taken.countP r.granted) ∧
    (∀ lease,
      ((∀ r, t.registry.find? lease.workerId = some r → r.seq ≠ lease.seq) →
        t.registry.release lease = t.registry) ∧
      ∀ r, t.registry.find? lease.workerId = some r → r.seq = lease.seq → t.isOut lease →
        0 < r.load ∧ (t.registry.release lease).find? lease.workerId =
          some { r with load := r.load - 1 }) ∧
    (∀ workerId, (t.registry.deregister workerId).2 = (t.registry.find? workerId).map fun r =>
      t.taken.countP r.granted - t.returned.countP r.granted) ∧
    ((t.enrolled.map (·.2)).Nodup ∧
      (∀ r ∈ t.registry.workers, (r.workerId, r.seq) ∈ t.enrolled) ∧
      ∀ lease ∈ t.taken, (lease.workerId, lease.seq) ∈ t.enrolled) ∧
    (∀ spec executor r, t.registry.find? spec.workerId = some r → ∀ other,
      (t.registry.register spec executor).find? other =
        if other = spec.workerId then some { r with spec, executor }
        else t.registry.find? other) ∧
    ∀ log k, History log k → ∀ r ∈ k.registry.workers,
      (∀ i x, Begun log i x → x.2.lease.workerId = r.workerId →
        ∃ m, k.members[i]? = some m ∧ m.phase = .ended) →
      r.load = k.held.countP r.granted := by
  intro t
  have hkept : t.Kept := kept_ofRequests ha
  refine ⟨fun r hr => hkept.load hr, fun lease => ⟨Registry.release_of_gone hkept.distinct,
    fun r hr hs ho => ⟨hkept.load_pos ho hr hs, Registry.release_of_current hr hs⟩⟩,
    fun workerId => ?_, ⟨hkept.ascending.imp Nat.ne_of_lt, hkept.known, hkept.granted⟩,
    fun spec executor r hr => Registry.find?_register_of_known hr executor,
    fun log k h r hr => h.load_of_ended hr⟩
  rw [Registry.deregister_snd]
  refine Option.map_congr fun r hr => ?_
  rw [← hkept.load ((Registry.find?_eq_some hkept.distinct).mp hr).1, Nat.add_sub_cancel]

/-- A worker leaves while it has work and comes back; what it had is given back in vain. -/
def returning : List Request :=
  [.register ⟨"runner", ["run"], 1.0⟩ 0, .take "runner", .take "runner", .giveBack ⟨"runner", 0, 0⟩,
    .deregister "runner", .register ⟨"runner", ["run"], 1.0⟩ 0, .take "runner",
    .giveBack ⟨"runner", 0, 0⟩]

open Concourse in
theorem returning_balance :
    allowsAll { registry := { rules := .ofLimits 3 30000 } } returning ∧
    (∃ r ∈ (ofRequests (.ofLimits 3 30000) returning).registry.workers, r.seq = 1 ∧ r.load = 1 ∧
      (ofRequests (.ofLimits 3 30000) returning).returned.countP r.granted = 0) ∧
    ∃ log, History log (alone Opening.soloCancelled.stop) ∧ (∃ i x, Begun log i x) ∧
      ∀ r ∈ Opening.soloCancelled.stop.registry.workers, r.load = 0 := by
  have hallowed : allowsAll { registry := { rules := .ofLimits 3 30000 } } returning := by
    decide +kernel
  obtain ⟨hloads, -, -, -, -, hruns⟩ := loads_balance hallowed
  have hcurrent : ∃ r ∈ (ofRequests (.ofLimits 3 30000) returning).registry.workers, r.seq = 1 ∧
      (ofRequests (.ofLimits 3 30000) returning).taken.countP r.granted = 1 ∧
      (ofRequests (.ofLimits 3 30000) returning).returned.countP r.granted = 0 := by
    decide +kernel
  obtain ⟨r, hr, hseq, htaken, hreturned⟩ := hcurrent
  have hload := hloads r hr
  rw [htaken, hreturned] at hload
  obtain ⟨log, hsent⟩ := Opening.history_soloSent
  obtain ⟨x, hbegun, -⟩ := hsent.orderly.noted 0 (Opening.soloStart.pass.run.calls.head
    (by decide +kernel)) ⟨_, rfl, List.head_mem _⟩
  have hcancelled : History log (alone Opening.soloCancelled) := by
    have h := hsent.step (.cancels (i := 0) (m := Opening.soloStart.pass.member) rfl)
    rwa [List.append_nil] at h
  have hstopped := hcancelled.does (.stop (by decide +kernel) rfl)
  rw [List.map_nil, List.append_nil] at hstopped
  refine ⟨hallowed, ⟨r, hr, hseq, hload, hreturned⟩, log, hstopped, ⟨0, x, hbegun⟩,
    fun r hr => ?_⟩
  exact hruns log _ hstopped r hr fun i x hx _ => by
    obtain ⟨m, hm, -⟩ := hstopped.orderly.known i x hx
    refine ⟨m, hm, ?_⟩
    obtain rfl : m = Opening.soloCancelled.stop.member :=
      List.mem_singleton.mp (List.mem_of_getElem? hm)
    rfl

end Tally

end Crew
