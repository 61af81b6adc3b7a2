import Crew.Proofs.Registry.Service
import Crew.Proofs.Run.Surroundings

/-!
# Offers

A registry offers a capability if some worker that serves it may take work now: its breaker is
closed, or half open and no call is out. Breakers whose cooldown has passed count as half open,
whether anybody has looked at them or not. Nobody is chosen exactly if nothing is offered
(`selectFor_eq_nil_iff`), and while tasks are sent out at one time offers only go (`wanes`).

Between two times offers may come back; nothing is said about that here.
-/

namespace Crew

variable {now : Nat}

theorem BreakerRules.refresh_of_not_open {rules : BreakerRules} {b : Breaker}
    (h : b.health ≠ .circuitOpen) : rules.refresh b now = (b, none) := by
  unfold refresh
  split
  next hopen _ => exact absurd hopen h
  · rfl

/-- To look at a breaker twice at one time is to look once. -/
theorem BreakerRules.refresh_refresh (rules : BreakerRules) (b : Breaker) (now : Nat) :
    (rules.refresh (rules.refresh b now).1 now).1 = (rules.refresh b now).1 := by
  by_cases hopen : (rules.refresh b now).1.health = .circuitOpen
  · rw [Registry.refresh_of_open hopen]
    exact Registry.refresh_of_open hopen
  · rw [refresh_of_not_open hopen]

def Registration.Fit (rules : BreakerRules) (now : Nat) (r : Registration) : Prop :=
  (rules.refresh r.breaker now).1.health = .healthy ∨
    (rules.refresh r.breaker now).1.health = .degraded ∧ r.load = 0

namespace Registry

variable {reg reg' : Registry} {capability : String}

def Offers (reg : Registry) (capability : String) (now : Nat) : Prop :=
  ∃ r ∈ reg.workers, r.spec.serves capability ∧ r.Fit reg.rules now

theorem isEligible_refreshed {r : Registration} :
    Registration.isEligible { r with breaker := (reg.rules.refresh r.breaker now).1 } ↔
      r.Fit reg.rules now := by
  unfold Registration.isEligible Registration.Fit
  dsimp only
  split <;> simp_all

theorem selectFor_eq_nil_iff :
    (reg.selectFor capability now).2 = [] ↔ ¬ reg.Offers capability now := by
  have hsort {xs : List WorkerSnapshot} : xs.mergeSort preferred = [] ↔ xs = [] := by
    rw [← List.length_eq_zero_iff, List.length_mergeSort, List.length_eq_zero_iff]
  simp only [selectFor, hsort, List.map_eq_nil_iff, List.filter_eq_nil_iff, refresh, List.mem_map]
  constructor
  · rintro hnone ⟨r, hr, hserves, hfit⟩
    refine hnone _ ⟨r, hr, rfl⟩ ?_
    rw [if_pos hserves, Bool.and_eq_true]
    exact ⟨hserves, isEligible_refreshed.mpr hfit⟩
  · rintro hnone _ ⟨r, hr, rfl⟩ hchosen
    by_cases hserves : r.spec.serves capability
    · rw [if_pos hserves, Bool.and_eq_true] at hchosen
      exact hnone ⟨r, hr, hserves, isEligible_refreshed.mp hchosen.2⟩
    · rw [if_neg hserves, Bool.and_eq_true] at hchosen
      exact hserves hchosen.1

theorem Offers.covers (h : reg.Offers capability now) : reg.covers capability := by
  obtain ⟨r, hr, hserves, -⟩ := h
  exact List.any_eq_true.mpr ⟨r, hr, hserves⟩

theorem grant_of_selectFor {worker : WorkerSnapshot}
    (h : worker ∈ (reg.selectFor capability now).2) :
    ((reg.selectFor capability now).1.grant worker.spec.workerId).2.isSome := by
  have hm : worker.spec.workerId ∈ (reg.selectFor capability now).1.ids := by
    rw [selectFor, ids_refresh]
    exact mem_ids_of_selectFor h
  obtain ⟨r, hr⟩ := Option.isSome_iff_exists.mp (mem_ids_iff.mp hm)
  rw [grant_of_find? hr]
  rfl

-- ---------------------------------------------------------------------------
-- Offers while tasks are sent out
-- ---------------------------------------------------------------------------

/-- Whatever is offered afterwards was offered before. -/
def Wanes (now : Nat) (reg reg' : Registry) : Prop :=
  ∀ capability, reg'.Offers capability now → reg.Offers capability now

theorem Wanes.map {f : Registration → Registration}
    (hspec : ∀ r, (f r).spec = r.spec)
    (hfit : ∀ r, (f r).Fit reg.rules now → r.Fit reg.rules now) :
    Wanes now reg { reg with workers := reg.workers.map f } := by
  rintro capability ⟨_, hm, hserves, hoffered⟩
  obtain ⟨r, hr, rfl⟩ := List.mem_map.mp hm
  rw [hspec] at hserves
  exact ⟨r, hr, hserves, hfit r hoffered⟩

theorem wanes_refresh (reg : Registry) (now : Nat) (which : Registration → Bool) :
    Wanes now reg (reg.refresh now which) := by
  refine .map (fun r => ?_) fun r hr => ?_
  · split <;> rfl
  · split at hr
    · rwa [Registration.Fit, BreakerRules.refresh_refresh] at hr
    · exact hr

theorem wanes_grant (reg : Registry) (now : Nat) (workerId : String) :
    Wanes now reg (reg.grant workerId).1 := by
  unfold grant
  split
  · exact fun _ => id
  · refine .map (fun r => ?_) fun r hr => ?_
    · split <;> rfl
    · split at hr
      · -- a worker that has just got a call is fit only if its breaker is closed
        rcases hr with hclosed | ⟨-, hload⟩
        · exact .inl hclosed
        · cases hload
      · exact hr

theorem wanes (now : Nat) : InDispatch now (Wanes now) where
  refl _ _ := id
  trans h h' capability := fun ho => h capability (h' capability ho)
  refreshes reg := wanes_refresh reg now
  announces _ _ _ _ := id
  grants reg := wanes_grant reg now

end Registry

end Crew
