import Mathlib.Algebra.Order.BigOperators.Group.List
import Mathlib.Algebra.Order.Group.Nat
import Crew.Proofs.Registry.Leases

/-!
# What workers offer

To use a registry changes breakers and loads only: which capabilities are served stays the same, and
no lease is revoked (`Uses.map_workers`). Every open breaker knows when it opened
(`Built.dated`), so that once all cooldowns have passed, a worker without load may take work, and
every capability that is served at all finds somebody (`selectFor_ne_nil`).
-/

namespace Crew.Registry

variable {reg reg' : Registry} {capability : String} {now bound : Nat}

-- ---------------------------------------------------------------------------
-- What stays as it is
-- ---------------------------------------------------------------------------

section
variable {α : Type} {f : Registration → α}

theorem map_workers_reportOutcome (hf : ∀ r breaker, f { r with breaker } = f r) (reg : Registry)
    (workerId : String) (success : Bool) (now : Nat) :
    (reg.reportOutcome workerId success now).1.workers.map f = reg.workers.map f := by
  have hmodify (breaker : Breaker) :
      (reg.modify workerId fun r => { r with breaker }).workers.map f = reg.workers.map f := by
    rw [modify, List.map_map]
    refine List.map_congr_left fun r _ => ?_
    rw [Function.comp_apply]
    split
    · exact hf r breaker
    · rfl
  unfold reportOutcome
  split
  · rfl
  · dsimp only
    split <;> exact hmodify _

theorem Use.map_workers (hf : ∀ r breaker load, f { r with breaker, load } = f r)
    (h : Use reg reg') : reg'.workers.map f = reg.workers.map f := by
  have hsame {g : Registration → Registration} (hg : ∀ r, f (g r) = f r) :
      (reg.workers.map g).map f = reg.workers.map f := by
    rw [List.map_map]
    exact List.map_congr_left fun r _ => hg r
  cases h with
  | refreshes now which =>
    refine hsame fun r => ?_
    split
    · exact hf r _ r.load
    · rfl
  | reports workerId success now =>
    exact map_workers_reportOutcome (fun r breaker => hf r breaker r.load) reg workerId success now
  | grants workerId =>
    unfold grant
    split
    · rfl
    · refine hsame fun r => ?_
      split
      · exact hf r r.breaker _
      · rfl
  | releases lease =>
    refine hsame fun r => ?_
    split
    · dsimp only
      split
      · exact hf r r.breaker _
      · rfl
    · rfl
  | announces e => rfl

theorem Uses.map_workers (hf : ∀ r breaker load, f { r with breaker, load } = f r)
    (h : Uses reg reg') : reg'.workers.map f = reg.workers.map f := by
  induction h with
  | refl => rfl
  | tail _ hu ih => exact (hu.map_workers hf).trans ih

end

theorem Uses.covers (h : Uses reg reg') : reg'.covers = reg.covers := by
  funext capability
  have hspecs := h.map_workers (f := (·.spec)) fun _ _ _ => rfl
  have hany (reg : Registry) :
      reg.covers capability = (reg.workers.map (·.spec)).any (·.serves capability) := by
    rw [Registry.covers, List.any_map]
    rfl
  rw [hany, hany, hspecs]

theorem Uses.isRevoked (h : Uses reg reg') : reg'.isRevoked = reg.isRevoked := by
  funext lease
  have hseqs := h.map_workers (f := fun r => (r.workerId, r.seq)) fun _ _ _ => rfl
  have hfind (reg : Registry) : (reg.find? lease.workerId).map (·.seq) =
      ((reg.workers.map fun r => (r.workerId, r.seq)).find? (·.1 = lease.workerId)).map (·.2) := by
    rw [List.find?_map, Option.map_map]
    rfl
  rw [Registry.isRevoked, Registry.isRevoked, hfind, hfind, hseqs]

-- ---------------------------------------------------------------------------
-- Cooldowns
-- ---------------------------------------------------------------------------

/-- Every open breaker knows when it opened. -/
def Dated (reg : Registry) : Prop :=
  ∀ r ∈ reg.workers, r.breaker.health = .circuitOpen → r.breaker.openedAt.isSome

/-- Every open breaker has cooled down by then. -/
def Cooled (bound : Nat) (reg : Registry) : Prop :=
  ∀ r ∈ reg.workers, r.breaker.health = .circuitOpen →
    ∃ opened, r.breaker.openedAt = some opened ∧ opened + reg.rules.cooldown ≤ bound

section
variable {rules : BreakerRules} {b : Breaker}

theorem refresh_of_open (h : (rules.refresh b now).1.health = .circuitOpen) :
    (rules.refresh b now).1 = b := by
  unfold BreakerRules.refresh at h ⊢
  split at h
  · split at h
    · cases h
    next hcool => rw [if_neg hcool]
  · rfl

theorem refresh_of_cooled {opened : Nat} (ho : b.openedAt = some opened)
    (hc : opened + rules.cooldown ≤ now) : (rules.refresh b now).1.health ≠ .circuitOpen := by
  intro h
  have hb := refresh_of_open h
  rw [hb] at h
  rw [BreakerRules.refresh, h, ho] at hb
  dsimp only at hb
  rw [if_pos (by omega)] at hb
  rw [← hb] at h
  cases h

theorem openedAt_onFailure (hb : b.health = .circuitOpen → b.openedAt.isSome)
    (h : (rules.onFailure b now).1.health = .circuitOpen) :
    (rules.onFailure b now).1.openedAt.isSome := by
  unfold BreakerRules.onFailure at h ⊢
  dsimp only at h ⊢
  split
  · split
    · rfl
    next hh hn => simp [hh, hn] at h
  · rfl
  next hh => exact hb hh

theorem openedAt_onSuccess (hb : b.health = .circuitOpen → b.openedAt.isSome)
    (h : (rules.onSuccess b).1.health = .circuitOpen) :
    (rules.onSuccess b).1.openedAt.isSome := by
  unfold BreakerRules.onSuccess at h ⊢
  split
  next hh => simp [hh] at h
  next hh => simp [hh] at h
  next hh => exact hb hh

end

theorem Dated.map {f : Registration → Registration} (h : reg.Dated)
    (hf : ∀ r ∈ reg.workers, (r.breaker.health = .circuitOpen → r.breaker.openedAt.isSome) →
      (f r).breaker.health = .circuitOpen → (f r).breaker.openedAt.isSome) :
    Dated { reg with workers := reg.workers.map f } := by
  intro q hq
  obtain ⟨r, hr, rfl⟩ := List.mem_map.mp hq
  exact hf r hr (h r hr)

theorem Dated.modify {workerId : String} {f : Registration → Registration} (h : reg.Dated)
    (hf : ∀ r, (r.breaker.health = .circuitOpen → r.breaker.openedAt.isSome) →
      (f r).breaker.health = .circuitOpen → (f r).breaker.openedAt.isSome) :
    (reg.modify workerId f).Dated := by
  refine h.map fun r _ hr => ?_
  split
  · exact hf r hr
  · exact hr

theorem Dated.reportOutcome (h : reg.Dated) (workerId : String) (success : Bool) (now : Nat) :
    (reg.reportOutcome workerId success now).1.Dated := by
  unfold Registry.reportOutcome
  split
  · exact h
  next r hr =>
    have hknown := h r (List.mem_of_find?_eq_some hr)
    have hmodify : ∀ x : Breaker × Option BreakerTransition,
        (x.1.health = .circuitOpen → x.1.openedAt.isSome) →
        (reg.modify workerId fun r => { r with breaker := x.1 }).Dated :=
      fun x hx => h.modify fun _ _ => hx
    have hbreaker := hmodify (if success then reg.rules.onSuccess r.breaker
        else reg.rules.onFailure r.breaker now) <| by
      split
      · exact openedAt_onSuccess hknown
      · exact openedAt_onFailure hknown
    dsimp only
    split <;> exact hbreaker

theorem Dated.use (h : reg.Dated) (hu : Use reg reg') : reg'.Dated := by
  cases hu with
  | refreshes now which =>
    refine h.map fun r _ hr => ?_
    split
    · intro hopen
      have hb := refresh_of_open hopen
      dsimp only at hopen ⊢
      rw [hb] at hopen ⊢
      exact hr hopen
    · exact hr
  | reports workerId success now => exact h.reportOutcome workerId success now
  | grants workerId =>
    unfold grant
    split
    · exact h
    · exact h.modify fun _ hr => hr
  | releases lease =>
    refine h.modify fun r hr => ?_
    split <;> exact hr
  | announces e => exact h

theorem Dated.uses (h : reg.Dated) (hu : Uses reg reg') : reg'.Dated := by
  induction hu with
  | refl => exact h
  | tail _ hu ih => exact ih.use hu

theorem Dated.register (h : reg.Dated) (spec : WorkerSpec) (executor : Nat) :
    (reg.register spec executor).Dated := by
  unfold Registry.register
  split
  · exact h.modify fun _ hr => hr
  · intro r hr
    rcases List.mem_append.mp hr with hr | hr
    · exact h r hr
    · obtain rfl := List.mem_singleton.mp hr
      exact fun hopen => nomatch hopen

theorem Built.dated (h : reg.Built) : reg.Dated := by
  obtain ⟨rules, hc⟩ := h
  induction hc with
  | refl => exact List.forall_mem_nil _
  | tail _ hc ih =>
    cases hc with
    | used hu => exact ih.use hu
    | registers spec executor => exact ih.register spec executor
    | deregisters workerId =>
      unfold Registry.deregister
      split
      · exact ih
      · exact fun r hr => ih r (List.mem_of_mem_filter hr)

-- ---------------------------------------------------------------------------
-- Loads
-- ---------------------------------------------------------------------------

theorem Use.nextSeq (h : Use reg reg') : reg'.nextSeq = reg.nextSeq := by
  cases h with
  | reports workerId success now =>
    unfold reportOutcome
    split
    · rfl
    · dsimp only
      split <;> rfl
  | grants workerId =>
    unfold grant
    split <;> rfl
  | _ => rfl

theorem Uses.nextSeq (h : Uses reg reg') : reg'.nextSeq = reg.nextSeq := by
  induction h with
  | refl => rfl
  | tail _ hu ih => exact hu.nextSeq.trans ih

theorem Built.numbered (h : reg.Built) : ∀ r ∈ reg.workers, r.seq < reg.nextSeq := by
  obtain ⟨rules, hc⟩ := h
  induction hc with
  | refl => exact List.forall_mem_nil _
  | tail _ hc ih =>
    cases hc with
    | used hu =>
      intro r hr
      have hseq := List.mem_map_of_mem (f := (·.seq)) hr
      rw [hu.map_workers fun _ _ _ => rfl] at hseq
      obtain ⟨q, hq, he⟩ := List.mem_map.mp hseq
      rw [← he, hu.nextSeq]
      exact ih q hq
    | registers spec executor =>
      unfold Registry.register
      split
      · intro r hr
        obtain ⟨q, hq, rfl⟩ := List.mem_map.mp hr
        have hlt := ih q hq
        dsimp only
        split <;> exact hlt
      · intro r hr
        rcases List.mem_append.mp hr with hr | hr
        · exact Nat.lt_succ_of_lt (ih r hr)
        · obtain rfl := List.mem_singleton.mp hr
          exact Nat.lt_succ_self _
    | deregisters workerId =>
      unfold Registry.deregister
      split
      · exact ih
      · exact fun r hr => ih r (List.mem_of_mem_filter hr)

theorem Built.loaded (h : reg.Built) (hl : ∀ r ∈ reg.workers, r.load = 0) : reg.Loaded [] :=
  ⟨h.distinct, h.numbered, List.forall_mem_nil _, hl⟩

theorem Cooled.map {f : Registration → Registration} (h : reg.Cooled bound)
    (hf : ∀ r ∈ reg.workers, (f r).breaker.health = .circuitOpen → (f r).breaker = r.breaker) :
    Cooled bound { reg with workers := reg.workers.map f } := by
  intro q hq hopen
  obtain ⟨r, hr, rfl⟩ := List.mem_map.mp hq
  have hb := hf r hr hopen
  rw [hb] at hopen ⊢
  exact h r hr hopen

theorem Cooled.refresh (h : reg.Cooled bound) (now : Nat) (which : Registration → Bool) :
    (reg.refresh now which).Cooled bound := by
  refine h.map fun r _ hopen => ?_
  split
  next hw =>
    rw [if_pos hw] at hopen
    exact refresh_of_open hopen
  · rfl

theorem Cooled.rests (h : reg.Cooled bound) (hr : Rests reg reg') : reg'.Cooled bound := by
  induction hr with
  | refl => exact h
  | tail _ hr ih =>
    cases hr with
    | refreshes now which => exact ih.refresh now which
    | announces e => exact ih

theorem Cooled.lends {runId : String} {calls : List Call} (h : reg.Cooled bound) :
    (calls.foldl (lend runId) reg).Cooled bound := by
  induction calls generalizing reg with
  | nil => exact h
  | cons call rest ih =>
    refine ih ?_
    unfold lend grant
    split
    · exact h
    · refine Cooled.map h fun r _ hopen => ?_
      split <;> rfl

theorem Cooled.mono {bound' : Nat} (h : reg.Cooled bound) (hle : bound ≤ bound') :
    reg.Cooled bound' := fun r hr hopen => by
  obtain ⟨opened, ho, hb⟩ := h r hr hopen
  exact ⟨opened, ho, Nat.le_trans hb hle⟩

theorem Dated.exists_cooled (h : reg.Dated) : ∃ bound, reg.Cooled bound := by
  let cooled (r : Registration) : Nat := r.breaker.openedAt.getD 0 + reg.rules.cooldown
  refine ⟨(reg.workers.map cooled).sum, fun r hr hopen => ?_⟩
  obtain ⟨opened, ho⟩ := Option.isSome_iff_exists.mp (h r hr hopen)
  have hle := List.le_sum_of_mem (List.mem_map_of_mem (f := cooled) hr)
  simp only [cooled, ho, Option.getD_some] at hle
  exact ⟨opened, ho, hle⟩

/-- Once everything has cooled down and nobody is at work, whatever is served finds a worker. -/
theorem selectFor_ne_nil (hc : reg.Cooled now) (hl : ∀ r ∈ reg.workers, r.load = 0)
    (hs : reg.covers capability) : (reg.selectFor capability now).2 ≠ [] := by
  obtain ⟨r, hr, hserves⟩ := List.any_eq_true.mp hs
  let fresh : Registration := { r with breaker := (reg.rules.refresh r.breaker now).1 }
  have hclosed : fresh.breaker.health ≠ .circuitOpen := by
    intro hopen
    have hb : fresh.breaker = r.breaker := refresh_of_open hopen
    obtain ⟨opened, ho, hle⟩ := hc r hr (hb ▸ hopen)
    exact refresh_of_cooled ho hle hopen
  have heligible : fresh.isEligible := by
    unfold Registration.isEligible
    split
    · rfl
    · simp [fresh, hl r hr]
    next hopen => exact absurd hopen hclosed
  have hm : fresh ∈ (reg.refresh now (·.spec.serves capability)).workers :=
    List.mem_map.mpr ⟨r, hr, if_pos hserves⟩
  have hfit : (fresh.spec.serves capability && fresh.isEligible) = true := by
    rw [heligible, Bool.and_true]
    exact hserves
  exact List.ne_nil_of_mem (List.mem_mergeSort.mpr
    (List.mem_map_of_mem (List.mem_filter.mpr ⟨hm, hfit⟩)))

end Crew.Registry
