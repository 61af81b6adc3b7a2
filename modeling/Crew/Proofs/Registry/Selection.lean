import Mathlib.Data.Prod.Lex
import Crew.Proofs.Breaker.Timeline
import Crew.Proofs.Registry.Offers

/-!
# The choice of workers

To choose workers is to look at the breakers of those that serve a capability, and to put those that
may take work in order. `Registration.seen` says what a look does to a registration, and
`WorkerSnapshot.key` is what the order goes by. Numbers of registrations are distinct
(`Built.ascending`), so no two workers have the same key: the list that is chosen is the one
strictly ascending list of its members, in whatever order the registrations were gone through
(`Built.exactly`).
-/

namespace Crew

variable {now : Nat} {capability : String}

namespace BreakerRules

variable {rules : BreakerRules} {b : Breaker}

instance : Decidable (rules.Due b now) :=
  inferInstanceAs (Decidable (_ ∧ ∃ opened ∈ b.openedAt, rules.cooldown ≤ now - opened))

theorem refresh_of_due (h : rules.Due b now) :
    (rules.refresh b now).1 = { b with health := .degraded } := by
  obtain ⟨hopen, opened, ho, hle⟩ := h
  rw [refresh, hopen, ho]
  dsimp only
  rw [if_pos hle]

theorem refresh_of_not_due (h : ¬ rules.Due b now) : (rules.refresh b now).1 = b := by
  unfold refresh
  split
  next opened hopen ho => rw [if_neg fun hle => h ⟨hopen, opened, ho, hle⟩]
  · rfl

end BreakerRules

namespace Registration

variable {rules : BreakerRules} {r : Registration}

def seen (rules : BreakerRules) (now : Nat) (r : Registration) : Registration :=
  if rules.Due r.breaker now then { r with breaker := { r.breaker with health := .degraded } }
  else r

theorem seen_eq (rules : BreakerRules) (now : Nat) (r : Registration) :
    r.seen rules now = { r with breaker := (rules.refresh r.breaker now).1 } := by
  unfold seen
  split
  next hdue => rw [BreakerRules.refresh_of_due hdue]
  next hdue => rw [BreakerRules.refresh_of_not_due hdue]

@[simp] theorem seen_spec : (r.seen rules now).spec = r.spec := by rw [seen_eq]

@[simp] theorem seen_seq : (r.seen rules now).seq = r.seq := by rw [seen_eq]

theorem seen_seen : (r.seen rules now).seen rules now = r.seen rules now := by
  simp only [seen_eq, BreakerRules.refresh_refresh]

theorem isEligible_seen : (r.seen rules now).isEligible ↔ r.Fit rules now := by
  rw [seen_eq]
  exact @Registry.isEligible_refreshed now { rules } r

theorem Fit.not_open (h : r.Fit rules now) : (r.seen rules now).breaker.health ≠ .circuitOpen := by
  rw [seen_eq]
  rcases h with hhealthy | ⟨hdegraded, -⟩
  · simp [hhealthy]
  · simp [hdegraded]

end Registration

namespace WorkerSnapshot

/-- What workers are put in order by: load, then health, then the number of the registration. -/
def key (w : WorkerSnapshot) : Nat ×ₗ Nat ×ₗ Nat := toLex (w.load, toLex (w.health.rank, w.seq))

end WorkerSnapshot

namespace Registry

variable {reg reg' : Registry} {a b : WorkerSnapshot}

theorem preferred_iff : preferred a b ↔ a.key ≤ b.key := by
  simp [preferred, WorkerSnapshot.key, Prod.Lex.toLex_le_toLex]

-- ---------------------------------------------------------------------------
-- Numbers of registrations
-- ---------------------------------------------------------------------------

theorem Built.ascending (h : reg.Built) : (reg.workers.map (·.seq)).Pairwise (· < ·) := by
  obtain ⟨rules, hc⟩ := h
  induction hc with
  | refl => exact .nil
  | tail hbuilt hc ih =>
    cases hc with
    | used hu => rwa [hu.map_workers fun _ _ _ => rfl]
    | registers spec executor =>
      unfold register
      split
      · have hsame := fun r : Registration => show
          (if r.workerId = spec.workerId then { r with spec, executor } else r).seq = r.seq by
            split <;> rfl
        simpa only [modify, List.map_map, Function.comp_def, hsame] using ih
      · rw [List.map_append, List.pairwise_append]
        refine ⟨ih, List.pairwise_singleton _ _, fun n hn m hm => ?_⟩
        obtain ⟨r, hr, rfl⟩ := List.mem_map.mp hn
        obtain rfl := List.mem_singleton.mp hm
        exact Built.numbered ⟨rules, hbuilt⟩ r hr
    | deregisters workerId =>
      unfold deregister
      split
      · exact ih
      · exact ih.sublist (List.filter_sublist.map _)

theorem Built.nodup_seqs (h : reg.Built) : (reg.workers.map (·.seq)).Nodup :=
  h.ascending.imp Nat.ne_of_lt

-- ---------------------------------------------------------------------------
-- Who is chosen
-- ---------------------------------------------------------------------------

/-- The workers that may take work of a capability, in the order of their registrations. -/
def candidates (reg : Registry) (capability : String) (now : Nat) : List Registration :=
  ((reg.workers.filter (·.spec.serves capability)).map (·.seen reg.rules now)).filter (·.isEligible)

theorem selectFor_fst (reg : Registry) (capability : String) (now : Nat) :
    (reg.selectFor capability now).1 = { reg with
      workers := reg.workers.map fun r =>
        if r.spec.serves capability then r.seen reg.rules now else r } := by
  simp only [selectFor, refresh, Registration.seen_eq]

theorem selectFor_snd (reg : Registry) (capability : String) (now : Nat) :
    (reg.selectFor capability now).2 =
      ((reg.candidates capability now).map (·.snapshot)).mergeSort preferred := by
  have hfilter (workers : List Registration) :
      (workers.map fun r => if r.spec.serves capability then r.seen reg.rules now else r).filter
          (fun r => r.spec.serves capability && r.isEligible) =
        ((workers.filter (·.spec.serves capability)).map (·.seen reg.rules now)).filter
          (·.isEligible) := by
    induction workers with
    | nil => rfl
    | cons r rest ih =>
      by_cases hserves : r.spec.serves capability
      · simp [List.filter_cons, hserves, ih]
      · simp [hserves, ih]
  have hfst : (reg.selectFor capability now).2 =
      (((reg.selectFor capability now).1.workers.filter fun r =>
        r.spec.serves capability && r.isEligible).map (·.snapshot)).mergeSort preferred := rfl
  rw [hfst, selectFor_fst, hfilter, candidates]

theorem mem_candidates {r : Registration} : r ∈ reg.candidates capability now ↔
    ∃ q ∈ reg.workers, q.spec.serves capability ∧ q.Fit reg.rules now ∧
      r = q.seen reg.rules now := by
  simp only [candidates, List.mem_filter, List.mem_map]
  constructor
  · rintro ⟨⟨q, ⟨hq, hserves⟩, rfl⟩, heligible⟩
    exact ⟨q, hq, hserves, Registration.isEligible_seen.mp heligible, rfl⟩
  · rintro ⟨q, hq, hserves, hfit, rfl⟩
    exact ⟨⟨q, ⟨hq, hserves⟩, rfl⟩, Registration.isEligible_seen.mpr hfit⟩

theorem nodup_seqs_candidates (h : (reg.workers.map (·.seq)).Nodup) :
    ((reg.candidates capability now).map (·.seq)).Nodup := by
  let serving := reg.workers.filter (·.spec.serves capability)
  have hseqs : (serving.map (·.seen reg.rules now)).map (·.seq) = serving.map (·.seq) := by
    simp only [List.map_map, Function.comp_def, Registration.seen_seq]
  have hserving : (serving.map (·.seq)).Nodup := h.sublist (List.filter_sublist.map _)
  rw [← hseqs] at hserving
  exact hserving.sublist (List.filter_sublist.map _)

theorem pairwise_selectFor (h : (reg.workers.map (·.seq)).Nodup) (capability : String) (now : Nat) :
    (reg.selectFor capability now).2.Pairwise (·.key < ·.key) := by
  rw [selectFor_snd]
  have hsorted : (((reg.candidates capability now).map (·.snapshot)).mergeSort preferred).Pairwise
      fun a b => preferred a b = true := by
    refine List.pairwise_mergeSort (fun a b c hab hbc => ?_) (fun a b => ?_) _
    · exact preferred_iff.mpr ((preferred_iff.mp hab).trans (preferred_iff.mp hbc))
    · rw [Bool.or_eq_true, preferred_iff, preferred_iff]
      exact le_total _ _
  have hseqs : (((reg.candidates capability now).map (·.snapshot)).mergeSort preferred).Pairwise
      fun a b => a.seq ≠ b.seq := by
    refine List.pairwise_map.mp
      (((List.mergeSort_perm _ _).map WorkerSnapshot.seq).nodup_iff.mpr ?_)
    rw [List.map_map]
    exact nodup_seqs_candidates h
  refine (hsorted.and hseqs).imp fun ⟨hle, hne⟩ => lt_of_le_of_ne (preferred_iff.mp hle) ?_
  intro hkey
  exact hne (congrArg (fun k => (ofLex (ofLex k).2).2) hkey)

theorem selectFor_of_perm {workers : List Registration} (h : (reg.workers.map (·.seq)).Nodup)
    (hp : workers.Perm reg.workers) :
    (selectFor { reg with workers } capability now).2 = (reg.selectFor capability now).2 := by
  have h' : (workers.map (·.seq)).Nodup := (hp.map _).nodup_iff.mpr h
  have hasymm (a b : WorkerSnapshot) (hab : a.key < b.key) (hba : b.key < a.key) : a = b :=
    absurd hba (lt_asymm hab)
  refine List.Perm.eq_of_pairwise (fun a b _ _ => hasymm a b)
    (pairwise_selectFor h' capability now) (pairwise_selectFor h capability now) ?_
  rw [selectFor_snd, selectFor_snd]
  refine (List.mergeSort_perm _ _).trans (.trans (.map _ ?_) (List.mergeSort_perm _ _).symm)
  exact ((hp.filter _).map _).filter _

theorem mem_selectFor {w : WorkerSnapshot} : w ∈ (reg.selectFor capability now).2 ↔
    ∃ r ∈ reg.workers, r.spec.serves capability ∧ r.Fit reg.rules now ∧
      w = (r.seen reg.rules now).snapshot := by
  rw [selectFor_snd, List.mem_mergeSort, List.mem_map]
  simp only [mem_candidates]
  constructor
  · rintro ⟨_, ⟨r, hr, hserves, hfit, rfl⟩, rfl⟩
    exact ⟨r, hr, hserves, hfit, rfl⟩
  · rintro ⟨r, hr, hserves, hfit, rfl⟩
    exact ⟨_, ⟨r, hr, hserves, hfit, rfl⟩, rfl⟩

theorem selectFor_selectFor (reg : Registry) (capability : String) (now : Nat) :
    (reg.selectFor capability now).1.selectFor capability now = reg.selectFor capability now := by
  have hfst : ((reg.selectFor capability now).1.selectFor capability now).1 =
      (reg.selectFor capability now).1 := by
    simp only [selectFor_fst, List.map_map]
    refine congrArg (fun workers => { reg with workers }) (List.map_congr_left fun r _ => ?_)
    by_cases hserves : r.spec.serves capability = true
    · simp [hserves, Registration.seen_seen]
    · simp [hserves]
  refine Prod.ext hfst ?_
  have hsnd (reg : Registry) : (reg.selectFor capability now).2 =
      (((reg.selectFor capability now).1.workers.filter fun r =>
        r.spec.serves capability && r.isEligible).map (·.snapshot)).mergeSort preferred := rfl
  rw [hsnd, hfst]
  rfl

/-- What the choice of workers for a capability gives, and what it leaves behind. -/
structure Exactly (reg : Registry) (capability : String) (now : Nat) : Prop where
  members : ∀ w, w ∈ (reg.selectFor capability now).2 ↔
    ∃ r ∈ reg.workers, r.spec.serves capability ∧ r.Fit reg.rules now ∧
      w = (r.seen reg.rules now).snapshot
  once : ((reg.selectFor capability now).2.map (·.spec.workerId)).Nodup
  ascending : (reg.selectFor capability now).2.Pairwise (·.key < ·.key)
  canonical : ∀ workers : List Registration, workers.Perm reg.workers →
    (selectFor { reg with workers } capability now).2 = (reg.selectFor capability now).2
  looked : (reg.selectFor capability now).1 = { reg with
    workers := reg.workers.map fun r =>
      if r.spec.serves capability then r.seen reg.rules now else r }
  again : (reg.selectFor capability now).1.selectFor capability now = reg.selectFor capability now

theorem Built.exactly (h : reg.Built) (capability : String) (now : Nat) :
    reg.Exactly capability now where
  members _ := mem_selectFor
  once := nodup_selectFor h.distinct capability now
  ascending := pairwise_selectFor h.nodup_seqs capability now
  canonical _ hp := selectFor_of_perm h.nodup_seqs hp
  looked := selectFor_fst reg capability now
  again := selectFor_selectFor reg capability now

end Registry

end Crew
