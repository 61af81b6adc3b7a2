import Mathlib.Data.List.Nodup
import Crew.Resolution

/-!
# The line of candidates

Candidates stand in the order of registration of their workers, then of the workers' ids, and those
of one worker as they arrived (`lined_candidates`). If no two are of one worker, nothing is left of
the order of arrival (`candidates_eq_of_perm`).
-/

namespace Crew.Resolver

variable {trust : TrustTable} {results : List TaskResult} {line : List Candidate}

def answers (results : List TaskResult) (trust : TrustTable) : List Candidate :=
  results.filterMap fun r => r.outcome.payload?.map fun payload =>
    ⟨r.workerId, payload, trust.weight r.workerId⟩

def NoLater (trust : TrustTable) (a b : Candidate) : Prop :=
  trust.seq a.workerId < trust.seq b.workerId ∨
    trust.seq a.workerId = trust.seq b.workerId ∧ a.workerId ≤ b.workerId

structure Lined (trust : TrustTable) (results : List TaskResult) (line : List Candidate) :
    Prop where
  perm : line.Perm (answers results trust)
  ordered : line.Pairwise (NoLater trust)
  arrival : ∀ id, line.filter (·.workerId = id) = (answers results trust).filter (·.workerId = id)

theorem NoLater.antisymm {a b : Candidate} (hab : NoLater trust a b) (hba : NoLater trust b a) :
    a.workerId = b.workerId := by
  rcases hab with hab | ⟨he, hab⟩
  · rcases hba with hba | ⟨he, -⟩
    · exact absurd hba (Nat.lt_asymm hab)
    · exact absurd he (Nat.ne_of_gt hab)
  · rcases hba with hba | ⟨-, hba⟩
    · exact absurd he (Nat.ne_of_gt hba)
    · exact String.le_antisymm hab hba

-- ---------------------------------------------------------------------------
-- The sort
-- ---------------------------------------------------------------------------

def notBehind : Nat × Candidate → Nat × Candidate → Bool :=
  fun (s, a) (t, b) => s < t || (s == t && !decide (b.workerId < a.workerId))

def numbered (results : List TaskResult) (trust : TrustTable) : List (Nat × Candidate) :=
  (answers results trust).map fun c => (trust.seq c.workerId, c)

theorem candidates_eq (results : List TaskResult) (trust : TrustTable) :
    candidates results trust = ((numbered results trust).mergeSort notBehind).map (·.2) := by
  rw [numbered, answers, List.map_filterMap, candidates]
  simp only [Option.map_map]
  rfl

theorem notBehind_iff {p q : Nat × Candidate} : notBehind p q = true ↔
    p.1 < q.1 ∨ p.1 = q.1 ∧ p.2.workerId ≤ q.2.workerId := by
  simp only [notBehind, Bool.or_eq_true, Bool.and_eq_true, decide_eq_true_eq, beq_iff_eq,
    Bool.not_eq_true', decide_eq_false_iff_not, String.not_lt]

theorem notBehind_trans (p q r : Nat × Candidate) (hpq : notBehind p q = true)
    (hqr : notBehind q r = true) : notBehind p r = true := by
  rw [notBehind_iff] at *
  rcases hpq with hpq | ⟨hpq, hids⟩
  · exact .inl (by omega)
  · rcases hqr with hqr | ⟨hqr, hids'⟩
    · exact .inl (by omega)
    · exact .inr ⟨hpq.trans hqr, String.le_trans hids hids'⟩

theorem notBehind_total (p q : Nat × Candidate) : (notBehind p q || notBehind q p) = true := by
  rw [Bool.or_eq_true, notBehind_iff, notBehind_iff]
  rcases Nat.lt_trichotomy p.1 q.1 with h | h | h
  · exact .inl (.inl h)
  · rcases String.le_total p.2.workerId q.2.workerId with hids | hids
    · exact .inl (.inr ⟨h, hids⟩)
    · exact .inr (.inr ⟨h.symm, hids⟩)
  · exact .inr (.inl h)

theorem fst_of_mem_numbered {p : Nat × Candidate} (h : p ∈ numbered results trust) :
    p.1 = trust.seq p.2.workerId := by
  obtain ⟨c, -, rfl⟩ := List.mem_map.mp h
  rfl

theorem filter_mergeSort (id : String) :
    ((numbered results trust).mergeSort notBehind).filter (·.2.workerId = id) =
      (numbered results trust).filter (·.2.workerId = id) := by
  have hlevel : ((numbered results trust).filter (·.2.workerId = id)).Pairwise
      (notBehind · · = true) := by
    refine List.pairwise_of_forall_mem_list fun p hp q hq => ?_
    obtain ⟨hp, hpid⟩ := List.mem_filter.mp hp
    obtain ⟨hq, hqid⟩ := List.mem_filter.mp hq
    have hids : p.2.workerId = q.2.workerId := by
      rw [of_decide_eq_true hpid, of_decide_eq_true hqid]
    rw [notBehind_iff, fst_of_mem_numbered hp, fst_of_mem_numbered hq, hids]
    exact .inr ⟨rfl, String.le_refl _⟩
  have hsub := (List.sublist_mergeSort notBehind_trans notBehind_total hlevel
    List.filter_sublist).filter (·.2.workerId = id)
  simp only [List.filter_filter, Bool.and_self] at hsub
  exact (hsub.eq_of_length ((List.mergeSort_perm _ _).filter _).length_eq.symm).symm

theorem lined_candidates (results : List TaskResult) (trust : TrustTable) :
    Lined trust results (candidates results trust) := by
  have hsnd : (numbered results trust).map (·.2) = answers results trust := by
    simp [numbered, Function.comp_def]
  rw [candidates_eq]
  refine ⟨?_, ?_, fun id => ?_⟩
  · rw [← hsnd]
    exact (List.mergeSort_perm _ _).map _
  · have hsorted := List.pairwise_mergeSort notBehind_trans notBehind_total
      (numbered results trust)
    refine List.pairwise_map.mpr (hsorted.imp_of_mem fun {p q} hp hq h => ?_)
    have hp := fst_of_mem_numbered ((List.mergeSort_perm _ _).mem_iff.mp hp)
    have hq := fst_of_mem_numbered ((List.mergeSort_perm _ _).mem_iff.mp hq)
    rwa [notBehind_iff, hp, hq] at h
  · rw [← hsnd, List.filter_map, List.filter_map]
    exact congrArg _ (filter_mergeSort id)

-- ---------------------------------------------------------------------------
-- Independence of arrival
-- ---------------------------------------------------------------------------

/-- No two successes are of one worker. -/
def Unrepeated (results : List TaskResult) : Prop :=
  ((results.filter (·.outcome.isSuccess)).map (·.workerId)).Nodup

theorem map_workerId_answers (results : List TaskResult) (trust : TrustTable) :
    (answers results trust).map (·.workerId) =
      (results.filter (·.outcome.isSuccess)).map (·.workerId) := by
  induction results with
  | nil => rfl
  | cons r rest ih =>
    obtain ⟨taskId, workerId, attempt, outcome, duration⟩ := r
    cases outcome with
    | success payload => exact congrArg (workerId :: ·) ih
    | failure message => exact ih
    | timedOut => exact ih

/-- The line of distinct workers is determined by who answered what. -/
theorem candidates_eq_of_perm {others : List TaskResult} (hn : Unrepeated results)
    (hp : (answers results trust).Perm (answers others trust)) :
    candidates results trust = candidates others trust := by
  have hline := lined_candidates results trust
  have hother := lined_candidates others trust
  have hperm := (hline.perm.trans hp).trans hother.perm.symm
  refine hperm.eq_of_pairwise (fun a b ha hb hab hba => ?_) hline.ordered hother.ordered
  rw [Unrepeated, ← map_workerId_answers _ trust] at hn
  have hb := hp.mem_iff.mpr (hother.perm.mem_iff.mp hb)
  exact List.inj_on_of_nodup_map hn (hline.perm.mem_iff.mp ha) hb (hab.antisymm hba)

end Crew.Resolver
