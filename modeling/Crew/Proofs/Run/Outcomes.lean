import Crew.Proofs.Breaker.Timeline
import Crew.Proofs.Registry.Tally
import Crew.Proofs.Run.Trials

/-!
# What breakers hear

Of the breaker of every registration it is kept which outcomes it was told, in which order
(`Registry.Heard`); what else is done to a registry leaves that alone. The end of a call tells its
outcome to the registration of its lease and to no other (`Call.find?_conclude`), and once that is
removed the end of the call only gives back a slot (`Call.conclude_of_isRevoked`).
-/

namespace Crew

open Registry (Rests)

def Signal.ofSuccess (success : Bool) : Signal := if success then .success else .failure

namespace BreakerRules

variable {rules : BreakerRules} {b : Breaker} {signals : List Signal}

/-- The breaker is what a fresh one becomes that hears of these outcomes, in this order, and is
asked for its health at any time. -/
def Heard (rules : BreakerRules) (b : Breaker) (signals : List Signal) : Prop :=
  ∃ events, b = rules.after events ∧ (events.map (·.signal)).filter (· ≠ .refresh) = signals

theorem heard_fresh (rules : BreakerRules) : rules.Heard {} [] := ⟨[], rfl, rfl⟩

theorem Heard.refresh (h : rules.Heard b signals) (now : Nat) :
    rules.Heard (rules.refresh b now).1 signals := by
  obtain ⟨events, rfl, rfl⟩ := h
  exact ⟨events ++ [⟨now, .refresh⟩], by rw [after_concat]; rfl, by simp⟩

theorem Heard.hear (h : rules.Heard b signals) (success : Bool) (now : Nat) :
    rules.Heard (rules.hear b ⟨now, .ofSuccess success⟩).1
      (signals ++ [.ofSuccess success]) := by
  obtain ⟨events, rfl, rfl⟩ := h
  refine ⟨events ++ [⟨now, .ofSuccess success⟩], by rw [after_concat], ?_⟩
  cases success <;> simp [Signal.ofSuccess]

theorem Heard.fresh (h : rules.Heard b []) : b = {} := by
  obtain ⟨events, rfl, hnone⟩ := h
  induction events using List.reverseRecOn with
  | nil => rfl
  | append_singleton events e ih =>
    rw [List.map_append, List.filter_append, List.append_eq_nil_iff] at hnone
    have hsignal : e.signal = .refresh := by simpa using hnone.2
    rw [after_concat, ih hnone.1, BreakerRules.hear, hsignal]
    rfl

theorem hear_ofSuccess (rules : BreakerRules) (b : Breaker) (success : Bool) (now : Nat) :
    rules.hear b ⟨now, .ofSuccess success⟩ =
      if success then rules.onSuccess b else rules.onFailure b now := by
  cases success <;> rfl

end BreakerRules

namespace Registry

variable {reg reg' : Registry} {workerId other : String} {r : Registration} {lease : Lease}
  {told : String → Nat → List Signal}

-- ---------------------------------------------------------------------------
-- Who is registered
-- ---------------------------------------------------------------------------

theorem find?_register_of_unknown {spec : WorkerSpec} (h : reg.find? spec.workerId = none)
    (executor : Nat) (other : String) : (reg.register spec executor).find? other =
      if other = spec.workerId then some { spec, seq := reg.nextSeq, executor }
      else reg.find? other := by
  rw [register_of_unknown h, find?, List.find?_append]
  change (reg.find? other).or _ = _
  by_cases he : other = spec.workerId
  · rw [if_pos he, he, h]
    simp [Registration.workerId]
  · rw [if_neg he]
    simp [Registration.workerId, Ne.symm he]

theorem find?_deregister (reg : Registry) (workerId other : String) :
    (reg.deregister workerId).1.find? other =
      if other = workerId then none else reg.find? other := by
  unfold deregister
  split
  next hf =>
    split
    next he => rw [he, hf]
    · rfl
  next r hf =>
    dsimp only
    rw [find?, List.find?_filter]
    by_cases he : other = workerId
    · simp [he]
    · rw [if_neg he, find?]
      congr 1
      funext q
      by_cases hq : q.workerId = other <;> simp [hq, he]

theorem isRevoked_eq_false : reg.isRevoked lease = false ↔
    ∃ r, reg.find? lease.workerId = some r ∧ r.seq = lease.seq := by
  simp [isRevoked]

theorem release_of_isRevoked (hd : reg.Distinct) (h : reg.isRevoked lease) :
    reg.release lease = reg := by
  refine release_of_gone hd fun r hr hs => ?_
  rw [isRevoked_eq_false.mpr ⟨r, hr, hs⟩] at h
  cases h

theorem Use.rules (h : Use reg reg') : reg'.rules = reg.rules := by
  cases h with
  | reports workerId success now =>
    unfold reportOutcome
    split
    · rfl
    · dsimp only
      split <;> rfl
  | grants workerId =>
    unfold grant
    split <;> rfl
  | _ => rfl

theorem Uses.rules (h : Uses reg reg') : reg'.rules = reg.rules := by
  induction h with
  | refl => rfl
  | tail _ hu ih => exact hu.rules.trans ih

-- ---------------------------------------------------------------------------
-- What breakers have heard
-- ---------------------------------------------------------------------------

def Heard (reg : Registry) (told : String → Nat → List Signal) : Prop :=
  ∀ workerId r, reg.find? workerId = some r → reg.rules.Heard r.breaker (told workerId r.seq)

theorem Heard.of_find? (h : reg.Heard told) (hrules : reg'.rules = reg.rules)
    (hf : reg'.find? = reg.find?) : reg'.Heard told := by
  intro workerId r hr
  rw [hrules]
  exact h workerId r (hf ▸ hr)

theorem Heard.emit (h : reg.Heard told) (e : Event) : (reg.emit e).Heard told := h

theorem Heard.modify {f : Registration → Registration} (h : reg.Heard told)
    (hf : ∀ r, r.workerId = other →
      (f r).workerId = r.workerId ∧ (f r).seq = r.seq ∧ (f r).breaker = r.breaker) :
    (reg.modify other f).Heard told := by
  intro workerId r hr
  rw [find?_modify fun r hr => (hf r hr).1] at hr
  split at hr
  next he =>
    obtain ⟨q, hq, rfl⟩ := Option.map_eq_some_iff.mp hr
    have hw : q.workerId = workerId := by simpa using List.find?_some hq
    obtain ⟨-, hseq, hbreaker⟩ := hf q (hw.trans he)
    rw [hseq, hbreaker]
    exact h workerId q hq
  · exact h workerId r hr

theorem Heard.grant (h : reg.Heard told) (workerId : String) :
    (reg.grant workerId).1.Heard told := by
  unfold Registry.grant
  split
  · exact h
  · exact h.modify fun _ _ => ⟨rfl, rfl, rfl⟩

theorem Heard.release (h : reg.Heard told) (lease : Lease) : (reg.release lease).Heard told :=
  h.modify fun r _ => by split <;> exact ⟨rfl, rfl, rfl⟩

theorem Heard.lends (h : reg.Heard told) (runId : String) (calls : List Call) :
    (calls.foldl (lend runId) reg).Heard told := by
  induction calls generalizing reg with
  | nil => exact h
  | cons call rest ih => exact ih ((h.grant _).emit _)

theorem Heard.releases (h : reg.Heard told) (calls : List Call) :
    (calls.foldl (fun reg call => reg.release call.lease) reg).Heard told := by
  induction calls generalizing reg with
  | nil => exact h
  | cons call rest ih => exact ih (h.release _)

theorem Heard.refresh (h : reg.Heard told) (now : Nat) (which : Registration → Bool) :
    (reg.refresh now which).Heard told := by
  intro workerId r hr
  rw [find?_refresh] at hr
  obtain ⟨q, hq, rfl⟩ := Option.map_eq_some_iff.mp hr
  have hold := h workerId q hq
  split
  · exact hold.refresh now
  · exact hold

theorem Heard.rests (h : reg.Heard told) (hr : Rests reg reg') : reg'.Heard told := by
  induction hr with
  | refl => exact h
  | tail _ hr ih =>
    cases hr with
    | refreshes now which => exact ih.refresh now which
    | announces e => exact ih.emit e

theorem Heard.report (h : reg.Heard told) (hl : reg.isRevoked lease = false) (success : Bool)
    (now : Nat) : (reg.reportOutcome lease.workerId success now).1.Heard fun workerId seq =>
      told workerId seq ++
        if lease.workerId = workerId ∧ lease.seq = seq then [.ofSuccess success] else [] := by
  obtain ⟨q, hq, hseq⟩ := isRevoked_eq_false.mp hl
  intro workerId r hr
  rw [Use.rules (.reports _ _ _)]
  dsimp only
  rw [find?_reportOutcome] at hr
  by_cases he : workerId = lease.workerId
  · subst he
    rw [if_pos rfl, hq, Option.map_some, ← BreakerRules.hear_ofSuccess] at hr
    obtain rfl := Option.some.inj hr
    rw [if_pos ⟨rfl, hseq.symm⟩]
    exact (h lease.workerId q hq).hear success now
  · rw [if_neg he] at hr
    rw [if_neg fun hboth => he hboth.1.symm, List.append_nil]
    exact h workerId r hr

end Registry

-- ---------------------------------------------------------------------------
-- Single calls
-- ---------------------------------------------------------------------------

namespace Call

variable {call : Call} {reg : Registry} {slots : Slots} {cancelled : Bool} {outcome : Outcome}
  {now : Nat}

theorem yield_eq_none :
    call.yield cancelled reg outcome now = none ↔ reg.isRevoked call.lease ∨ cancelled := by
  rw [or_comm, ← Bool.or_eq_true]
  unfold yield
  split
  next h => exact ⟨fun _ => h, fun _ => rfl⟩
  next h => exact ⟨fun hn => (nomatch hn), fun hr => absurd hr h⟩

theorem conclude_of_isRevoked (hd : reg.Distinct) (h : reg.isRevoked call.lease) :
    call.conclude cancelled outcome now reg slots =
      (if cancelled then .abandoned else .revoked, reg, slots.release) := by
  rw [conclude, if_pos h, release, Registry.release_of_isRevoked hd h]
  cases cancelled <;> rfl

theorem find?_conclude {r : Registration} (hw : call.assignment.workerId = call.lease.workerId)
    (hr : reg.find? call.lease.workerId = some r) (hs : r.seq = call.lease.seq) (other : String) :
    (call.conclude cancelled outcome now reg slots).2.1.find? other =
      if other = call.lease.workerId then some { r with
        load := r.load - 1
        breaker := if cancelled then r.breaker
          else (reg.rules.hear r.breaker ⟨now, .ofSuccess outcome.isSuccess⟩).1 }
      else reg.find? other := by
  have hlive : reg.isRevoked call.lease = false := Registry.isRevoked_eq_false.mpr ⟨r, hr, hs⟩
  have hkeep (q : Registration) (_ : q.workerId = call.lease.workerId) : Registration.workerId
      (if q.seq = call.lease.seq then { q with load := q.load - 1 } else q) = q.workerId := by
    split <;> rfl
  cases cancelled with
  | true =>
    change (reg.release call.lease).find? other = _
    rw [Registry.release, Registry.find?_modify hkeep]
    split
    next he => rw [he, hr, Option.map_some, if_pos hs]; rfl
    · rfl
  | false =>
    have htold : (call.conclude false outcome now reg slots).2.1 =
        (reg.reportOutcome call.lease.workerId outcome.isSuccess now).1.release call.lease := by
      rw [conclude, hlive, hw]
      rfl
    rw [htold, Registry.release, Registry.find?_modify hkeep, Registry.find?_reportOutcome]
    split
    next he =>
      rw [he, hr, Option.map_some, Option.map_some, if_pos hs, BreakerRules.hear_ofSuccess]
      rfl
    · rfl

end Call

namespace Run

variable {run run' : Run} {reg reg' : Registry} {notes : List Note} {now : Nat}
  {told : String → Nat → List Signal}

theorem Passage.sent (h : Passage now run reg notes run' reg') :
    ∀ note ∈ notes, ∃ task calls, note = .sent task calls := by
  induction h with
  | start => exact List.forall_mem_nil _
  | idles _ _ _ _ ih => exact ih
  | sends _ _ _ _ ih =>
    intro note hn
    rcases List.mem_append.mp hn with hn | hn
    · exact ih note hn
    · exact ⟨_, _, List.mem_singleton.mp hn⟩

theorem Passage.heard (h : Passage now run reg notes run' reg') (ht : reg.Heard told) :
    reg'.Heard told := by
  induction h with
  | start => exact ht
  | idles _ _ _ hq ih => exact ih.rests hq
  | sends _ _ _ _ ih => exact ih.lends _ _

end Run

end Crew
