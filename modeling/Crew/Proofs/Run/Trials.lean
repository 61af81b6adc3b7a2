import Crew.Proofs.Run.Concourse

/-!
# What ends a trial

A worker whose circuit has cooled down is on trial until an outcome is reported of it. The registry
does not ask which call the outcome is of: the call that was begun as the trial decides as much as
one that was begun before the circuit opened and comes back late (`Concourse.decided_in_flight`). So
a circuit may be closed by a call that knew nothing of the worker's failures (`late_call_closes`).
-/

namespace Crew

def Health.verdict (success : Bool) : Health := if success then .healthy else .circuitOpen

namespace Registry

variable {reg reg' : Registry} {workerId other : String} {seq now : Nat} {health : Health}

/-- The worker is registered under the given number and has the given health. -/
def Stands (reg : Registry) (workerId : String) (seq : Nat) (health : Health) : Prop :=
  ∃ r, reg.find? workerId = some r ∧ r.seq = seq ∧ r.breaker.health = health

theorem stands_iff : reg.Stands workerId seq health ↔
    (reg.find? workerId).map (fun r => (r.seq, r.breaker.health)) = some (seq, health) := by
  simp [Stands]

instance : Decidable (reg.Stands workerId seq health) := decidable_of_iff _ stands_iff.symm

theorem Stands.unique {first second : Health} (h₁ : reg.Stands workerId seq first)
    (h₂ : reg.Stands workerId seq second) : first = second := by
  obtain ⟨r, hr, -, rfl⟩ := h₁
  obtain ⟨q, hq, -, rfl⟩ := h₂
  obtain rfl : r = q := Option.some.inj (hr.symm.trans hq)
  rfl

theorem Stands.isRevoked_iff {lease : Lease} (h : reg.Stands workerId seq health)
    (hw : lease.workerId = workerId) : reg.isRevoked lease ↔ lease.seq ≠ seq := by
  obtain ⟨r, hr, rfl, -⟩ := h
  simp only [isRevoked, hw, hr, Option.map_some, ne_eq, Option.some.injEq, decide_eq_true_eq]
  exact ne_comm

-- ---------------------------------------------------------------------------
-- What leaves the health of a worker alone
-- ---------------------------------------------------------------------------

theorem Stands.modify {f : Registration → Registration} (h : reg.Stands workerId seq health)
    (hf : ∀ r, r.workerId = other →
      (f r).workerId = r.workerId ∧ (f r).seq = r.seq ∧ (f r).breaker = r.breaker) :
    (reg.modify other f).Stands workerId seq health := by
  obtain ⟨r, hr, hseq, hh⟩ := h
  have hw : r.workerId = workerId := by simpa using List.find?_some hr
  rw [Stands, find?_modify fun r hr => (hf r hr).1]
  split
  next he =>
    obtain ⟨-, hs, hb⟩ := hf r (hw.trans he)
    exact ⟨f r, by rw [hr, Option.map_some], hs.trans hseq, by rw [hb, hh]⟩
  · exact ⟨r, hr, hseq, hh⟩

theorem Stands.emit (h : reg.Stands workerId seq health) (e : Event) :
    (reg.emit e).Stands workerId seq health := h

theorem Stands.grant (h : reg.Stands workerId seq health) (other : String) :
    (reg.grant other).1.Stands workerId seq health := by
  unfold Registry.grant
  split
  · exact h
  · exact h.modify fun _ _ => ⟨rfl, rfl, rfl⟩

theorem Stands.release (h : reg.Stands workerId seq health) (lease : Lease) :
    (reg.release lease).Stands workerId seq health :=
  h.modify fun r _ => by split <;> exact ⟨rfl, rfl, rfl⟩

theorem Stands.lends (h : reg.Stands workerId seq health) (runId : String) (calls : List Call) :
    (calls.foldl (lend runId) reg).Stands workerId seq health := by
  induction calls generalizing reg with
  | nil => exact h
  | cons call rest ih => exact ih ((h.grant _).emit _)

theorem Stands.releases (h : reg.Stands workerId seq health) (calls : List Call) :
    (calls.foldl (fun reg call => reg.release call.lease) reg).Stands workerId seq health := by
  induction calls generalizing reg with
  | nil => exact h
  | cons call rest ih => exact ih (h.release _)

theorem Stands.refresh (h : reg.Stands workerId seq .degraded) (now : Nat)
    (which : Registration → Bool) : (reg.refresh now which).Stands workerId seq .degraded := by
  obtain ⟨r, hr, hseq, hd⟩ := h
  rw [Stands, find?_refresh, hr, Option.map_some]
  refine ⟨_, rfl, ?_, ?_⟩
  · split <;> exact hseq
  · split
    · simp [BreakerRules.refresh, hd]
    · exact hd

theorem Stands.rests (h : reg.Stands workerId seq .degraded) (hr : Rests reg reg') :
    reg'.Stands workerId seq .degraded := by
  induction hr with
  | refl => exact h
  | tail _ hr ih =>
    cases hr with
    | refreshes now which => exact ih.refresh now which
    | announces e => exact ih.emit e

theorem Stands.care (h : reg.Stands workerId seq .degraded) (hc : Care reg reg') :
    reg'.Stands workerId seq .degraded ∨ reg'.find? workerId = none := by
  cases hc with
  | rests hr => exact .inl (h.rests (.single hr))
  | registers spec executor =>
    refine .inl ?_
    unfold Registry.register
    split
    · exact h.modify fun r hr => ⟨hr.symm, rfl, rfl⟩
    · obtain ⟨r, hr, hseq, hd⟩ := h
      refine ⟨r, ?_, hseq, hd⟩
      rw [find?, List.find?_append]
      exact Option.or_eq_some_iff.mpr (.inl hr)
  | deregisters other =>
    unfold Registry.deregister
    split
    · exact .inl h
    · by_cases he : other = workerId
      · refine .inr (List.find?_eq_none.mpr fun r hr => ?_)
        have hne := (List.mem_filter.mp hr).2
        simpa [he] using hne
      · obtain ⟨r, hr, hseq, hd⟩ := h
        refine .inl ⟨r, ?_, hseq, hd⟩
        rw [find?, List.find?_filter, ← hr, find?]
        congr 1
        funext q
        by_cases hq : q.workerId = workerId <;> simp [hq, Ne.symm he]

-- ---------------------------------------------------------------------------
-- What decides
-- ---------------------------------------------------------------------------

theorem find?_reportOutcome (reg : Registry) (workerId other : String) (success : Bool)
    (now : Nat) : (reg.reportOutcome workerId success now).1.find? other =
      if other = workerId then (reg.find? other).map fun r =>
        { r with breaker := (if success then reg.rules.onSuccess r.breaker
            else reg.rules.onFailure r.breaker now).1 }
      else reg.find? other := by
  cases hr : reg.find? workerId with
  | none =>
    rw [reportOutcome, hr]
    dsimp only
    split
    next he => rw [he, hr, Option.map_none]
    · rfl
  | some r =>
    let breaker := (if success then reg.rules.onSuccess r.breaker
      else reg.rules.onFailure r.breaker now).1
    have hkeep (q : Registration) (_ : q.workerId = workerId) :
        Registration.workerId { q with breaker } = q.workerId := rfl
    have hmodify : (reg.reportOutcome workerId success now).1.find? =
        (reg.modify workerId fun q => { q with breaker }).find? := by
      rw [reportOutcome, hr]
      dsimp only
      split <;> rfl
    rw [hmodify, find?_modify hkeep]
    split
    next he => rw [he, hr, Option.map_some, Option.map_some]
    · rfl

theorem Stands.report_ne (h : reg.Stands workerId seq health) (hne : workerId ≠ other)
    (success : Bool) (now : Nat) :
    (reg.reportOutcome other success now).1.Stands workerId seq health := by
  rw [Stands, find?_reportOutcome, if_neg hne]
  exact h

theorem Stands.report (h : reg.Stands workerId seq .degraded) (success : Bool) (now : Nat) :
    (reg.reportOutcome workerId success now).1.Stands workerId seq (.verdict success) := by
  obtain ⟨r, hr, hseq, hd⟩ := h
  rw [Stands, find?_reportOutcome, if_pos rfl, hr, Option.map_some]
  refine ⟨_, rfl, hseq, ?_⟩
  cases success <;> simp [BreakerRules.onSuccess, BreakerRules.onFailure, Health.verdict, hd]

end Registry

-- ---------------------------------------------------------------------------
-- Runs
-- ---------------------------------------------------------------------------

namespace Run

variable {run run' : Run} {reg reg' : Registry} {workerId : String} {seq n now : Nat}
  {health : Health} {notes : List Note} {call : Call} {cancelled : Bool} {outcome : Outcome}

theorem Passage.stands (h : Passage now run reg notes run' reg')
    (ht : reg.Stands workerId seq .degraded) : reg'.Stands workerId seq .degraded := by
  induction h with
  | start => exact ht
  | idles _ _ _ hq ih => exact ih.rests hq
  | sends _ _ _ _ ih => exact ih.lends _ _

theorem find?_closeAttempt (run : Run) (reg : Registry) (taskId : String)
    (results : List TaskResult) (now : Nat) :
    (run.closeAttempt reg taskId results now).2.find? = reg.find? := by
  unfold closeAttempt
  split
  · rfl
  · split
    · rfl
    · dsimp only
      split <;> rfl

theorem find?_complete (hf : run.calls.find? (·.assignment.id = n) = some call) :
    (run.complete reg n cancelled outcome now).2.find? =
      ((call.told cancelled reg outcome now).release call.lease).find? := by
  obtain ⟨completion, -, he⟩ := complete_account hf reg cancelled outcome now
  rw [he]
  unfold account
  split
  · exact find?_closeAttempt _ _ _ _ _
  · rfl

/-- The end of a call decides about the worker that it was made under if that is on trial, and
leaves the others alone. In a run that was cancelled it leaves all of them alone. -/
theorem stands_complete (hf : run.calls.find? (·.assignment.id = n) = some call)
    (hw : call.assignment.workerId = call.lease.workerId)
    (ht : reg.Stands workerId seq .degraded) (cancelled : Bool) (outcome : Outcome) (now : Nat) :
    (run.complete reg n cancelled outcome now).2.Stands workerId seq
      (if cancelled then .degraded
        else if call.lease.workerId = workerId ∧ call.lease.seq = seq then
          .verdict outcome.isSuccess
        else .degraded) := by
  rw [Registry.Stands, find?_complete hf]
  refine Registry.Stands.release ?_ _
  unfold Call.told
  cases cancelled with
  | true => exact ht
  | false =>
  rw [hw, Bool.false_or, if_neg Bool.false_ne_true]
  -- a call that was made under another registration of the worker counts as revoked
  by_cases hm : call.lease.workerId = workerId ∧ call.lease.seq = seq
  · have hlive : ¬ reg.isRevoked call.lease := fun hr => (ht.isRevoked_iff hm.1).mp hr hm.2
    rw [if_pos hm, if_neg hlive, hm.1]
    exact ht.report _ _
  · rw [if_neg hm]
    split
    · exact ht
    next hlive =>
      refine ht.report_ne (fun he => hlive ?_) _ _
      exact (ht.isRevoked_iff he.symm).mpr fun hs => hm ⟨he.symm, hs⟩

end Run

-- ---------------------------------------------------------------------------
-- Concourses
-- ---------------------------------------------------------------------------

namespace Concourse

variable {k k' : Concourse} {log notes : List (Nat × Note)} {workerId : String} {seq : Nat}
  {health : Health}

theorem Orderly.begun {i : Nat} {call : Call} (h : Orderly log k) (hf : k.InFlight i call) :
    call.assignment.workerId = call.lease.workerId ∧ ∃ x earlier, Begun log i x ∧ x.2 = call ∧
      x.1.Stands call.lease.workerId call.lease.seq earlier ∧ earlier ≠ .circuitOpen := by
  obtain ⟨x, ⟨task, calls, hm, hx⟩, rfl⟩ := h.noted i call hf
  obtain ⟨m, -, hfair⟩ := h.fair i task calls hm
  obtain ⟨r, hr, -, hopen, -, hlease⟩ := hfair.fit x hx
  have hw : x.2.assignment.workerId = x.2.lease.workerId := (congrArg Lease.workerId hlease).symm
  have hseq : r.seq = x.2.lease.seq := (congrArg Lease.seq hlease).symm
  exact ⟨hw, x, _, ⟨task, calls, hm, hx⟩, rfl, ⟨r, hw ▸ hr, hseq, rfl⟩, hopen⟩

theorem Step.ends_trial (h : History log k) (hs : k.Step notes k')
    (ht : k.registry.Stands workerId seq .degraded)
    (hk : k'.registry.Stands workerId seq health) (hne : health ≠ .degraded) :
    (∃ success, notes = [] ∧ health = .verdict success ∧
      k' = { k with registry := (k.registry.reportOutcome workerId success k.now).1 }) ∨
    ∃ i x result answer, notes = [(i, .ended x.2 (some result) answer)] ∧
      health = .verdict result.outcome.isSuccess ∧ Begun log i x ∧ k.InFlight i x.2 ∧
      x.2.lease.workerId = workerId ∧ x.2.lease.seq = seq ∧
      ∃ earlier, x.1.Stands workerId seq earlier ∧ earlier ≠ .circuitOpen := by
  have horderly := h.orderly
  have hended : ¬ k'.registry.Stands workerId seq .degraded := fun hd => hne (hk.unique hd)
  -- no step but the end of a call and a report by hand tells the breaker anything
  cases hs with
  | joins hr hn hc => exact absurd (ht.rests (hr ▸ Opening.rests_course hc)) hended
  | @acts i m notes c hm hd =>
    cases hd with
    | pass =>
      have hrun := horderly.sound m (List.mem_of_getElem? hm)
      have hpass := m.run.pass_passage k.registry k.now hrun.books.distinct
        horderly.loaded.distinct
      exact absurd (hpass.stands ht) hended
    | complete _ n outcome =>
      cases hf : m.run.calls.find? (·.assignment.id = n) with
      | none =>
        refine absurd ?_ hended
        change (m.run.complete k.registry n m.cancelled outcome k.now).2.Stands workerId seq
          .degraded
        rw [Run.complete, hf]
        exact ht
      | some call =>
        have hflight : k.InFlight i call := ⟨m, hm, List.mem_of_find?_eq_some hf⟩
        obtain ⟨hw, x, earlier, hb, rfl, hx, hopen⟩ := horderly.begun hflight
        have hverdict := hk.unique (Run.stands_complete hf hw ht m.cancelled outcome k.now)
        cases hcancelled : m.cancelled with
        | true => exact absurd (hverdict.trans (if_pos hcancelled)) hne
        | false =>
        rw [hcancelled, if_neg Bool.false_ne_true] at hverdict
        split at hverdict
        next hlease =>
          obtain ⟨hworker, hseq⟩ := hlease
          have hlive : ¬ k.registry.isRevoked x.2.lease :=
            fun hr => (ht.isRevoked_iff hworker).mp hr hseq
          have hnotes : m.run.endNotes k.registry n m.cancelled outcome k.now =
              [.ended x.2 (some (x.2.result outcome k.now))
                (m.run.session.settle n (some (x.2.result outcome k.now)) k.now).2] := by
            rw [Run.endNotes, hf, hcancelled]
            simp only [Call.yield, Bool.false_or, if_neg hlive]
          rw [hworker, hseq] at hx
          exact .inr ⟨i, x, _, _, congrArg (List.map (i, ·)) hnotes, hverdict, hb, hflight,
            hworker, hseq, earlier, hx, hopen⟩
        · exact absurd hverdict hne
    | wake | leave => exact absurd ht hended
    | stop =>
      refine absurd ?_ hended
      change (m.run.cancel k.registry).2.Stands workerId seq .degraded
      rw [Run.cancel_registry]
      exact ht.releases _
  | tends hc =>
    rcases ht.care hc with hd | hnone
    · exact absurd hd hended
    · obtain ⟨r, hr, -⟩ := hk
      cases hnone.symm.trans hr
  | reports other success =>
    by_cases he : workerId = other
    · subst he
      exact .inl ⟨success, rfl, hk.unique (ht.report success k.now), rfl⟩
    · exact absurd (ht.report_ne he success k.now) hended
  | takes => exact absurd (ht.grant _) hended
  | returns => exact absurd (ht.release _) hended
  | _ => exact absurd ht hended

/-- A worker on trial is decided about by the end of any call in flight that was made under its
registration by a run that was not cancelled, and by none but these unless outcomes are reported by
hand. The call may be the trial or one that was begun before the circuit opened. -/
theorem decided_in_flight (h : History log k) (ht : k.registry.Stands workerId seq .degraded) :
    (∀ notes k' health, k.Step notes k' → k'.registry.Stands workerId seq health →
      health ≠ .degraded →
      (∃ success, notes = [] ∧ health = .verdict success ∧
        k' = { k with registry := (k.registry.reportOutcome workerId success k.now).1 }) ∨
      ∃ i x result answer, notes = [(i, .ended x.2 (some result) answer)] ∧
        health = .verdict result.outcome.isSuccess ∧ Begun log i x ∧ k.InFlight i x.2 ∧
        x.2.lease.workerId = workerId ∧ x.2.lease.seq = seq ∧
        ∃ earlier, x.1.Stands workerId seq earlier ∧ earlier ≠ .circuitOpen) ∧
    ∀ i : Nat, ∀ m call outcome, k.members[i]? = some m → call ∈ m.run.calls →
      call.lease.workerId = workerId → call.lease.seq = seq →
      ((k.course m).complete call.assignment.id outcome).registry.Stands workerId seq
        (if m.cancelled then .degraded else .verdict outcome.isSuccess) := by
  refine ⟨fun notes k' health hs hk hne => Step.ends_trial h hs ht hk hne,
    fun i m call outcome hm hc hworker hseq => ?_⟩
  have horderly := h.orderly
  have hf := (horderly.sound m (List.mem_of_getElem? hm)).find?_calls hc
  have hstands := Run.stands_complete hf (horderly.begun ⟨m, hm, hc⟩).1 ht m.cancelled outcome
    k.now
  rwa [if_pos (show call.lease.workerId = workerId ∧ call.lease.seq = seq from ⟨hworker, hseq⟩)]
    at hstands

end Concourse

-- ---------------------------------------------------------------------------
-- A call that comes back late
-- ---------------------------------------------------------------------------

namespace Opening

open Concourse

/-- Two tasks that go to one worker at once, whose first failure is one too many. -/
def pair : Opening where
  coordinator :=
    .plain { execution := { maxConcurrency := some 2 }, scaling := { enabled := false } }
  runId := "pair"
  tasks := [{ id := "a", capability := "run", maxRetries := 0 },
    { id := "b", capability := "run", maxRetries := 0 }]
  registry := Registry.register { rules := .ofLimits 1 50 } ⟨"runner", ["run"], 1.0⟩ 0
  now := 0

def pairStart : Course := pair.launch ⟨pair.tasks⟩ pair.registry 2

def pairReady : Run :=
  pairStart.run.withSession (pairStart.run.session.refreshTrust pairStart.registry.trustTable)

def pairCalled : Course :=
  let sent := Run.dispatchAll 0 pair.tasks pairReady pairStart.registry
  { pairStart with run := sent.1, registry := sent.2.1, phase := .wait }

def pairCooled : Course :=
  { { pairCalled with now := 10 }.complete 1 (.failure "lost") with now := 60 }.pass

theorem course_pair : pair.course = .ok pairStart :=
  course_eq_ok.mpr ⟨⟨pair.tasks⟩, pair.registry, 2, by decide +kernel, by decide +kernel, rfl,
    by decide, rfl⟩

-- the tasks are in order already, and sorting does not evaluate in the kernel
theorem readyTasks_pair : pairStart.run.session.readyTasks = pair.tasks := by
  have hready : pairStart.run.session.graph.tasks.filter pairStart.run.session.isReady =
      pair.tasks := by
    with_unfolding_all rfl
  rw [Session.readyTasks, hready]
  exact List.mergeSort_of_pairwise (by decide +kernel)

theorem prepare_pair : pairStart.run.prepare pairStart.registry 0 =
    (pairStart.run, pairStart.registry) := by
  with_unfolding_all rfl

theorem pass_pair : pairStart.pass = pairCalled := by
  have hdispatch : pairStart.run.dispatchReady pairStart.registry 0 =
      Run.dispatchAll 0 pair.tasks pairReady pairStart.registry := by
    rw [Run.dispatchReady, readyTasks_pair]
    rfl
  have hnow : pairStart.now = 0 := rfl
  rw [Course.pass, Run.pass_eq, hnow, prepare_pair, hdispatch]
  with_unfolding_all rfl

theorem notes_pair : pairStart.run.passNotes pairStart.registry 0 =
    (Run.visits 0 pair.tasks pairReady pairStart.registry).flatMap (Run.Visit.notes 0) := by
  rw [Run.passNotes, prepare_pair, Run.readyNotes, readyTasks_pair]
  rfl

def pairLate : Call := ⟨⟨2, "b", "runner", 1, 0⟩, ⟨"runner", 0, 0⟩, .null, 30000⟩

theorem history_pairCooled : ∃ log, History log (alone pairCooled) ∧
    ∀ i x, Begun log i x → x.1.Stands "runner" 0 .healthy := by
  have hregistry : History [] { registry := pair.registry, now := 0 } :=
    (History.empty (.ofLimits 1 50) 0).step (.tends (.registers ⟨"runner", ["run"], 1.0⟩ 0))
  have hsent := (hregistry.opens course_pair).does (.pass rfl rfl)
  rw [pass_pair] at hsent
  have hfailed := (hsent.advances 10 (by decide +kernel)).does
    (.complete (by decide +kernel) 1 (.failure "lost"))
  have hcooled := (hfailed.advances 60 (by decide +kernel)).does
    (.pass (by decide +kernel) (by decide +kernel))
  have hstands {notes : List Note}
      (hn : ∀ x ∈ notes.flatMap Note.calls, x.1.Stands "runner" 0 .healthy) {i : Nat}
      {x : Registry × Call} (hx : Begun (notes.map (0, ·)) i x) :
      x.1.Stands "runner" 0 .healthy := by
    obtain ⟨task, calls, hm, hx⟩ := hx
    obtain ⟨note, hnote, he⟩ := List.mem_map.mp hm
    cases he
    exact hn x (List.mem_flatMap.mpr ⟨_, hnote, hx⟩)
  refine ⟨_, hcooled, fun i x hx => ?_⟩
  rcases begun_append.mp hx with hx | hx
  · rcases begun_append.mp hx with hx | hx
    · refine hstands ?_ hx
      change ∀ x ∈ (pairStart.run.passNotes pairStart.registry 0).flatMap Note.calls, _
      rw [notes_pair]
      decide +kernel
    · exact hstands (by decide +kernel) hx
  · exact hstands (by decide +kernel) hx

theorem onTrial_pairCooled : pairCooled.registry.Stands "runner" 0 .degraded := by
  decide +kernel

theorem late_call_decides : ∃ log, History log (alone pairCooled) ∧
    (∀ i x, Begun log i x → x.1.Stands "runner" 0 .healthy) ∧
    ∀ outcome, (pairCooled.complete 2 outcome).registry.Stands "runner" 0
      (.verdict outcome.isSuccess) := by
  obtain ⟨log, h, hbegun⟩ := history_pairCooled
  obtain ⟨-, hdecides⟩ := decided_in_flight h onTrial_pairCooled
  exact ⟨log, h, hbegun, fun outcome =>
    hdecides 0 pairCooled.member pairLate outcome rfl (by decide +kernel) rfl rfl⟩

/-- The circuit is closed by a call that was made before it opened, while no call was ever made as a
trial. -/
theorem late_call_closes : ∃ log, ∃ k k' : Concourse, History log k ∧
    k.Step [(0, .ended pairLate (some (pairLate.result (.success .null) 60))
      (.closed "b" [pairLate.result (.success .null) 60]))] k' ∧
    k.registry.Stands "runner" 0 .degraded ∧ k'.registry.Stands "runner" 0 .healthy ∧
    ∀ i x, Begun log i x → x.1.Stands "runner" 0 .healthy := by
  obtain ⟨log, h, hbegun⟩ := history_pairCooled
  have hnotes : pairCooled.run.endNotes pairCooled.registry 2 pairCooled.cancelled
      (.success .null) pairCooled.now =
      [.ended pairLate (some (pairLate.result (.success .null) 60))
        (.closed "b" [pairLate.result (.success .null) 60])] := by
    with_unfolding_all rfl
  have hdoes : pairCooled.Does _ _ := .complete (by decide +kernel) 2
    (.success .null)
  rw [hnotes] at hdoes
  have hmember : (alone pairCooled).members[0]? = some pairCooled.member := rfl
  have hstep : (alone pairCooled).Step _ _ := .acts hmember hdoes
  exact ⟨log, _, _, h, hstep, onTrial_pairCooled, by decide +kernel, hbegun⟩

end Opening

end Crew
