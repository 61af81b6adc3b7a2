import Crew.Proofs.Run.Accounts
import Crew.Proofs.Run.Notes

/-!
# Results as they arrive

Whatever a run does is noted (`Opening.Logs`), whichever calls end, in which order and with which
outcome, and whichever workers leave meanwhile. The notes agree with the books of the session at any
time, so no result is lost, none is heard twice, and what an attempt is closed with is what its own
calls brought (`Opening.nothing_lost`).
-/

namespace Crew

theorem Session.settle_of_unknown {s : Session} {n : Nat} (hf : s.inFlight.find? (·.id = n) = none)
    (result : Option TaskResult) (now : Nat) : s.settle n result now = (s, .stale) := by
  rw [settle, hf]

namespace Run.Sound

variable {run : Run} {call : Call}

theorem settle_ne_stale (hs : run.Sound) (n : Nat) (result : Option TaskResult) (now : Nat) :
    (run.session.settle n result now).2 ≠ .stale ↔
      ∃ call ∈ run.calls, call.assignment.id = n := by
  constructor
  · intro h
    cases hf : run.session.inFlight.find? (·.id = n) with
    | none =>
      rw [Session.settle_of_unknown hf] at h
      exact absurd rfl h
    | some a =>
      have ha := List.mem_of_find?_eq_some hf
      rw [← hs.calls] at ha
      obtain ⟨call, hc, rfl⟩ := List.mem_map.mp ha
      exact ⟨call, hc, by simpa using List.find?_some hf⟩
  · rintro ⟨call, hc, rfl⟩
    rw [answer_settle hs.books (hs.mem_inFlight hc)]
    exact Settled.of_ne_stale

theorem complete_hears (hs : run.Sound) (hstaffed : run.session.Staffed) (hc : call ∈ run.calls)
    (reg : Registry) (cancelled : Bool) (outcome : Outcome) (now : Nat) :
    run.Hears call (call.yield cancelled reg outcome now)
      (run.session.settle call.assignment.id (call.yield cancelled reg outcome now) now).2
      (run.complete reg call.assignment.id cancelled outcome now).1 := by
  refine ⟨hs, hc, hs.complete_return hc reg cancelled outcome now,
    answer_settle hs.books (hs.mem_inFlight hc) _ now, fun r hr => ?_, ?_⟩
  · obtain rfl := Call.eq_of_yield (Option.mem_toList.mp hr)
    exact ⟨rfl, rfl⟩
  · obtain ⟨p, hp, -⟩ := hs.books.running_of_mem (hs.mem_inFlight hc)
    rw [Session.batchOf_of_progress? hp]
    exact (hstaffed.results hc hs hp cancelled reg outcome now).1

end Run.Sound

-- ---------------------------------------------------------------------------
-- Courses
-- ---------------------------------------------------------------------------

namespace Course

variable {c c' c₀ : Course} {log notes : List Note}

/-- What comes of a course, with all that was noted on the way. -/
inductive Logs (c₀ : Course) : List Note → Course → Prop
  | start : Logs c₀ [] c₀
  | does {log notes : List Note} {c c' : Course} (h : Logs c₀ log c) (hd : c.Does notes c') :
    Logs c₀ (log ++ notes) c'
  | cancels {log : List Note} {c : Course} (h : Logs c₀ log c) :
    Logs c₀ log { c with cancelled := true }
  | advances {log : List Note} {c : Course} {now : Nat} (h : Logs c₀ log c) (hn : c.now ≤ now) :
    Logs c₀ log { c with now }
  | changes {log : List Note} {c : Course} {registry : Registry} (h : Logs c₀ log c)
    (hr : Registry.Changes c.registry registry) : Logs c₀ log { c with registry }

theorem Logs.moves (h : c₀.Logs log c) : c₀.Moves c := by
  induction h with
  | start => exact .refl
  | does _ hd ih => exact ih.tail (.own hd.own)
  | cancels _ ih => exact ih.tail .cancels
  | advances _ hn ih => exact ih.tail (.advances hn)
  | changes _ hr ih => exact ih.tail (.changes hr)

theorem Moves.exists_log (h : c₀.Moves c) : ∃ log, c₀.Logs log c := by
  induction h with
  | refl => exact ⟨[], .start⟩
  | tail _ hm ih =>
    obtain ⟨log, hlog⟩ := ih
    cases hm with
    | own h =>
      obtain ⟨notes, hd⟩ := h.exists_does
      exact ⟨log ++ notes, hlog.does hd⟩
    | cancels => exact ⟨log, hlog.cancels⟩
    | advances hn => exact ⟨log, hlog.advances hn⟩
    | changes hr => exact ⟨log, hlog.changes hr⟩

/-- The notes agree with the books, and with the calls in flight unless the run was stopped. -/
structure Noted (log : List Note) (c : Course) : Prop where
  kept : Notes.Kept log c.run
  unstopped : (c.phase = .ended → c.run.session.cancelled = false) → Notes.Open log c.run

theorem Noted.of_open (h : Notes.Open log c.run) : Noted log c := ⟨h.toKept, fun _ => h⟩

theorem Noted.open (h : Noted log c) (hp : c.phase ≠ .ended) : Notes.Open log c.run :=
  h.unstopped fun he => absurd he hp

theorem Noted.does (h : Noted log c) (hs : c.Sound) (hstaffed : c.run.session.Staffed)
    (hr : c.registry.Distinct) (hd : c.Does notes c') : Noted (log ++ notes) c' := by
  cases hd with
  | pass hp hc =>
    have hopen := h.open (by simp [hp])
    exact .of_open (hopen.passage hs.run
      (c.run.pass_passage c.registry c.now hs.run.books.distinct hr))
  | complete hp n outcome =>
    have hopen := h.open (by simp [hp])
    refine .of_open ?_
    change Notes.Open _ (c.run.complete c.registry n c.cancelled outcome c.now).1
    cases hf : c.run.calls.find? (·.assignment.id = n) with
    | none =>
      -- nobody waits for the call, so its end is not noted and changes nothing
      rw [Run.endNotes, Run.complete, hf, List.append_nil]
      exact hopen
    | some call =>
      obtain rfl : call.assignment.id = n := by simpa using List.find?_some hf
      rw [Run.endNotes, hf]
      exact hopen.hear (hs.run.complete_hears hstaffed (List.mem_of_find?_eq_some hf) _ _ _ _)
  | wake hp hc | leave hp hc =>
    rw [List.append_nil]
    exact .of_open (h.open (by simp [hp]))
  | stop hp hc =>
    -- the calls in flight are given up without a note, so only the books still agree
    have hsession := session_stop c
    rw [List.append_nil]
    refine ⟨h.kept.still (hsession ▸ c.run.session.still_cancel), fun hn => ?_⟩
    have hcancelled := hn rfl
    rw [hsession] at hcancelled
    cases hcancelled

end Course

/-- The courses that a run may come to while workers come and go, with all that was noted of it. -/
def Opening.Logs (o : Opening) (log : List Note) (c : Course) : Prop :=
  ∃ c₀, o.course = .ok c₀ ∧ c₀.Logs log c

namespace Opening

variable {o : Opening} {c : Course} {log : List Note}

theorem Logs.attains (h : o.Logs log c) : o.Attains c := by
  obtain ⟨c₀, ho, hl⟩ := h
  exact ⟨c₀, ho, hl.moves⟩

theorem Attains.exists_log (h : o.Attains c) : ∃ log, o.Logs log c := by
  obtain ⟨c₀, ho, hm⟩ := h
  obtain ⟨log, hl⟩ := hm.exists_log
  exact ⟨log, c₀, ho, hl⟩

theorem noted_start (h : o.course = .ok c) : c.Noted [] := by
  obtain ⟨graph, registry, count, -, -, -, -, rfl⟩ := course_eq_ok.mp h
  have hbatch := Session.batchOf_start o.runId graph registry.trustTable
  refine .of_open
    { numbers := rfl
      ended := List.Subperm.refl _
      arrived := rfl
      batches := hbatch
      uniform := fun id => ⟨0, List.forall_mem_nil _, List.forall_mem_nil _⟩
      fits := fun before call result answer hp => ?_
      calls := .refl _
      attempt := fun id => .refl _
      batch := hbatch }
  exact absurd (List.prefix_nil.mp hp) (List.concat_ne_nil _ _)

theorem Logs.noted (ho : o.registry.Built) (h : o.Logs log c) : c.Noted log := by
  obtain ⟨c₀, hc, hl⟩ := h
  induction hl with
  | start => exact noted_start hc
  | does hl hd ih =>
    have hbefore : o.Attains _ := ⟨c₀, hc, hl.moves⟩
    exact ih.does hbefore.reaches.sound (hbefore.staffed ho) (hbefore.built ho).distinct hd
  | cancels _ ih => exact ⟨ih.kept, ih.unstopped⟩
  | advances _ _ ih => exact ⟨ih.kept, ih.unstopped⟩
  | changes _ _ ih => exact ⟨ih.kept, ih.unstopped⟩

theorem Logs.nodup_made (ho : o.registry.Built) (h : o.Logs log c) :
    ((Notes.made log).map (·.assignment.id)).Nodup := by
  rw [(h.noted ho).kept.numbers]
  exact List.nodup_range'

theorem Logs.stale (ho : o.registry.Built) (h : o.Logs log c) {call : Call}
    (hc : call ∈ Notes.ended log) (result : Option TaskResult) (now : Nat) :
    (c.run.session.settle call.assignment.id result now).2 = .stale := by
  have hs := h.attains.reaches.sound
  by_contra hne
  obtain ⟨other, hm, hid⟩ := (hs.run.settle_ne_stale _ result now).mp hne
  -- an ended run waits for nothing, so the notes still agree with the calls in flight
  have hopen : Notes.Open log c.run := (h.noted ho).open fun he => by
    rw [hs.run.calls_of_over (hs.ended he)] at hm
    cases hm
  have hn := (hopen.calls.map (·.assignment.id)).nodup_iff.mp (h.nodup_made ho)
  rw [List.map_append] at hn
  exact List.disjoint_of_nodup_append hn (List.mem_map_of_mem hc)
    (hid ▸ List.mem_map_of_mem (f := (·.assignment.id)) hm)

/-- No two calls of a run have the same number. A number is answered while its call is in flight and
never again, and when a run has ended that was not cancelled all calls have ended. Results are kept
as they arrive, and those of a task are what its attempts were closed with and what its open attempt
has brought. An attempt is closed with what its own calls brought, which is something, and begun
anew when all of them have ended and brought nothing. -/
theorem nothing_lost (ho : o.registry.Built) (h : o.Logs log c) :
    ((Notes.made log).map (·.assignment.id)).Nodup ∧
    ((Notes.ended log).map (·.assignment.id)).Nodup ∧ Notes.ended log ⊆ Notes.made log ∧
    (∀ n result now, (c.run.session.settle n result now).2 ≠ .stale ↔
      ∃ call ∈ c.run.calls, call.assignment.id = n) ∧
    (∀ call ∈ Notes.ended log, ∀ result now,
      (c.run.session.settle call.assignment.id result now).2 = .stale) ∧
    (c.run.session.cancelled = false →
      (Notes.made log).Perm (Notes.ended log ++ c.run.calls) ∧
      (c.phase = .ended → (Notes.made log).Perm (Notes.ended log))) ∧
    c.run.session.results = Notes.arrived log ∧
    (∀ id, (Notes.batches id log).flatten ++ c.run.session.batchOf id =
      c.run.session.results.filter (·.taskId = id)) ∧
    ∀ before call result answer after, log = before ++ .ended call result answer :: after →
      answer ≠ .stale ∧ ∃ a : Attempt,
        Notes.attempt call.assignment.taskId (before ++ [.ended call result answer]) = a ∧
        a.Of call.assignment.taskId call.assignment.attempt ∧
        (∀ id batch, answer = .closed id batch → id = call.assignment.taskId ∧ batch ≠ [] ∧
          batch = a.results ∧ (∀ r ∈ batch, r.attempt = call.assignment.attempt) ∧
          (batch.map (·.workerId)).Nodup) ∧
        ∀ id, answer = .requeued id ↔ id = call.assignment.taskId ∧
          a.calls.Perm (a.ends.map (·.1)) ∧ ∀ e ∈ a.ends, e.2 = none := by
  have hnoted := h.noted ho
  have hs := h.attains.reaches.sound
  refine ⟨h.nodup_made ho, ?_, hnoted.kept.ended.subset, hs.run.settle_ne_stale,
    fun call hc => h.stale ho hc, fun hn => ?_, hnoted.kept.arrived, hnoted.kept.batches,
    fun before call result answer after hlog => ?_⟩
  · obtain ⟨some, hperm, hsub⟩ := hnoted.kept.ended
    exact (hperm.map _).nodup_iff.mp ((h.nodup_made ho).sublist (hsub.map _))
  · have hcalls := (hnoted.unstopped fun _ => hn).calls
    refine ⟨hcalls, fun he => ?_⟩
    rwa [hs.run.calls_of_over (hs.ended he), List.append_nil] at hcalls
  · obtain ⟨a, hf⟩ := hnoted.kept.fits before call result answer
      ⟨after, by rw [hlog, List.append_assoc, List.singleton_append]⟩
    refine ⟨?_, a, hf.latest, hf.of, fun id batch hb => ?_, fun id => ?_⟩
    · rw [hf.answer]
      exact Settled.of_ne_stale
    · rw [hf.answer] at hb
      obtain ⟨rfl, rfl, hne⟩ := Settled.of_eq_closed hb
      exact ⟨rfl, hne, rfl, fun r hr => (hf.of.results r hr).2, hf.distinct⟩
    · rw [hf.answer]
      exact Attempt.answer_eq_requeued hf.once

-- ---------------------------------------------------------------------------
-- A worker that leaves
-- ---------------------------------------------------------------------------

def duetAlone : Course :=
  { duetCalled with registry := (duetCalled.registry.deregister "left").1 }

def duetEnded : Course := ((duetAlone.complete 1 duetNo).pass.complete 2 duetYes).pass.leave

theorem exists_log_duetEnded : ∃ log, duet.Logs log duetEnded := by
  have hsent := Course.Logs.start.does (.pass (c := duetStart) rfl rfl)
  rw [pass_duet] at hsent
  have halone : duetStart.Logs _ duetAlone :=
    hsent.changes (.single (.deregisters "left"))
  have hfirst := (halone.does (.complete rfl 1 duetNo)).does (.pass rfl rfl)
  have hsecond := hfirst.does (.complete (by decide +kernel) 2 duetYes)
  have hdone := hsecond.does (.pass rfl (by decide +kernel))
  exact ⟨_, duetStart, course_duet,
    hdone.does (.leave (by decide +kernel) (by decide +kernel))⟩

/-- Both calls of the duet have ended, and what its one worker brought is what its attempt was
closed with. -/
theorem duet_loses_nothing : ∃ log, duet.Logs log duetEnded ∧
    (Notes.made log).Perm (Notes.ended log) ∧
    (Notes.arrived log).map (·.workerId) = ["right"] ∧
    (Notes.batches "only" log).flatten = Notes.arrived log := by
  obtain ⟨log, h⟩ := exists_log_duetEnded
  obtain ⟨-, -, -, -, -, hcalls, hresults, hbatches, -⟩ := nothing_lost built_duet h
  obtain ⟨-, hended⟩ := hcalls (by decide +kernel)
  have hopen : duetEnded.run.session.batchOf "only" = [] := by decide +kernel
  have hall : duetEnded.run.session.results.filter (·.taskId = "only") =
      duetEnded.run.session.results := by
    decide +kernel
  have hclosed := hbatches "only"
  rw [hopen, hall, List.append_nil, hresults] at hclosed
  refine ⟨log, h, hended (by decide +kernel), ?_, hclosed⟩
  rw [← hresults]
  decide +kernel

end Opening

end Crew
