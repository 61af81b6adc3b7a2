import Crew.Proofs.Run.Books

/-!
# Slots and calls of a run

The calls that a run waits for are the assignments in flight of its session, and each of them holds
one slot. Together with the books of the session this is kept by whatever a run does
(`Sound.rounds`, `Sound.return`, `Sound.cancel`).
-/

namespace Crew.Run

variable {run run' : Run} {task : Task} {now attempt : Nat}

structure Ledger (run : Run) : Prop where
  calls : run.calls.map (·.assignment) = run.session.inFlight
  slots : run.slots.free + run.calls.length = run.slots.capacity
  peak : run.session.peakInFlight ≤ run.slots.capacity

/-- All books of a run agree with each other. -/
structure Sound (run : Run) : Prop extends run.Ledger where
  books : run.session.Books

theorem Ledger.length_inFlight (h : run.Ledger) :
    run.session.inFlight.length = run.calls.length := by
  rw [← h.calls, List.length_map]

theorem Ledger.place (h : run.Ledger) (hf : run.slots.free ≠ 0) (lease : Lease) :
    (place task attempt now run lease).Ledger := by
  have hin := h.length_inFlight
  have hslots := h.slots
  have hcalls : (Run.place task attempt now run lease).calls.length = run.calls.length + 1 :=
    List.length_append
  refine ⟨?_, ?_, ?_⟩
  · change (run.calls ++ [_]).map Call.assignment = run.session.inFlight ++ [_]
    rw [List.map_append, h.calls]
    rfl
  · rw [hcalls]
    change run.slots.free - 1 + (run.calls.length + 1) = run.slots.capacity
    omega
  · change max run.session.peakInFlight (run.session.inFlight ++ [_]).length ≤ run.slots.capacity
    rw [List.length_append, hin]
    refine Nat.max_le.mpr ⟨h.peak, ?_⟩
    simp only [List.length_cons, List.length_nil]
    omega

theorem Ledger.foldl_place {leases : List Lease} (h : run.Ledger)
    (hle : leases.length ≤ run.slots.free) :
    (leases.foldl (Run.place task attempt now) run).Ledger := by
  induction leases generalizing run with
  | nil => exact h
  | cons lease rest ih =>
    rw [List.length_cons] at hle
    refine ih (h.place (by omega) lease) ?_
    change rest.length ≤ run.slots.free - 1
    omega

@[simp] theorem capacity_foldl_place (leases : List Lease) :
    (leases.foldl (Run.place task attempt now) run).slots.capacity = run.slots.capacity := by
  induction leases generalizing run with
  | nil => rfl
  | cons lease rest ih => exact ih

theorem Turn.ledger (h : Turn run task now run') (hl : run.Ledger) : run'.Ledger := by
  cases h with
  | waits => exact ⟨hl.calls, hl.slots, hl.peak⟩
  | lacks => unfold Session.markWaiting; split <;> exact ⟨hl.calls, hl.slots, hl.peak⟩
  | givesUp => unfold Session.markWaiting; split <;> exact ⟨hl.calls, hl.slots, hl.peak⟩
  | sends ha hne hfree =>
    have ho : (run.opened task).Ledger := ⟨hl.calls, hl.slots, hl.peak⟩
    exact ho.foldl_place hfree
  | withdraws => exact ⟨hl.calls, hl.slots, hl.peak⟩

theorem Turn.capacity (h : Turn run task now run') :
    run'.slots.capacity = run.slots.capacity := by
  cases h with
  | sends => exact capacity_foldl_place _
  | _ => rfl

theorem Round.ledger (h : Round run run') (hl : run.Ledger) : run'.Ledger := by
  cases h with
  | turns hm hr ht => exact ht.ledger hl
  | _ => exact ⟨hl.calls, hl.slots, hl.peak⟩

theorem Round.capacity (h : Round run run') : run'.slots.capacity = run.slots.capacity := by
  cases h with
  | turns hm hr ht => exact ht.capacity
  | _ => rfl

theorem Rounds.capacity (h : Rounds run run') : run'.slots.capacity = run.slots.capacity := by
  induction h with
  | refl => rfl
  | tail _ hr ih => exact hr.capacity.trans ih

theorem Sound.rounds (hs : run.Sound) (h : Rounds run run') : run'.Sound := by
  induction h with
  | refl => exact hs
  | tail _ hr ih => exact { hr.ledger ih.toLedger with books := ih.books.round hr }

section
variable {result : Option TaskResult} {call : Call} {n : Nat}

theorem Sound.mem_inFlight (hs : run.Sound) (hc : call ∈ run.calls) :
    call.assignment ∈ run.session.inFlight := by
  rw [← hs.calls]
  exact List.mem_map_of_mem hc

theorem Sound.nodup_calls (hs : run.Sound) : (run.calls.map (·.assignment.id)).Nodup := by
  have hn := hs.books.unique
  rwa [← hs.calls, List.map_map] at hn

theorem Return.calls (h : Return run n result run') :
    run'.calls = run.calls.filter (·.assignment.id ≠ n) := by
  cases h <;> rfl

theorem Return.calls_perm (h : Return run call.assignment.id result run') (hs : run.Sound)
    (hc : call ∈ run.calls) : run.calls.Perm (call :: run'.calls) := by
  rw [h.calls]
  exact perm_cons_filter_ne hs.nodup_calls hc

theorem Return.slots (h : Return run n result run') : run'.slots = run.slots.release := by
  cases h <;> rfl

theorem Sound.return (hs : run.Sound) (hc : call ∈ run.calls)
    (h : Return run call.assignment.id result run') : run'.Sound := by
  obtain ⟨-, -, hin, -, hpeak, -⟩ := h.fields
  have hlen := (h.calls_perm hs hc).length_eq
  rw [List.length_cons] at hlen
  have hslots := hs.slots
  refine { calls := ?_, slots := ?_, peak := ?_, books := hs.books.return h (hs.mem_inFlight hc) }
  · rw [h.calls, hin, ← hs.calls, List.filter_map]
    rfl
  · rw [h.slots]
    change run.slots.free + 1 + _ = run.slots.capacity
    omega
  · rw [hpeak, h.slots]
    exact hs.peak

end

theorem Sound.complete (hs : run.Sound) (reg : Registry) (n : Nat) (cancelled : Bool)
    (outcome : Outcome) : (run.complete reg n cancelled outcome now).1.Sound := by
  rcases complete_return run reg n cancelled outcome now with h | ⟨call, hc, rfl, h⟩
  · rw [h]
    exact hs
  · exact hs.return hc h

theorem Sound.cancel (hs : run.Sound) (reg : Registry) : (run.cancel reg).1.Sound := by
  rw [cancel_eq]
  exact { calls := rfl, slots := hs.slots, peak := hs.peak, books := hs.books.cancel }

end Crew.Run
