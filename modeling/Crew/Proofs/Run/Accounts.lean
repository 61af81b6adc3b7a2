import Crew.Proofs.Run.Course

/-!
# Slots and calls over whole runs

Wherever a run has come to, the calls it waits for, the assignments in flight, the slots that are
taken and what is outstanding of each task are the same in number, and when the run has ended all of
them are gone (`balance_of_steps`).
-/

namespace Crew

variable {o : Opening} {c c₀ c' : Course}

theorem Course.Step.capacity (hs : c.Sound) (h : c.Step c') :
    c'.run.slots.capacity = c.run.slots.capacity := by
  cases h with
  | own h =>
    cases h with
    | pass => exact (Course.pass_rounds hs).capacity
    | complete _ n outcome =>
      rcases c.complete_cases n outcome with h | ⟨call, hc, rfl, h⟩
      · rw [h]
      · rw [h.slots]
        rfl
    | wake | leave => rfl
    | stop =>
      change (c.run.cancel c.registry).1.slots.capacity = _
      rw [Run.cancel_eq]
  | _ => rfl

theorem Course.Steps.capacity (hs : c.Sound) (h : c.Steps c') :
    c'.run.slots.capacity = c.run.slots.capacity := by
  induction h with
  | refl => rfl
  | tail h hr ih => exact (hr.capacity (Course.Steps.sound hs h)).trans ih

/-- A run whose tasks have all ended waits for no call. -/
theorem Run.Sound.inFlight_of_over {run : Run} (hs : run.Sound) (ho : run.session.Over) :
    run.session.inFlight = [] := by
  refine List.eq_nil_iff_forall_not_mem.mpr fun a ha => ?_
  obtain ⟨p, hp, hr⟩ := hs.books.running_of_mem ha
  have ht := ho hp
  rw [hr] at ht
  cases ht

theorem Run.Sound.calls_of_over {run : Run} (hs : run.Sound) (ho : run.session.Over) :
    run.calls = [] := by
  rw [← List.length_eq_zero_iff, ← hs.length_inFlight, hs.inFlight_of_over ho, List.length_nil]

theorem Session.callsOf_pos {s : Session} {id : String} :
    0 < s.callsOf id ↔ ∃ a ∈ s.inFlight, a.taskId = id := by
  simp [callsOf, List.countP_pos_iff]

/-- The four books of a run agree wherever it has come to, the calls in flight never were more than
the slots it announced, and an ended run has given everything back. -/
theorem Opening.balance_of_steps (ho : o.course = .ok c₀) (hs : c₀.Steps c) :
    c.run.session.inFlight.length = c.run.calls.length ∧
    c.run.calls.map (·.assignment) = c.run.session.inFlight ∧
    c.run.slots.free ≤ c.run.slots.capacity ∧
    c.run.calls.length = c.run.slots.capacity - c.run.slots.free ∧
    (∀ id ∈ c.run.session.graph.ids, ∃ p, c.run.session.progress? id = some p ∧
      p.outstanding = c.run.session.inFlight.countP (·.taskId = id) ∧
      (p.state = .running ↔ ∃ a ∈ c.run.session.inFlight, a.taskId = id)) ∧
    (∃ slots, c₀.registry.journal.getLast? =
        some (.runStarted o.runId c.run.session.graph.size slots) ∧
      c.run.slots.capacity = slots ∧ c.run.session.peakInFlight ≤ slots) ∧
    (c.phase = .ended → c.run.session.inFlight = [] ∧ c.run.calls = [] ∧
      c.run.slots.free = c.run.slots.capacity) := by
  have h₀ := sound_of_course ho
  have hc := Course.Steps.sound h₀ hs
  have hslots := hc.run.slots
  refine ⟨hc.run.length_inFlight, hc.run.calls, by omega, by omega, ?_, ?_, ?_⟩
  · intro id hid
    obtain ⟨p, hp⟩ := Option.isSome_iff_exists.mp
      ((Session.progress?_isSome_iff hc.run.books.keys).mpr hid)
    exact ⟨p, hp, hc.run.books.outstanding hp,
      (hc.run.books.running hp).trans Session.callsOf_pos⟩
  · have hcap := Course.Steps.capacity h₀ hs
    have hgraph := (Course.Steps.follows h₀ hs).graph
    obtain ⟨graph, registry, count, -, -, -, -, rfl⟩ := course_eq_ok.mp ho
    refine ⟨count, ?_, hcap, ?_⟩
    · rw [hgraph]
      exact List.getLast?_concat
    · exact Nat.le_trans hc.run.peak (Nat.le_of_eq hcap)
  · intro he
    have hin := hc.run.inFlight_of_over (hc.ended he)
    have hcalls := hc.run.calls_of_over (hc.ended he)
    rw [hcalls] at hslots
    exact ⟨hin, hcalls, hslots⟩

theorem Opening.balance_relay :
    relayStart.pass.run.session.inFlight.length = 1 ∧ relayStart.pass.run.calls.length = 1 ∧
      relayStart.pass.run.slots = ⟨2, 1⟩ ∧ relayStart.pass.run.session.peakInFlight ≤ 2 := by
  obtain ⟨hlen, -, -, hcalls, -, ⟨slots, -, hcap, hpeak⟩, -⟩ :=
    balance_of_steps course_relay relay_sends
  have hslots : relayStart.pass.run.slots = ⟨2, 1⟩ := by decide +kernel
  rw [hslots] at hcalls hcap
  exact ⟨hlen.trans hcalls, hcalls, hslots, Nat.le_trans hpeak (Nat.le_of_eq hcap.symm)⟩

end Crew
