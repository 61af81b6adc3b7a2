import Crew.Proofs.Registry.Service

/-!
# Calls in hand

Whoever has a lease and a slot can prepare a call, wait for it or not, and have it end on its own or
drop it at any point. In any course of this (`Switchboard.Step`), over workers that come and go, the
slot of a call comes back exactly once when the call ends, and so does the load of its worker if
anybody had begun to wait for the call (`Switchboard.given_back`).

Before that nobody has charge of the load: dropped then, a call leaves it with the worker for as
long as the worker is registered (`Switchboard.dropped_unheard`).
-/

namespace Crew

/-- The ways in which a call ends, with registry and slots as they are then. -/
inductive Call.Ends (call : Call) (reg : Registry) (slots : Slots) :
    Call.Stage → Registry × Slots → Prop
  | concludes (cancelled : Bool) (outcome : Outcome) (now : Nat) :
    Ends call reg slots .underway (call.conclude cancelled outcome now reg slots).2
  | drops (stage : Stage) : Ends call reg slots stage (call.drop stage reg slots)

/-- Calls over one pool of slots. Slots that are `held` and leases that are `loose` have been taken
for no call yet, or for other pools; `lost` are those of calls that were dropped before anybody
waited for them. -/
structure Switchboard where
  registry : Registry
  slots : Slots
  held : Nat := 0
  loose : List Lease := []
  inHand : List (Call × Call.Stage) := []
  lost : List Lease := []

namespace Switchboard

def leases (d : Switchboard) : List Lease := d.inHand.map (·.1.lease) ++ (d.loose ++ d.lost)

/-- Leases and slots are taken and given back one by one. A call is prepared from one of each, which
are its own from then on. -/
inductive Step (d : Switchboard) : Switchboard → Prop
  | tends {registry : Registry} (h : d.registry.Care registry) : Step d { d with registry }
  | reports (workerId : String) (success : Bool) (now : Nat) :
    Step d { d with registry := (d.registry.reportOutcome workerId success now).1 }
  | lends {workerId : String} {lease : Lease} (h : (d.registry.grant workerId).2 = some lease) :
    Step d { d with registry := (d.registry.grant workerId).1, loose := lease :: d.loose }
  | returns {lease : Lease} {before after : List Lease} (h : d.loose = before ++ lease :: after) :
    Step d { d with registry := d.registry.release lease, loose := before ++ after }
  | reserves {slots : Slots} (h : d.slots.reserve = some slots) :
    Step d { d with slots, held := d.held + 1 }
  | frees {held : Nat} (h : d.held = held + 1) : Step d { d with slots := d.slots.release, held }
  | prepares {call : Call} {held : Nat} {before after : List Lease} (hh : d.held = held + 1)
    (h : d.loose = before ++ call.lease :: after) :
    Step d { d with held, loose := before ++ after, inHand := (call, .prepared) :: d.inHand }
  | waits {call : Call} {before after : List (Call × Call.Stage)}
    (h : d.inHand = before ++ (call, .prepared) :: after) :
    Step d { d with inHand := before ++ (call, .underway) :: after }
  | ends {call : Call} {stage : Call.Stage} {before after : List (Call × Call.Stage)}
    {left : Registry × Slots} (h : d.inHand = before ++ (call, stage) :: after)
    (he : call.Ends d.registry d.slots stage left) :
    Step d
      { d with
        registry := left.1
        slots := left.2
        inHand := before ++ after
        lost := if stage = .prepared then call.lease :: d.lost else d.lost }

abbrev Steps : Switchboard → Switchboard → Prop := Relation.ReflTransGen Step

/-- The switchboards that there can be over a pool that was made for so many calls. -/
def Reached (capacity : Nat) (d : Switchboard) : Prop :=
  ∃ rules slots, Slots.ofCapacity capacity = some slots ∧ Steps ⟨{ rules }, slots, 0, [], [], []⟩ d

end Switchboard

/-- The registrations are the same, and so much of their loads has been given back. -/
def Registry.Relieves (reg : Registry) (given : Registration → Nat) (reg' : Registry) : Prop :=
  reg'.workers.map (fun r => (r.workerId, r.seq, r.load + given r)) =
    reg.workers.map fun r => (r.workerId, r.seq, r.load)

-- ---------------------------------------------------------------------------
-- Ends of calls
-- ---------------------------------------------------------------------------

section
variable {reg : Registry} {pool : Slots} {call : Call} {stage : Call.Stage}
  {left : Registry × Slots} {rest : List Lease} {lease : Lease}

theorem Registry.Loaded.relieves_release (h : reg.Loaded (lease :: rest)) :
    reg.Relieves (fun r => (r.granted lease).toNat) (reg.release lease) := by
  unfold Registry.Relieves Registry.release Registry.modify
  rw [List.map_map]
  refine List.map_congr_left fun r hr => ?_
  have hload := h.load r hr
  rw [List.countP_cons] at hload
  dsimp only [Function.comp_apply]
  split
  next hw =>
    split
    next hs =>
      have hg : r.granted lease := by simp [Registration.granted, hw, hs]
      have hstill : Registration.granted { r with load := r.load - 1 } lease = true := hg
      rw [if_pos hg] at hload
      rw [hstill]
      exact congrArg (r.workerId, r.seq, ·) (by rw [hload]; rfl)
    next hs =>
      have hg : r.granted lease = false := by simp [Registration.granted, Ne.symm hs]
      rw [hg]
      rfl
  next hw =>
    have hg : r.granted lease = false := by simp [Registration.granted, Ne.symm hw]
    rw [hg]
    rfl

theorem Registry.Relieves.of_reported {workerId : String} {success : Bool} {now : Nat}
    {given : Registration → Nat} {reg' : Registry}
    (h : (reg.reportOutcome workerId success now).1.Relieves given reg') :
    reg.Relieves given reg' :=
  h.trans (Registry.map_workers_reportOutcome (fun _ _ => rfl) reg workerId success now)

namespace Call

theorem Ends.prepared (h : call.Ends reg pool .prepared left) : left = (reg, pool.release) := by
  cases h
  rfl

theorem Ends.underway (h : call.Ends reg pool .underway left) : ∃ told,
    (told = reg ∨ ∃ success now,
      told = (reg.reportOutcome call.assignment.workerId success now).1) ∧
    left = call.release told pool := by
  cases h with
  | concludes cancelled outcome now =>
    unfold conclude
    split
    · exact ⟨reg, .inl rfl, rfl⟩
    · split
      · exact ⟨reg, .inl rfl, rfl⟩
      · exact ⟨_, .inr ⟨outcome.isSuccess, now, rfl⟩, rfl⟩
  | drops => exact ⟨reg, .inl rfl, rfl⟩

theorem Ends.slots (h : call.Ends reg pool stage left) : left.2 = pool.release := by
  cases stage with
  | prepared => rw [h.prepared]
  | underway =>
    obtain ⟨told, -, rfl⟩ := h.underway
    rfl

theorem Ends.loaded (h : call.Ends reg pool stage left) (hl : reg.Loaded (call.lease :: rest)) :
    left.1.Loaded (if stage = .prepared then call.lease :: rest else rest) := by
  cases stage with
  | prepared =>
    rw [h.prepared]
    exact hl
  | underway =>
    obtain ⟨told, rfl | ⟨success, now, rfl⟩, rfl⟩ := h.underway
    · exact hl.release
    · exact (hl.reportOutcome _ success now).release

theorem Ends.relieves (h : call.Ends reg pool stage left)
    (hl : reg.Loaded (call.lease :: rest)) :
    reg.Relieves (fun r => if stage = .prepared then 0 else (r.granted call.lease).toNat)
      left.1 := by
  cases stage with
  | prepared =>
    rw [h.prepared]
    exact List.map_congr_left fun _ _ => rfl
  | underway =>
    obtain ⟨told, rfl | ⟨success, now, rfl⟩, rfl⟩ := h.underway
    · exact hl.relieves_release
    · exact (hl.reportOutcome _ success now).relieves_release.of_reported

end Call

end

-- ---------------------------------------------------------------------------
-- Accounts
-- ---------------------------------------------------------------------------

namespace Switchboard

variable {d d' : Switchboard} {capacity : Nat}

/-- All slots of the pool, and all that the workers have to do, are accounted for. -/
structure Accounted (capacity : Nat) (d : Switchboard) : Prop where
  slots : d.slots.free + d.held + d.inHand.length = capacity
  loaded : d.registry.Loaded d.leases

theorem accounted_start {rules : BreakerRules} {slots : Slots}
    (h : Slots.ofCapacity capacity = some slots) :
    Accounted (max capacity 1) ⟨{ rules }, slots, 0, [], [], []⟩ := by
  refine ⟨?_, Registry.loaded_empty rules⟩
  unfold Slots.ofCapacity at h
  dsimp only at h
  split at h
  · obtain rfl := Option.some.inj h
    rfl
  · cases h

section
variable {call : Call} {stage : Call.Stage} {before after : List (Call × Call.Stage)}

theorem inHand_perm (h : d.inHand = before ++ (call, stage) :: after) :
    d.leases.Perm
      (call.lease :: ((before ++ after).map (·.1.lease) ++ (d.loose ++ d.lost))) := by
  have hp : (d.inHand.map (·.1.lease)).Perm
      (call.lease :: (before ++ after).map (·.1.lease)) := by
    rw [h]
    exact List.perm_middle.map _
  exact hp.append_right _

theorem Accounted.ends {left : Registry × Slots} (h : d.Accounted capacity)
    (hd : d.inHand = before ++ (call, stage) :: after)
    (he : call.Ends d.registry d.slots stage left) :
    Accounted capacity
      { d with
        registry := left.1
        slots := left.2
        inHand := before ++ after
        lost := if stage = .prepared then call.lease :: d.lost else d.lost } := by
  refine ⟨?_, (he.loaded (h.loaded.perm (inHand_perm hd))).perm ?_⟩
  · have hslots := h.slots
    rw [hd, List.length_append, List.length_cons] at hslots
    rw [he.slots, List.length_append, Slots.release]
    dsimp only
    omega
  · cases stage with
    | prepared =>
      -- the lease moves from the calls in hand to those that are lost
      unfold leases
      rw [if_pos rfl, if_pos rfl, ← List.append_assoc, ← List.append_assoc]
      exact List.perm_middle.symm
    | underway => exact .refl _

end

theorem loose_perm {lease : Lease} {before after : List Lease}
    (h : d.loose = before ++ lease :: after) : d.leases.Perm
      (lease :: (d.inHand.map (·.1.lease) ++ (before ++ after ++ d.lost))) := by
  unfold leases
  rw [h, List.append_assoc, List.append_assoc, List.cons_append, ← List.append_assoc _ before,
    ← List.append_assoc _ before]
  exact List.perm_middle

theorem Accounted.step (h : d.Accounted capacity) (hs : d.Step d') : d'.Accounted capacity := by
  cases hs with
  | tends hc => exact ⟨h.slots, h.loaded.care hc⟩
  | reports workerId success now => exact ⟨h.slots, h.loaded.reportOutcome workerId success now⟩
  | lends hg => exact ⟨h.slots, (h.loaded.grant hg).perm List.perm_middle.symm⟩
  | returns hl => exact ⟨h.slots, (h.loaded.perm (loose_perm hl)).release⟩
  | reserves hr =>
    have hfree := congrArg Slots.free (Slots.release_of_reserve hr)
    rw [Slots.release] at hfree
    have hslots := h.slots
    exact ⟨by dsimp only at hfree ⊢; omega, h.loaded⟩
  | frees hh =>
    have hslots := h.slots
    exact ⟨by dsimp only [Slots.release]; omega, h.loaded⟩
  | prepares hh hl =>
    have hslots := h.slots
    exact ⟨by dsimp only [List.length_cons]; omega, h.loaded.perm (loose_perm hl)⟩
  | waits hw =>
    have hslots := h.slots
    have hloaded := h.loaded
    unfold leases at hloaded
    rw [hw, List.length_append, List.length_cons] at hslots
    rw [hw, List.map_append, List.map_cons] at hloaded
    refine ⟨?_, ?_⟩
    · rw [List.length_append, List.length_cons]
      exact hslots
    · unfold leases
      rw [List.map_append, List.map_cons]
      exact hloaded
  | ends hd he => exact h.ends hd he

theorem Accounted.steps (h : d.Accounted capacity) (hs : Steps d d') : d'.Accounted capacity := by
  induction hs with
  | refl => exact h
  | tail _ hs ih => exact ih.step hs

theorem Reached.accounted (h : Reached capacity d) : d.Accounted (max capacity 1) := by
  obtain ⟨rules, slots, hslots, hs⟩ := h
  exact (accounted_start hslots).steps hs

-- ---------------------------------------------------------------------------
-- What comes back
-- ---------------------------------------------------------------------------

theorem Step.lost {lease : Lease} (h : d.Step d') (hl : lease ∈ d.lost) : lease ∈ d'.lost := by
  cases h with
  | ends hd he =>
    dsimp only
    split
    · exact List.mem_cons_of_mem _ hl
    · exact hl
  | _ => exact hl

theorem Steps.lost {lease : Lease} (h : Steps d d') (hl : lease ∈ d.lost) : lease ∈ d'.lost := by
  induction h with
  | refl => exact hl
  | tail _ hs ih => exact hs.lost ih

/-- A slot is free, held, or that of one call in hand, and the load of a worker counts the leases
for its registration. However a call in hand ends, its slot comes back exactly once, and so does the
load of its registration, and nobody else's, if anybody had begun to wait for it. If nobody had, no
load ever comes back: as long as the registration is there, it has some. -/
theorem given_back (h : Reached capacity d) :
    d.slots.free + d.held + d.inHand.length = max capacity 1 ∧
    (∀ r ∈ d.registry.workers, r.load = d.leases.countP r.granted) ∧
    (∀ call stage left, (call, stage) ∈ d.inHand → call.Ends d.registry d.slots stage left →
      left.2 = d.slots.release ∧
      d.registry.Relieves (fun r => if stage = .prepared then 0 else (r.granted call.lease).toNat)
        left.1) ∧
    ∀ lease ∈ d.lost, ∀ d', Steps d d' → ∀ r ∈ d'.registry.workers, r.granted lease →
      0 < r.load := by
  have haccounts := h.accounted
  refine ⟨haccounts.slots, haccounts.loaded.load, fun call stage left hm he => ?_,
    fun lease hl d' hs r hr hg => ?_⟩
  · obtain ⟨before, after, hd⟩ := List.append_of_mem hm
    exact ⟨he.slots, he.relieves (haccounts.loaded.perm (inHand_perm hd))⟩
  · rw [(haccounts.steps hs).loaded.load r hr]
    have hmem : lease ∈ d'.leases :=
      List.mem_append_right _ (List.mem_append_right _ (hs.lost hl))
    exact List.countP_pos_iff.mpr ⟨lease, hmem, hg⟩

def ring : Call :=
  { assignment := ⟨0, "call", "operator", 1, 0⟩, lease := ⟨"operator", 0, 0⟩, payload := .null,
    timeout := 1000 }

def staffed : Registry :=
  Registry.register { rules := ⟨1, 50⟩ } ⟨"operator", ["line"], 1.0⟩ 0

def ringing (stage : Call.Stage) : Switchboard :=
  { registry := (staffed.grant "operator").1, slots := ⟨1, 0⟩, inHand := [(ring, stage)] }

theorem reached_prepared : Reached 1 (ringing .prepared) := by
  have hlease : (staffed.grant "operator").2 = some ring.lease := by decide +kernel
  exact ⟨⟨1, 50⟩, ⟨1, 1⟩, rfl,
    (((Relation.ReflTransGen.single (.tends (.registers ⟨"operator", ["line"], 1.0⟩ 0))).tail
      (.lends hlease)).tail (.reserves rfl)).tail
        (@Step.prepares _ ring 0 [] [] rfl rfl)⟩

theorem reached_underway : Reached 1 (ringing .underway) := by
  obtain ⟨rules, slots, hslots, hs⟩ := reached_prepared
  exact ⟨rules, slots, hslots, hs.tail (@Step.waits _ ring [] [] rfl)⟩

/-- A call that is waited for leaves a free slot and an idle worker, whatever becomes of it. -/
theorem ring_given_back :
    Reached 1 (ringing .underway) ∧ (ring, .underway) ∈ (ringing .underway).inHand ∧
    ∀ left, ring.Ends (ringing .underway).registry (ringing .underway).slots .underway left →
      left.2 = ⟨1, 1⟩ ∧
        (ringing .underway).registry.Relieves (fun r => (r.granted ring.lease).toNat) left.1 := by
  have hm : (ring, .underway) ∈ (ringing .underway).inHand := List.mem_singleton_self _
  exact ⟨reached_underway, hm, fun left he =>
    (given_back reached_underway).2.2.1 ring .underway left hm he⟩

/-- A call that is dropped before anybody waits for it leaves a free slot, and a worker that has
load with no call in hand. Once its breaker has been open it is not chosen again. -/
theorem dropped_unheard :
    let d := ringing .prepared
    let left := ring.drop .prepared d.registry d.slots
    Reached 1 d ∧ d.inHand = [(ring, .prepared)] ∧
      ring.Ends d.registry d.slots .prepared left ∧ left.2 = ⟨1, 1⟩ ∧
      ¬ d.registry.Relieves (fun r => (r.granted ring.lease).toNat) left.1 ∧
      left.1.workers.map (·.load) = [1] ∧
      ((left.1.reportOutcome "operator" false 0).1.selectFor "line" 1000).2 = [] := by
  refine ⟨reached_prepared, rfl, .drops .prepared, rfl, ?_, ?_, ?_⟩
  · unfold Registry.Relieves
    decide +kernel
  · decide +kernel
  · decide +kernel

end Switchboard

end Crew
