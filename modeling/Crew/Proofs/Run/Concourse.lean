import Crew.Proofs.Run.Attempts

/-!
# Runs that share a registry

In a concourse any number of runs use one registry, one at a time and in any order, while the clock
goes on, runs are cancelled and workers come and go. Others may use the registry by hand as well:
they ask for workers, report outcomes, take leases and give back each of them once.

What was noted of the runs records with which registry every call was made, and is never changed.
The main statement is `Concourse.single_trial`: calls go to workers that may take them, and of the
calls in flight under one registration no more than one was begun while the worker was on trial.
-/

namespace Crew

open Registry (Rests)

structure Member where
  run : Run
  cancelled : Bool := false
  phase : Phase := .pass

def Member.leases (m : Member) : List Lease := m.run.calls.map (·.lease)

def Course.member (c : Course) : Member := ⟨c.run, c.cancelled, c.phase⟩

namespace Member

variable {m : Member} {task : Task} {attempt now : Nat} {leases : List Lease}

def issued (m : Member) (task : Task) (attempt now : Nat) (leases : List Lease) : List Call :=
  Run.issued task attempt now leases m.run.session.lastAssignment

def send (m : Member) (task : Task) (attempt now : Nat) (leases : List Lease) : Member :=
  { m with run := leases.foldl (Run.place task attempt now) (m.run.opened task) }

theorem calls_send : (m.send task attempt now leases).run.calls =
    m.run.calls ++ m.issued task attempt now leases :=
  Run.foldl_place_calls leases (m.run.opened task)

theorem leases_send : (m.send task attempt now leases).leases =
    m.leases ++ (m.issued task attempt now leases).map (·.lease) := by
  rw [Member.leases, calls_send, List.map_append, Member.leases]

theorem lastAssignment_send : (m.send task attempt now leases).run.session.lastAssignment =
    m.run.session.lastAssignment + leases.length :=
  Run.lastAssignment_foldl_place leases (m.run.opened task)

end Member

/-- `held` are the leases that were taken by hand. -/
structure Concourse where
  registry : Registry
  now : Nat
  members : List Member := []
  held : List Lease := []

namespace Concourse

/-- A member sees the registry and the clock of the concourse. -/
def course (k : Concourse) (m : Member) : Course where
  run := m.run
  registry := k.registry
  now := k.now
  cancelled := m.cancelled
  phase := m.phase

def leases (k : Concourse) : List Lease := k.held ++ k.members.flatMap (·.leases)

def InFlight (k : Concourse) (i : Nat) (call : Call) : Prop :=
  ∃ m, k.members[i]? = some m ∧ call ∈ m.run.calls

/-- A step, with what is noted of it and of which member. -/
inductive Step (k : Concourse) : List (Nat × Note) → Concourse → Prop
  | joins {o : Opening} {c : Course} (hr : o.registry = k.registry) (hn : o.now = k.now)
    (hc : o.course = .ok c) :
    Step k [] { k with registry := c.registry, members := k.members ++ [c.member] }
  | acts {i : Nat} {m : Member} {notes : List Note} {c : Course} (hm : k.members[i]? = some m)
    (hd : (k.course m).Does notes c) :
    Step k (notes.map (i, ·))
      { k with registry := c.registry, members := k.members.set i c.member }
  | cancels {i : Nat} {m : Member} (hm : k.members[i]? = some m) :
    Step k [] { k with members := k.members.set i { m with cancelled := true } }
  | advances {now : Nat} (h : k.now ≤ now) : Step k [] { k with now }
  | tends {registry : Registry} (h : k.registry.Care registry) : Step k [] { k with registry }
  | reports (workerId : String) (success : Bool) :
    Step k [] { k with registry := (k.registry.reportOutcome workerId success k.now).1 }
  | takes {workerId : String} {lease : Lease}
    (h : (k.registry.grant workerId).2 = some lease) :
    Step k [] { k with registry := (k.registry.grant workerId).1, held := lease :: k.held }
  | returns {before after : List Lease} {lease : Lease} (h : k.held = before ++ lease :: after) :
    Step k [] { k with registry := k.registry.release lease, held := before ++ after }

/-- What comes of a registry without workers, with all that was noted on the way. -/
inductive History : List (Nat × Note) → Concourse → Prop
  | empty (rules : BreakerRules) (now : Nat) : History [] { registry := { rules }, now }
  | step {log notes : List (Nat × Note)} {k k' : Concourse} (h : History log k)
    (hs : k.Step notes k') : History (log ++ notes) k'

/-- The call was begun by the member with the given number, with the registry as it found it. -/
def Begun (log : List (Nat × Note)) (i : Nat) (x : Registry × Call) : Prop :=
  ∃ task calls, (i, .sent task calls) ∈ log ∧ x ∈ calls

/-- A call in flight that was begun while its worker was degraded. -/
structure Trial (log : List (Nat × Note)) (k : Concourse) (i : Nat) (x : Registry × Call) :
    Prop where
  begun : Begun log i x
  inFlight : k.InFlight i x.2
  degraded : ∃ r, x.1.find? x.2.lease.workerId = some r ∧ r.breaker.health = .degraded

structure Later (m m' : Member) : Prop where
  policy : m'.run.policy = m.run.policy
  last : m.run.session.lastAssignment ≤ m'.run.session.lastAssignment

structure Orderly (log : List (Nat × Note)) (k : Concourse) : Prop where
  loaded : k.registry.Loaded k.leases
  sound : ∀ m ∈ k.members, m.run.Sound
  known : ∀ i x, Begun log i x →
    ∃ m, k.members[i]? = some m ∧ x.2.assignment.id ≤ m.run.session.lastAssignment
  fair : ∀ i task calls, (i, .sent task calls) ∈ log →
    ∃ m, k.members[i]? = some m ∧ m.run.policy.Fair task calls
  noted : ∀ i call, k.InFlight i call → ∃ x, Begun log i x ∧ x.2 = call
  single : ∀ i j x y, Trial log k i x → Trial log k j y →
    x.2.lease.workerId = y.2.lease.workerId → x.2.lease.seq = y.2.lease.seq →
    i = j ∧ x.2 = y.2

variable {k k' : Concourse} {log notes : List (Nat × Note)} {i j : Nat} {m m' : Member}
  {call : Call} {x : Registry × Call}

theorem begun_append : Begun (log ++ notes) i x ↔ Begun log i x ∨ Begun notes i x := by
  simp only [Begun, List.mem_append]
  constructor
  · rintro ⟨task, calls, hm | hm, hx⟩
    · exact .inl ⟨task, calls, hm, hx⟩
    · exact .inr ⟨task, calls, hm, hx⟩
  · rintro (⟨task, calls, hm, hx⟩ | ⟨task, calls, hm, hx⟩)
    · exact ⟨task, calls, .inl hm, hx⟩
    · exact ⟨task, calls, .inr hm, hx⟩

theorem begun_sent {task : Task} {calls : List (Registry × Call)} :
    Begun [(j, .sent task calls)] i x ↔ i = j ∧ x ∈ calls := by
  simp [Begun, and_assoc]

theorem not_sent_endNotes {run : Run} {reg : Registry} {n now : Nat} {cancelled : Bool}
    {outcome : Outcome} {task : Task} {calls : List (Registry × Call)} :
    (j, .sent task calls) ∉ (run.endNotes reg n cancelled outcome now).map (i, ·) := by
  unfold Run.endNotes
  split <;> simp

-- ---------------------------------------------------------------------------
-- One member is changed
-- ---------------------------------------------------------------------------

theorem lt_length (hm : k.members[i]? = some m) : i < k.members.length :=
  (List.getElem?_eq_some_iff.mp hm).1

theorem set_self (hm : k.members[i]? = some m) : k.members.set i m = k.members := by
  obtain ⟨hlt, rfl⟩ := List.getElem?_eq_some_iff.mp hm
  exact List.set_getElem_self hlt

theorem getElem?_set_self (hm : k.members[i]? = some m) (m' : Member) :
    (k.members.set i m')[i]? = some m' := by
  simp [lt_length hm]

theorem Later.refl (m : Member) : Later m m := ⟨rfl, Nat.le_refl _⟩

theorem Later.fair {task : Task} {calls : List (Registry × Call)} (h : Later m m')
    (hf : m.run.policy.Fair task calls) : m'.run.policy.Fair task calls := by
  rw [h.policy]
  exact hf

theorem exists_later {q : Member} (hm : k.members[i]? = some m) (hl : Later m m')
    (hq : k.members[j]? = some q) :
    ∃ q' : Member, (k.members.set i m')[j]? = some q' ∧ Later q q' := by
  by_cases he : i = j
  · subst he
    obtain rfl : m = q := Option.some.inj (hm.symm.trans hq)
    exact ⟨m', getElem?_set_self hm m', hl⟩
  · exact ⟨q, by simp [he, hq], .refl q⟩

theorem exists_others {members : List Member} (hm : members[i]? = some m) :
    ∃ others : List Lease, ∀ m' : Member,
      ((members.set i m').flatMap (·.leases)).Perm (m'.leases ++ others) := by
  induction members generalizing i with
  | nil => simp at hm
  | cons first rest ih =>
    cases i with
    | zero => exact ⟨rest.flatMap (·.leases), fun m' => by simp⟩
    | succ i =>
      obtain ⟨others, ho⟩ := ih (by simpa using hm)
      refine ⟨first.leases ++ others, fun m' => ?_⟩
      rw [List.set_cons_succ, List.flatMap_cons]
      exact ((ho m').append_left first.leases).trans
        (by simpa using List.perm_append_comm_assoc _ _ _)

theorem leases_set (registry : Registry) (hm : k.members[i]? = some m) :
    ∃ others : List Lease, k.leases.Perm (m.leases ++ others) ∧ ∀ m' : Member,
      leases { k with registry, members := k.members.set i m' } |>.Perm (m'.leases ++ others) := by
  obtain ⟨others, ho⟩ := exists_others hm
  have hset (m' : Member) :
      (k.held ++ (k.members.set i m').flatMap (·.leases)).Perm
        (m'.leases ++ (k.held ++ others)) :=
    ((ho m').append_left k.held).trans (List.perm_append_comm_assoc _ _ _)
  refine ⟨k.held ++ others, ?_, hset⟩
  have h := hset m
  rwa [set_self hm] at h

theorem inFlight_set {registry : Registry} (hm : k.members[i]? = some m) :
    InFlight { k with registry, members := k.members.set i m' } j call ↔
      if j = i then call ∈ m'.run.calls else k.InFlight j call := by
  simp only [InFlight, List.getElem?_set]
  by_cases he : i = j
  · subst he
    simp [lt_length hm]
  · simp [he, Ne.symm he]

theorem inFlight_of_set {registry : Registry} (hm : k.members[i]? = some m)
    (hc : ∀ call ∈ m'.run.calls, call ∈ m.run.calls)
    (h : InFlight { k with registry, members := k.members.set i m' } j call) :
    k.InFlight j call := by
  rw [inFlight_set hm] at h
  split at h
  next he => exact ⟨m, he ▸ hm, hc call h⟩
  · exact h

theorem mem_leases (h : k.InFlight i call) : call.lease ∈ k.leases := by
  obtain ⟨m, hm, hc⟩ := h
  refine List.mem_append_right _ (List.mem_flatMap.mpr ⟨m, List.mem_of_getElem? hm, ?_⟩)
  exact List.mem_map_of_mem hc

-- ---------------------------------------------------------------------------
-- Order is kept
-- ---------------------------------------------------------------------------

theorem Orderly.fewer (h : Orderly log k) (hl : k'.registry.Loaded k'.leases)
    (hs : ∀ m ∈ k'.members, m.run.Sound)
    (hk : ∀ i : Nat, ∀ m : Member, k.members[i]? = some m →
      ∃ m' : Member, k'.members[i]? = some m' ∧ Later m m')
    (hf : ∀ i call, k'.InFlight i call → k.InFlight i call) : Orderly log k' := by
  refine ⟨hl, hs, fun i x hx => ?_, fun i task calls hc => ?_,
    fun i call hc => h.noted i call (hf i call hc),
    fun i j x y hx hy => h.single i j x y ⟨hx.begun, hf _ _ hx.inFlight, hx.degraded⟩
      ⟨hy.begun, hf _ _ hy.inFlight, hy.degraded⟩⟩
  · obtain ⟨m, hm, hle⟩ := h.known i x hx
    obtain ⟨m', hm', hlater⟩ := hk i m hm
    exact ⟨m', hm', Nat.le_trans hle hlater.last⟩
  · obtain ⟨m, hm, hfair⟩ := h.fair i task calls hc
    obtain ⟨m', hm', hlater⟩ := hk i m hm
    exact ⟨m', hm', hlater.fair hfair⟩

theorem Orderly.set (registry : Registry) (m' : Member) (h : Orderly log k)
    (hm : k.members[i]? = some m) (hs : m'.run.Sound)
    (hl : ∀ others : List Lease, k.registry.Loaded (m.leases ++ others) →
      registry.Loaded (m'.leases ++ others))
    (hlater : Later m m') (hc : ∀ call ∈ m'.run.calls, call ∈ m.run.calls) :
    Orderly log { k with registry, members := k.members.set i m' } := by
  obtain ⟨others, hperm, hset⟩ := leases_set registry hm
  refine h.fewer ((hl others (h.loaded.perm hperm)).perm (hset m').symm) (fun q hq => ?_)
    (fun j q hq => exists_later hm hlater hq) fun j call => inFlight_of_set hm hc
  rcases List.mem_or_eq_of_mem_set hq with hq | rfl
  · exact h.sound q hq
  · exact hs

theorem Orderly.aside {registry : Registry} {held : List Lease} {now : Nat} (h : Orderly log k)
    (hl : registry.Loaded (held ++ k.members.flatMap (·.leases))) :
    Orderly log { k with registry, held, now } :=
  h.fewer hl h.sound (fun _ m hm => ⟨m, hm, .refl m⟩) fun _ _ hc => hc

theorem Orderly.append (h : Orderly log k)
    (hn : ∀ i task calls, (i, .sent task calls) ∉ notes) : Orderly (log ++ notes) k := by
  have hb {i : Nat} {x : Registry × Call} : Begun (log ++ notes) i x ↔ Begun log i x := by
    rw [begun_append]
    refine or_iff_left ?_
    rintro ⟨task, calls, hm, -⟩
    exact hn i task calls hm
  refine ⟨h.loaded, h.sound, fun i x hx => h.known i x (hb.mp hx), fun i task calls hc => ?_,
    fun i call hc => ?_,
    fun i j x y hx hy => h.single i j x y ⟨hb.mp hx.begun, hx.inFlight, hx.degraded⟩
      ⟨hb.mp hy.begun, hy.inFlight, hy.degraded⟩⟩
  · rcases List.mem_append.mp hc with hc | hc
    · exact h.fair i task calls hc
    · exact absurd hc (hn i task calls)
  · obtain ⟨x, hx, he⟩ := h.noted i call hc
    exact ⟨x, hb.mpr hx, he⟩

-- ---------------------------------------------------------------------------
-- An attempt is sent out
-- ---------------------------------------------------------------------------

def send (k : Concourse) (i : Nat) (m : Member) (task : Task) (attempt now : Nat)
    (leases : List Lease) : Concourse :=
  { k with
    registry := (m.issued task attempt now leases).foldl (Registry.lend m.run.session.runId)
      k.registry
    members := k.members.set i (m.send task attempt now leases) }

def sendings (k : Concourse) (m : Member) (task : Task) (attempt now : Nat)
    (leases : List Lease) : List (Registry × Call) :=
  Registry.moments m.run.session.runId k.registry (m.issued task attempt now leases)

section
variable {task : Task} {attempt now : Nat} {leases : List Lease}

theorem mem_issued_of_sendings (hx : x ∈ k.sendings m task attempt now leases) :
    x.2 ∈ m.issued task attempt now leases :=
  Registry.mem_of_mem_moments hx

theorem inFlight_send (hm : k.members[i]? = some m) :
    (k.send i m task attempt now leases).InFlight j call ↔
      k.InFlight j call ∨ j = i ∧ call ∈ m.issued task attempt now leases := by
  rw [send, inFlight_set hm, Member.calls_send, List.mem_append]
  split
  next he =>
    subst he
    simp [InFlight, hm]
  next he => simp [he]

theorem Orderly.not_issued (h : Orderly log k) (hm : k.members[i]? = some m)
    (hx : Begun log i x) : x.2 ∉ m.issued task attempt now leases := by
  intro hc
  obtain ⟨q, hq, hle⟩ := h.known i x hx
  obtain rfl : m = q := Option.some.inj (hm.symm.trans hq)
  exact Nat.not_lt.mpr hle (Run.id_of_mem_issued hc).1

theorem Orderly.trial_send (h : Orderly log k) (hm : k.members[i]? = some m)
    (hx : Trial (log ++ [(i, .sent task (k.sendings m task attempt now leases))])
      (k.send i m task attempt now leases) j x) :
    Trial log k j x ∨ j = i ∧ x ∈ k.sendings m task attempt now leases := by
  rcases begun_append.mp hx.begun with hb | hb
  · rcases (inFlight_send hm).mp hx.inFlight with hf | ⟨rfl, hc⟩
    · exact .inl ⟨hb, hf, hx.degraded⟩
    · exact absurd hc (h.not_issued hm hb)
  · exact .inr (begun_sent.mp hb)

/-- A worker on trial had no load, so that no other call to it was in flight. -/
theorem Orderly.alone (h : Orderly log k) (hs : m.run.Sending k.registry task attempt leases)
    (hx : x ∈ k.sendings m task attempt now leases)
    (hd : ∃ r, x.1.find? x.2.lease.workerId = some r ∧ r.breaker.health = .degraded)
    (hc : k.InFlight j call) (hw : x.2.lease.workerId = call.lease.workerId) :
    x.2.lease.seq ≠ call.lease.seq := by
  intro hseq
  obtain ⟨q, hq, hdegraded⟩ := hd
  obtain ⟨r, hfound, hr, -, heligible, hlease⟩ := hs.moment hx
  obtain rfl : q = r := Option.some.inj (hq.symm.trans hfound)
  have hload : q.load = 0 := by simpa [Registration.isEligible, hdegraded] using heligible
  have hnone := h.loaded.not_granted hr hload (mem_leases hc)
  have hid : q.workerId = x.2.lease.workerId :=
    ((Registry.find?_eq_some h.loaded.distinct).mp hr).2
  have hnumber : x.2.lease.seq = q.seq := congrArg Lease.seq hlease
  simp [Registration.granted, hid, hw, ← hseq, hnumber] at hnone

theorem Orderly.send (h : Orderly log k) (hm : k.members[i]? = some m)
    (ht : task ∈ m.run.session.graph.tasks) (hr : m.run.session.isReady task)
    (hs : m.run.Sending k.registry task attempt leases) (now : Nat) :
    Orderly (log ++ [(i, .sent task (k.sendings m task attempt now leases))])
      (k.send i m task attempt now leases) := by
  have hworkers := hs.nodup_workers now m.run.session.lastAssignment
  have hround : Run.Rounds m.run (m.send task attempt now leases).run :=
    .single (hs.round ht hr now)
  have hlater : Later m (m.send task attempt now leases) :=
    ⟨hround.policy, hround.lastAssignment_le⟩
  refine ⟨?_, fun q hq => ?_, fun j x hx => ?_, fun j other calls hc => ?_, fun j call hf => ?_,
    fun j l x y hx hy hworker hseq => ?_⟩
  · -- the new leases are those of the calls, and the leases of all others stay
    obtain ⟨others, hperm, hset⟩ := leases_set (k.send i m task attempt now leases).registry hm
    have hlent := (h.loaded.perm hperm).lends m.run.session.runId hworkers fun _ => hs.granted
    refine hlent.perm (.trans ?_ (hset _).symm)
    rw [Member.leases_send, List.append_assoc]
    exact List.perm_append_comm_assoc _ _ _
  · rcases List.mem_or_eq_of_mem_set hq with hq | rfl
    · exact h.sound q hq
    · exact (h.sound m (List.mem_of_getElem? hm)).rounds hround
  · rcases begun_append.mp hx with hb | hb
    · obtain ⟨q, hq, hold⟩ := h.known j x hb
      obtain ⟨q', hq', hl⟩ := exists_later hm hlater hq
      exact ⟨q', hq', Nat.le_trans hold hl.last⟩
    · obtain ⟨rfl, hnew⟩ := begun_sent.mp hb
      refine ⟨_, getElem?_set_self hm _, ?_⟩
      rw [Member.lastAssignment_send]
      exact (Run.id_of_mem_issued (mem_issued_of_sendings hnew)).2
  · rcases List.mem_append.mp hc with hc | hc
    · obtain ⟨q, hq, hfair⟩ := h.fair j other calls hc
      obtain ⟨q', hq', hl⟩ := exists_later hm hlater hq
      exact ⟨q', hq', hl.fair hfair⟩
    · cases List.mem_singleton.mp hc
      exact ⟨_, getElem?_set_self hm _, hlater.fair (hs.fair _ _ _)⟩
  · rcases (inFlight_send hm).mp hf with hf | ⟨rfl, hc⟩
    · obtain ⟨x, hx, he⟩ := h.noted j call hf
      exact ⟨x, begun_append.mpr (.inl hx), he⟩
    · rw [← Registry.map_snd_moments m.run.session.runId k.registry (m.issued _ _ _ _)] at hc
      obtain ⟨x, hx, he⟩ := List.mem_map.mp hc
      exact ⟨x, begun_append.mpr (.inr (begun_sent.mpr ⟨rfl, hx⟩)), he⟩
  · -- two new trials are one call, since the workers of an attempt differ; a new one beside an old
    -- one would have found its worker with a load
    rcases h.trial_send hm hx with hx' | ⟨rfl, hx'⟩
    · rcases h.trial_send hm hy with hy' | ⟨rfl, hy'⟩
      · exact h.single j l x y hx' hy' hworker hseq
      · exact absurd hseq.symm (h.alone hs hy' hy.degraded hx'.inFlight hworker.symm)
    · rcases h.trial_send hm hy with hy' | ⟨rfl, hy'⟩
      · exact absurd hseq (h.alone hs hx' hx.degraded hy'.inFlight hworker)
      · exact ⟨rfl, List.inj_on_of_nodup_map hworkers (mem_issued_of_sendings hx')
          (mem_issued_of_sendings hy') hworker⟩

end

theorem Orderly.passage {notes : List Note} {run : Run} {registry : Registry} {now : Nat}
    (h : Orderly log k) (hm : k.members[i]? = some m)
    (hp : m.run.Passage now k.registry notes run registry) :
    Orderly (log ++ notes.map (i, ·))
      { k with registry, members := k.members.set i { m with run } } := by
  -- the member is replaced once for every attempt, and the last replacement is what remains
  induction hp with
  | start =>
    have hself : k.members.set i { m with run := m.run } = k.members := set_self hm
    rw [hself, List.map_nil, List.append_nil]
    exact h
  | @idles notes run₁ run₂ reg₁ reg₂ hp hr hc hq ih =>
    have hm₁ := getElem?_set_self hm { m with run := run₁ }
    have hs := (ih.sound _ (List.mem_of_getElem? hm₁)).rounds hr
    have hleases : Member.leases { m with run := run₂ } = Member.leases { m with run := run₁ } := by
      rw [Member.leases, hc, Member.leases]
    have hset := ih.set reg₂ { m with run := run₂ } hm₁ hs
      (fun others hl => hleases ▸ hl.rests hq) ⟨hr.policy, hr.lastAssignment_le⟩
      fun call hcall => hc ▸ hcall
    simpa only [List.set_set] using hset
  | @sends notes run₁ reg₁ task attempt leases hp ht hr hs ih =>
    have hsend := ih.send (getElem?_set_self hm { m with run := run₁ }) ht hr hs now
    rw [Concourse.send, List.set_set] at hsend
    rw [List.map_append, ← List.append_assoc]
    exact hsend

-- ---------------------------------------------------------------------------
-- Histories
-- ---------------------------------------------------------------------------

theorem Orderly.acts {notes : List Note} {c : Course} (h : Orderly log k)
    (hm : k.members[i]? = some m) (hd : (k.course m).Does notes c) :
    Orderly (log ++ notes.map (i, ·))
      { k with registry := c.registry, members := k.members.set i c.member } := by
  have hs := h.sound m (List.mem_of_getElem? hm)
  cases hd with
  | pass =>
    have hpass := h.passage hm (m.run.pass_passage k.registry k.now hs.books.distinct
      h.loaded.distinct)
    have hm' := getElem?_set_self hm { m with run := (m.run.pass k.registry k.now).1 }
    have hs' : (k.course m).pass.run.Sound := hpass.sound _ (List.mem_of_getElem? hm')
    have hset := hpass.set (k.course m).pass.registry (k.course m).pass.member hm' hs'
      (fun _ hl => hl) ⟨rfl, Nat.le_refl _⟩ fun _ hc => hc
    rw [List.set_set] at hset
    exact hset
  | complete _ n outcome =>
    have hlater : Later m ((k.course m).complete n outcome).member ∧
        ∀ call ∈ ((k.course m).complete n outcome).run.calls, call ∈ m.run.calls := by
      rcases (k.course m).complete_cases n outcome with he | ⟨call, -, -, hr⟩
      · rw [he]
        exact ⟨⟨congrArg Run.policy he, Nat.le_of_eq (by rw [Course.member, he]; rfl)⟩,
          fun _ hc => hc⟩
      · rw [hr.calls]
        exact ⟨⟨hr.policy, Nat.le_of_eq hr.fields.2.2.2.1.symm⟩,
          fun _ hc => List.mem_of_mem_filter hc⟩
    exact (h.append fun _ _ _ => not_sent_endNotes).set _ _ hm (hs.complete _ _ _ _)
      (fun _ hl => hs.loaded_complete hl _ _ _ _) hlater.1 hlater.2
  | wake | leave =>
    rw [List.map_nil, List.append_nil]
    exact h.set _ _ hm hs (fun _ hl => hl) ⟨rfl, Nat.le_refl _⟩ fun _ hc => hc
  | stop =>
    have hstop : (k.course m).stop.run = _ := m.run.cancel_eq k.registry
    rw [List.map_nil, List.append_nil]
    refine h.set _ _ hm (hs.cancel _) (fun _ hl => Run.loaded_cancel hl) ?_ fun call hc => ?_
    · rw [Course.member, hstop]
      exact ⟨rfl, Nat.le_refl _⟩
    · rw [Course.member, hstop] at hc
      cases hc

theorem Orderly.joins {c : Course} (h : Orderly log k) (hc : c.run.calls = [])
    (hs : c.run.Sound) (hq : Rests k.registry c.registry) :
    Orderly log { k with registry := c.registry, members := k.members ++ [c.member] } := by
  have hleases : c.member.leases = [] := by
    rw [Member.leases, Course.member, hc, List.map_nil]
  refine h.fewer ?_ (fun m hm => ?_) (fun i m hm => ?_) fun i call hf => ?_
  · have hall : leases { k with registry := c.registry, members := k.members ++ [c.member] } =
        k.leases := by
      simp [leases, hleases]
    rw [hall]
    exact h.loaded.rests hq
  · rcases List.mem_append.mp hm with hm | hm
    · exact h.sound m hm
    · obtain rfl := List.mem_singleton.mp hm
      exact hs
  · exact ⟨m, (List.getElem?_append_left (lt_length hm)).trans hm, .refl m⟩
  · obtain ⟨m, hm, hcall⟩ := hf
    dsimp only at hm
    rw [List.getElem?_append] at hm
    split at hm
    · exact ⟨m, hm, hcall⟩
    · obtain rfl := List.mem_singleton.mp (List.mem_of_getElem? hm)
      rw [Course.member, hc] at hcall
      cases hcall

theorem Orderly.step (h : Orderly log k) (hs : k.Step notes k') : Orderly (log ++ notes) k' := by
  cases hs with
  | @joins o c hr hn hc =>
    rw [List.append_nil]
    refine h.joins ?_ (Opening.sound_of_course hc).run (hr ▸ Opening.rests_course hc)
    obtain ⟨graph, registry, count, -, -, -, -, rfl⟩ := Opening.course_eq_ok.mp hc
    rfl
  | acts hm hd => exact h.acts hm hd
  | @cancels i m hm =>
    have hs : m.run.Sound := h.sound m (List.mem_of_getElem? hm)
    rw [List.append_nil]
    exact h.set _ _ hm hs (fun _ hl => hl) ⟨rfl, Nat.le_refl _⟩ fun _ hc => hc
  | advances =>
    rw [List.append_nil]
    exact h.aside h.loaded
  | tends hc =>
    rw [List.append_nil]
    exact h.aside (h.loaded.care hc)
  | reports workerId success =>
    rw [List.append_nil]
    exact h.aside (h.loaded.reportOutcome _ _ _)
  | takes hg =>
    rw [List.append_nil]
    exact h.aside (h.loaded.grant hg)
  | @returns before after lease he =>
    rw [List.append_nil]
    have hloaded :
        k.registry.Loaded (lease :: (before ++ after ++ k.members.flatMap (·.leases))) := by
      refine h.loaded.perm ?_
      rw [leases, he]
      simp
    exact h.aside hloaded.release

theorem History.orderly (h : History log k) : Orderly log k := by
  induction h with
  | empty rules now =>
    refine ⟨Registry.loaded_empty rules, List.forall_mem_nil _, ?_, ?_, ?_, ?_⟩
    · rintro i x ⟨task, calls, hm, -⟩
      cases hm
    · rintro i task calls hm
      cases hm
    · rintro i call ⟨m, hm, -⟩
      cases hm
    · rintro i j x y ⟨⟨task, calls, hm, -⟩, -, -⟩
      cases hm
  | step _ hs ih => exact ih.step hs

theorem Step.uses {task : Task} {calls : List (Registry × Call)} (h : History log k)
    (hs : k.Step notes k') (hm : (i, .sent task calls) ∈ notes) (hx : x ∈ calls) :
    Registry.Uses k.registry x.1 ∧ ∃ runId, Registry.Uses (x.1.lend runId x.2) k'.registry := by
  cases hs with
  | @acts j m notes c hj hd =>
    have hrun := h.orderly.sound m (List.mem_of_getElem? hj)
    cases hd with
    | pass =>
      obtain ⟨note, hnote, he⟩ := List.mem_map.mp hm
      cases he
      exact (m.run.pass_passage k.registry k.now hrun.books.distinct
        h.orderly.loaded.distinct).uses hnote hx
    | complete => exact absurd hm not_sent_endNotes
    | wake | leave | stop => cases hm
  | _ => cases hm

-- ---------------------------------------------------------------------------
-- One run by itself
-- ---------------------------------------------------------------------------

def alone (c : Course) : Concourse :=
  { registry := c.registry, now := c.now, members := [c.member] }

section
variable {o : Opening} {c c' : Course}

theorem History.opens (h : History [] { registry := o.registry, now := o.now })
    (hc : o.course = .ok c) : History [] (alone c) := by
  have hjoins := h.step (.joins rfl rfl hc)
  obtain ⟨graph, registry, count, -, -, -, -, rfl⟩ := Opening.course_eq_ok.mp hc
  exact hjoins

theorem History.does {notes : List Note} (h : History log (alone c)) (hd : c.Does notes c') :
    History (log ++ notes.map (0, ·)) (alone c') := by
  have hnow : c'.now = c.now := by cases hd <;> rfl
  have hs : (alone c).Step (notes.map (0, ·))
      { registry := c'.registry, now := c.now, members := [c'.member] } :=
    .acts (m := c.member) rfl hd
  rw [← hnow] at hs
  exact h.step hs

theorem History.advances (h : History log (alone c)) (now : Nat) (hle : c.now ≤ now) :
    History log (alone { c with now }) := by
  have hs := h.step (.advances hle)
  rwa [List.append_nil] at hs

end

-- ---------------------------------------------------------------------------
-- Who is called
-- ---------------------------------------------------------------------------

/-- Whenever calls are noted they went to workers that could take them at that moment, and every
call in flight was noted. Of the calls in flight under one registration no more than one was begun
while the worker was on trial. -/
theorem single_trial (h : History log k) :
    (∀ i task calls, (i, .sent task calls) ∈ log →
      ∃ m, k.members[i]? = some m ∧ m.run.policy.Fair task calls) ∧
    (∀ notes k', k.Step notes k' → ∀ i task calls, (i, .sent task calls) ∈ notes → ∀ x ∈ calls,
      Registry.Uses k.registry x.1 ∧ ∃ runId, Registry.Uses (x.1.lend runId x.2) k'.registry) ∧
    (∀ i call, k.InFlight i call → ∃ x, Begun log i x ∧ x.2 = call) ∧
    ∀ i j x y, Trial log k i x → Trial log k j y → x.2.lease.workerId = y.2.lease.workerId →
      x.2.lease.seq = y.2.lease.seq → i = j ∧ x.2 = y.2 :=
  ⟨h.orderly.fair, fun _ _ hs _ _ _ hm _ hx => Step.uses h hs hm hx, h.orderly.noted,
    h.orderly.single⟩

end Concourse

-- ---------------------------------------------------------------------------
-- A trial
-- ---------------------------------------------------------------------------

namespace Opening

open Concourse

/-- One task, which may be tried twice, and one worker, whose first failure is one too many. -/
def solo : Opening where
  coordinator :=
    .plain { execution := { maxConcurrency := some 1 }, scaling := { enabled := false } }
  runId := "solo"
  tasks := [{ id := "only", capability := "run", maxRetries := 1 }]
  registry := Registry.register { rules := .ofLimits 1 50 } ⟨"runner", ["run"], 1.0⟩ 0
  now := 0

def soloTask : Task := { id := "only", capability := "run", maxRetries := 1 }

def soloStart : Course := solo.launch ⟨solo.tasks⟩ solo.registry 1

def soloRested : Course :=
  { { soloStart.pass with now := 10 }.complete 1 (.failure "lost") with now := 100000 }

def soloCall : Call := ⟨⟨2, "only", "runner", 2, 100000⟩, ⟨"runner", 0, 0⟩, .null, 30000⟩

def soloSecond : Registry × Call := ((soloRested.registry.selectFor "run" 100000).1, soloCall)

theorem course_solo : solo.course = .ok soloStart :=
  course_eq_ok.mpr ⟨⟨solo.tasks⟩, solo.registry, 1, by decide +kernel, by decide +kernel, rfl,
    by decide, rfl⟩

theorem history_soloSent : ∃ log, History log (alone soloStart.pass) := by
  have hregistry : History [] { registry := solo.registry, now := 0 } :=
    (History.empty (.ofLimits 1 50) 0).step (.tends (.registers ⟨"runner", ["run"], 1.0⟩ 0))
  exact ⟨_, (hregistry.opens course_solo).does (.pass rfl rfl)⟩

theorem history_soloRested : ∃ log, History log (alone soloRested) := by
  obtain ⟨log, hsent⟩ := history_soloSent
  have hfailed := (hsent.advances 10 (by decide +kernel)).does
    (.complete (by decide +kernel) 1 (.failure "lost"))
  exact ⟨_, hfailed.advances 100000 (by decide +kernel)⟩

/-- The second call of the solo is a trial, and there is no other. -/
theorem solo_on_trial : ∃ log, History log (alone soloRested.pass) ∧
    Concourse.Trial log (alone soloRested.pass) 0 soloSecond ∧
    ∀ i x, Concourse.Trial log (alone soloRested.pass) i x → x.2.lease = soloCall.lease →
      i = 0 ∧ x.2 = soloCall := by
  obtain ⟨log, hrested⟩ := history_soloRested
  have hnotes : soloRested.run.passNotes soloRested.registry soloRested.now =
      [.sent soloTask [soloSecond]] := by
    with_unfolding_all rfl
  have h := hrested.does (.pass (by decide +kernel) (by decide +kernel))
  rw [hnotes] at h
  have htrial : Concourse.Trial (log ++ [(0, .sent soloTask [soloSecond])])
      (alone soloRested.pass) 0 soloSecond :=
    ⟨begun_append.mpr (.inr (begun_sent.mpr ⟨rfl, List.mem_singleton_self _⟩)),
      ⟨soloRested.pass.member, rfl, by decide +kernel⟩,
      Option.map_eq_some_iff.mp (by decide +kernel)⟩
  obtain ⟨-, -, -, hsingle⟩ := single_trial h
  refine ⟨_, h, htrial, fun i x hx hl => ?_⟩
  exact hsingle i 0 x soloSecond hx htrial (congrArg Lease.workerId hl) (congrArg Lease.seq hl)

end Opening

end Crew
