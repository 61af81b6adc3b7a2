import Crew.Proofs.Run.Cancellation
import Crew.Proofs.Run.Outcomes

/-!
# Outcomes and registrations

While runs are on, workers leave and others come under the same ids. The annals of a concourse
record, beside what is noted of its runs, which of them were cancelled, and every registration and
every removal with its number (`Concourse.Annals`). A breaker has heard of the outcomes of exactly
those calls that were made under its own registration (`Concourse.own_outcomes_only`): a call whose
registration was removed before it ended brings nothing to its run, and nothing to whoever is
registered under that id now.

An outcome is reported by worker id alone. That it reaches the right registration is due to the
lease being looked at in the same step.
-/

namespace Crew

-- ---------------------------------------------------------------------------
-- Annals
-- ---------------------------------------------------------------------------

/-- What is written down of a concourse. Registrations and removals are written down with their
numbers; who registers anew while registered keeps the number, and nothing is written down. -/
inductive Tiding where
  | noted (i : Nat) (note : Note)
  | cancelled (i : Nat)
  | enrolled (workerId : String) (seq : Nat)
  | removed (workerId : String) (seq : Nat)

namespace Tiding

def note? : Tiding → Option (Nat × Note)
  | .noted i note => some (i, note)
  | .cancelled _ | .enrolled .. | .removed .. => none

def outcome? (workerId : String) (seq : Nat) : Tiding → Option Signal
  | .noted _ (.ended call (some result) _) =>
    if call.lease.workerId = workerId ∧ call.lease.seq = seq then
      some (.ofSuccess result.outcome.isSuccess)
    else none
  | _ => none

end Tiding

namespace Concourse

inductive Shift (k : Concourse) : List Tiding → Concourse → Prop
  | joins {o : Opening} {c : Course} (hr : o.registry = k.registry) (hn : o.now = k.now)
    (hc : o.course = .ok c) :
    Shift k (if c.cancelled then [.cancelled k.members.length] else [])
      { k with registry := c.registry, members := k.members ++ [c.member] }
  | acts {i : Nat} {m : Member} {notes : List Note} {c : Course} (hm : k.members[i]? = some m)
    (hd : (k.course m).Does notes c) :
    Shift k (notes.map (.noted i))
      { k with registry := c.registry, members := k.members.set i c.member }
  | cancels {i : Nat} {m : Member} (hm : k.members[i]? = some m) :
    Shift k [.cancelled i] { k with members := k.members.set i { m with cancelled := true } }
  | advances {now : Nat} (h : k.now ≤ now) : Shift k [] { k with now }
  | enrolls (spec : WorkerSpec) (executor : Nat) (h : k.registry.find? spec.workerId = none) :
    Shift k [.enrolled spec.workerId k.registry.nextSeq]
      { k with registry := k.registry.register spec executor }
  | renews (spec : WorkerSpec) (executor : Nat) {r : Registration}
    (h : k.registry.find? spec.workerId = some r) :
    Shift k [] { k with registry := k.registry.register spec executor }
  | removes (workerId : String) {r : Registration} (h : k.registry.find? workerId = some r) :
    Shift k [.removed workerId r.seq]
      { k with registry := (k.registry.deregister workerId).1 }

/-- What comes of a registry without workers, with all that was written down on the way. -/
inductive Annals : List Tiding → Concourse → Prop
  | empty (rules : BreakerRules) (now : Nat) : Annals [] { registry := { rules }, now }
  | shift {log tidings : List Tiding} {k k' : Concourse} (h : Annals log k)
    (hs : k.Shift tidings k') : Annals (log ++ tidings) k'

def answered (log : List Tiding) (workerId : String) (seq : Nat) : List Signal :=
  log.filterMap (Tiding.outcome? workerId seq)

variable {k k' : Concourse} {log tidings : List Tiding} {i : Nat} {m : Member} {call : Call}

theorem filterMap_noted (i : Nat) (notes : List Note) :
    (notes.map (Tiding.noted i)).filterMap Tiding.note? = notes.map (i, ·) := by
  rw [List.filterMap_map, ← List.filterMap_eq_map]
  rfl

theorem Shift.step (h : k.Shift tidings k') : k.Step (tidings.filterMap Tiding.note?) k' := by
  cases h with
  | @joins o c hr hn hc =>
    have hnone : (if c.cancelled then [Tiding.cancelled k.members.length] else []).filterMap
        Tiding.note? = [] := by
      split <;> rfl
    rw [hnone]
    exact .joins hr hn hc
  | acts hm hd =>
    rw [filterMap_noted]
    exact .acts hm hd
  | cancels hm => exact .cancels hm
  | advances h => exact .advances h
  | enrolls spec executor => exact .tends (.registers spec executor)
  | renews spec executor => exact .tends (.registers spec executor)
  | removes workerId => exact .tends (.deregisters workerId)

theorem Annals.history (h : Annals log k) : History (log.filterMap Tiding.note?) k := by
  induction h with
  | empty rules now => exact .empty rules now
  | shift _ hs ih =>
    rw [List.filterMap_append]
    exact ih.step hs.step

def Halted (k : Concourse) (i : Nat) : Prop := k.members[i]?.map (·.cancelled) = some true

theorem halted_iff (hm : k.members[i]? = some m) : k.Halted i ↔ m.cancelled = true := by
  rw [Halted, hm, Option.map_some, Option.some.injEq]

theorem halted_set {registry : Registry} (hm : k.members[i]? = some m) (m' : Member) (j : Nat) :
    Halted { k with registry, members := k.members.set i m' } j ↔
      if i = j then m'.cancelled = true else k.Halted j := by
  obtain ⟨hlt, -⟩ := List.getElem?_eq_some_iff.mp hm
  rw [Halted, List.getElem?_set, if_pos hlt]
  split
  · rw [Option.map_some, Option.some.injEq]
  · rfl

theorem halted_acts {c : Course} {registry : Registry} (hm : k.members[i]? = some m)
    (hc : c.cancelled = m.cancelled) (j : Nat) :
    Halted { k with registry, members := k.members.set i c.member } j ↔ k.Halted j := by
  rw [halted_set hm]
  split
  next he => rw [← he, halted_iff hm, ← hc, Course.member]
  · rfl

theorem halted_joins {registry : Registry} (m : Member) (j : Nat) :
    Halted { k with registry, members := k.members ++ [m] } j ↔
      k.Halted j ∨ j = k.members.length ∧ m.cancelled = true := by
  rw [Halted, Halted, List.getElem?_append]
  split
  next hlt => exact (or_iff_left fun h => Nat.ne_of_lt hlt h.1).symm
  next hge =>
    rw [List.getElem?_eq_none (Nat.le_of_not_lt hge)]
    rcases Nat.eq_or_lt_of_le (Nat.le_of_not_lt hge) with he | hlt
    · simp [← he]
    · simp [Nat.ne_of_gt hlt, Nat.sub_ne_zero_of_lt hlt]

/-- The annals explain who is registered and what the breakers have heard. -/
structure Recorded (log : List Tiding) (k : Concourse) : Prop where
  current : ∀ lease, k.registry.isRevoked lease = false ↔
    .enrolled lease.workerId lease.seq ∈ log ∧ .removed lease.workerId lease.seq ∉ log
  below : ∀ workerId seq, .enrolled workerId seq ∈ log → seq < k.registry.nextSeq
  enrolled : ∀ workerId seq, .removed workerId seq ∈ log → .enrolled workerId seq ∈ log
  begun : ∀ i x, Begun (log.filterMap Tiding.note?) i x →
    .enrolled x.2.lease.workerId x.2.lease.seq ∈ log
  heard : k.registry.Heard (answered log)
  cancelled : ∀ i, .cancelled i ∈ log ↔ k.Halted i
  ended : ∀ (n : Nat) i call result answer, log[n]? = some (.noted i (.ended call result answer)) →
    .enrolled call.lease.workerId call.lease.seq ∈ log.take n ∧
      (result = none ↔ .removed call.lease.workerId call.lease.seq ∈ log.take n ∨
        .cancelled i ∈ log.take n)

theorem Recorded.isRevoked_iff {lease : Lease} (h : Recorded log k)
    (he : .enrolled lease.workerId lease.seq ∈ log) :
    k.registry.isRevoked lease ↔ .removed lease.workerId lease.seq ∈ log := by
  have hcurrent := (h.current lease).trans (and_iff_right he)
  rw [← Bool.not_eq_false, not_iff_comm, hcurrent]

theorem Recorded.answered_new (h : Recorded log k) (workerId : String) :
    answered log workerId k.registry.nextSeq = [] := by
  refine List.filterMap_eq_nil_iff.mpr fun tiding ht => ?_
  unfold Tiding.outcome?
  split
  next i call result answer =>
    split
    next he =>
      obtain ⟨n, hn⟩ := List.getElem?_of_mem ht
      have henrolled := (h.ended n _ _ _ _ hn).1
      rw [he.1, he.2] at henrolled
      exact absurd (h.below _ _ (List.mem_of_mem_take henrolled)) (Nat.lt_irrefl _)
    · rfl
  · rfl

-- ---------------------------------------------------------------------------
-- What a step keeps
-- ---------------------------------------------------------------------------

/-- Nothing is written down where nobody comes, leaves or answers. -/
theorem Recorded.aside (h : Recorded log k) (hr : k'.registry.isRevoked = k.registry.isRevoked)
    (hn : k'.registry.nextSeq = k.registry.nextSeq) (hh : k'.registry.Heard (answered log))
    (ht : ∀ j, k'.Halted j ↔ k.Halted j) : Recorded log k' :=
  ⟨fun lease => by rw [hr]; exact h.current lease,
    fun workerId seq he => by rw [hn]; exact h.below workerId seq he,
    h.enrolled, h.begun, hh, fun j => (h.cancelled j).trans (ht j).symm, h.ended⟩

theorem Recorded.notes {notes : List Note} (h : Recorded log k)
    (hr : k'.registry.isRevoked = k.registry.isRevoked)
    (hn : k'.registry.nextSeq = k.registry.nextSeq)
    (hh : k'.registry.Heard (answered (log ++ notes.map (.noted i))))
    (ht : ∀ j, k'.Halted j ↔ k.Halted j)
    (hb : ∀ x, Begun (notes.map (i, ·)) i x →
      .enrolled x.2.lease.workerId x.2.lease.seq ∈ log)
    (he : ∀ (n : Nat) call result answer, notes[n]? = some (.ended call result answer) → n = 0 ∧
      .enrolled call.lease.workerId call.lease.seq ∈ log ∧
      (result = none ↔ .removed call.lease.workerId call.lease.seq ∈ log ∨ .cancelled i ∈ log)) :
    Recorded (log ++ notes.map (.noted i)) k' := by
  have henrolled {workerId : String} {seq : Nat} :
      .enrolled workerId seq ∈ log ++ notes.map (.noted i) ↔ .enrolled workerId seq ∈ log := by
    simp
  have hremoved {workerId : String} {seq : Nat} :
      .removed workerId seq ∈ log ++ notes.map (.noted i) ↔ .removed workerId seq ∈ log := by
    simp
  refine ⟨fun lease => ?_, fun workerId seq hm => ?_, fun workerId seq hm => ?_, fun j x hx => ?_,
    hh, fun j => ?_, fun n j call result answer hm => ?_⟩
  · rw [henrolled, hremoved, hr]
    exact h.current lease
  · rw [hn]
    exact h.below workerId seq (henrolled.mp hm)
  · exact henrolled.mpr (h.enrolled workerId seq (hremoved.mp hm))
  · rw [List.filterMap_append, filterMap_noted] at hx
    rcases begun_append.mp hx with hx | hx
    · exact henrolled.mpr (h.begun j x hx)
    · obtain ⟨task, calls, hm, -⟩ := id hx
      obtain ⟨note, -, hnote⟩ := List.mem_map.mp hm
      cases hnote
      exact henrolled.mpr (hb x hx)
  · rw [ht, ← h.cancelled]
    simp
  · rw [List.getElem?_append] at hm
    split at hm
    next hlt =>
      rw [List.take_append_of_le_length (Nat.le_of_lt hlt)]
      exact h.ended n j call result answer hm
    next hge =>
      rw [List.getElem?_map, Option.map_eq_some_iff] at hm
      obtain ⟨note, hnote, hsame⟩ := hm
      cases hsame
      obtain ⟨hzero, hcall⟩ := he _ call result answer hnote
      have hlength : n = log.length := by omega
      rw [hlength, List.take_left]
      exact hcall

theorem enrolled_of_begun {notes : List Note} {x : Registry × Call} (h : Recorded log k)
    (ho : History (log.filterMap Tiding.note?) k) (hs : k.Step (notes.map (i, ·)) k')
    (hx : Begun (notes.map (i, ·)) i x) : .enrolled x.2.lease.workerId x.2.lease.seq ∈ log := by
  obtain ⟨task, calls, hm, hmem⟩ := hx
  obtain ⟨huses, -⟩ := Step.uses ho hs hm hmem
  obtain ⟨m', -, hfair⟩ := (ho.step hs).orderly.fair i task calls (List.mem_append_right _ hm)
  obtain ⟨r, hr, -, -, -, hlease⟩ := hfair.fit x hmem
  have hlive : x.1.isRevoked x.2.lease = false := by
    rw [hlease]
    exact Registry.isRevoked_eq_false.mpr ⟨r, hr, rfl⟩
  rw [huses.isRevoked] at hlive
  exact ((h.current x.2.lease).mp hlive).1

theorem Recorded.pass (h : Recorded log k) (ho : History (log.filterMap Tiding.note?) k)
    (hm : k.members[i]? = some m) (hp : m.phase = .pass) (hc : m.cancelled = false) :
    Recorded (log ++ (m.run.passNotes k.registry k.now).map (.noted i))
      { k with
        registry := (k.course m).pass.registry
        members := k.members.set i (k.course m).pass.member } := by
  have hrun := ho.orderly.sound m (List.mem_of_getElem? hm)
  have hpass := m.run.pass_passage k.registry k.now hrun.books.distinct ho.orderly.loaded.distinct
  have huses := m.run.uses_pass k.registry k.now
  refine h.notes huses.isRevoked huses.nextSeq ?_ (halted_acts hm rfl)
    (fun x hx => enrolled_of_begun h ho (.acts hm (.pass hp hc)) hx)
    fun n call result answer hn => ?_
  · have hquiet : answered (log ++ (m.run.passNotes k.registry k.now).map (.noted i)) =
        answered log := by
      funext workerId seq
      rw [answered, List.filterMap_append, answered, List.append_right_eq_self,
        List.filterMap_eq_nil_iff]
      intro tiding ht
      obtain ⟨note, hnote, rfl⟩ := List.mem_map.mp ht
      obtain ⟨task, calls, rfl⟩ := hpass.sent note hnote
      rfl
    rw [hquiet]
    exact hpass.heard h.heard
  · obtain ⟨task, calls, he⟩ := hpass.sent _ (List.mem_of_getElem? hn)
    cases he

theorem Recorded.enrolled_inFlight (h : Recorded log k)
    (ho : History (log.filterMap Tiding.note?) k) (hf : k.InFlight i call) :
    .enrolled call.lease.workerId call.lease.seq ∈ log := by
  obtain ⟨x, hx, rfl⟩ := ho.orderly.noted i call hf
  exact h.begun i x hx

/-- The breaker hears of an outcome if and only if the lease is still good and the run goes on. -/
theorem heard_told {cancelled : Bool} {outcome : Outcome} {now : Nat} {reg : Registry}
    (h : reg.Heard (answered log)) (hw : call.assignment.workerId = call.lease.workerId) (i : Nat)
    (answer : Settled) : (call.told cancelled reg outcome now).Heard (answered
      (log ++ [.noted i (.ended call (call.yield cancelled reg outcome now) answer)])) := by
  unfold Call.told Call.yield
  cases hlost : cancelled || reg.isRevoked call.lease with
  | true =>
    have hquiet : answered (log ++ [.noted i (.ended call none answer)]) = answered log := by
      funext workerId seq
      simp [answered, Tiding.outcome?]
    rw [if_pos rfl, if_pos rfl, hquiet]
    exact h
  | false =>
    have hlive := (Bool.or_eq_false_iff.mp hlost).2
    rw [if_neg Bool.false_ne_true, if_neg Bool.false_ne_true, hw]
    have hreport := h.report hlive outcome.isSuccess now
    have hone : answered (log ++ [.noted i (.ended call (some (call.result outcome now)) answer)]) =
        fun workerId seq => answered log workerId seq ++
          if call.lease.workerId = workerId ∧ call.lease.seq = seq then
            [.ofSuccess outcome.isSuccess] else [] := by
      funext workerId seq
      rw [answered, List.filterMap_append, ← answered]
      congr 1
      by_cases hlease : call.lease.workerId = workerId ∧ call.lease.seq = seq
      · simp [Tiding.outcome?, hlease, Call.result]
      · simp [Tiding.outcome?, hlease]
    rw [hone]
    exact hreport

theorem Recorded.complete (h : Recorded log k) (ho : History (log.filterMap Tiding.note?) k)
    (hm : k.members[i]? = some m) (n : Nat) (outcome : Outcome) :
    Recorded (log ++ (m.run.endNotes k.registry n m.cancelled outcome k.now).map (.noted i))
      { k with
        registry := ((k.course m).complete n outcome).registry
        members := k.members.set i ((k.course m).complete n outcome).member } := by
  have huses := m.run.uses_complete k.registry n m.cancelled outcome k.now
  cases hf : m.run.calls.find? (·.assignment.id = n) with
  | none =>
    have hsame : (m.run.complete k.registry n m.cancelled outcome k.now).2 = k.registry := by
      rw [Run.complete, hf]
    have hnotes : m.run.endNotes k.registry n m.cancelled outcome k.now = [] := by
      rw [Run.endNotes, hf]
    rw [hnotes, List.map_nil, List.append_nil]
    exact h.aside (congrArg Registry.isRevoked hsame) (congrArg Registry.nextSeq hsame)
      (h.heard.of_find? (congrArg Registry.rules hsame) (congrArg Registry.find? hsame))
      (halted_acts hm rfl)
  | some call =>
    have hflight : k.InFlight i call := ⟨m, hm, List.mem_of_find?_eq_some hf⟩
    have henrolled := h.enrolled_inFlight ho hflight
    have hnotes : m.run.endNotes k.registry n m.cancelled outcome k.now =
        [.ended call (call.yield m.cancelled k.registry outcome k.now)
          (m.run.session.settle n (call.yield m.cancelled k.registry outcome k.now) k.now).2] := by
      rw [Run.endNotes, hf]
    have htoken : m.cancelled = true ↔ .cancelled i ∈ log := by
      rw [h.cancelled, halted_iff hm]
    refine h.notes huses.isRevoked huses.nextSeq ?_ (halted_acts hm rfl) (fun x hx => ?_)
      fun l other result answer hl => ?_
    · have hrests := Run.rests_complete hf k.registry m.cancelled outcome k.now
      rw [hnotes]
      exact Registry.Heard.of_find?
        ((heard_told h.heard (ho.orderly.begun hflight).1 i _).release call.lease)
        hrests.uses.rules (Run.find?_complete hf)
    · obtain ⟨task, calls, hsent, -⟩ := hx
      exact absurd hsent not_sent_endNotes
    · rw [hnotes, List.getElem?_singleton] at hl
      split at hl
      next hzero =>
        cases hl
        exact ⟨hzero, henrolled,
          Call.yield_eq_none.trans (or_congr (h.isRevoked_iff henrolled) htoken)⟩
      · cases hl

theorem Recorded.acts {notes : List Note} {c : Course} (h : Recorded log k)
    (ho : History (log.filterMap Tiding.note?) k) (hm : k.members[i]? = some m)
    (hd : (k.course m).Does notes c) : Recorded (log ++ notes.map (.noted i))
      { k with registry := c.registry, members := k.members.set i c.member } := by
  cases hd with
  | pass hp hc => exact h.pass ho hm hp hc
  | complete _ n outcome => exact h.complete ho hm n outcome
  | wake | leave =>
    rw [List.map_nil, List.append_nil]
    exact h.aside rfl rfl h.heard (halted_acts hm rfl)
  | stop =>
    have huses := m.run.uses_cancel k.registry
    have hheard : (m.run.cancel k.registry).2.Heard (answered log) := by
      rw [Run.cancel_registry]
      exact h.heard.releases _
    rw [List.map_nil, List.append_nil]
    exact h.aside huses.isRevoked huses.nextSeq hheard (halted_acts hm rfl)

theorem Recorded.writes {tiding : Tiding} (h : Recorded log k) (hnote : tiding.note? = none)
    (hcurrent : ∀ lease, k'.registry.isRevoked lease = false ↔
      .enrolled lease.workerId lease.seq ∈ log ++ [tiding] ∧
        .removed lease.workerId lease.seq ∉ log ++ [tiding])
    (hbelow : ∀ workerId seq,
      .enrolled workerId seq ∈ log ++ [tiding] → seq < k'.registry.nextSeq)
    (henrolled : ∀ workerId seq, tiding = .removed workerId seq → .enrolled workerId seq ∈ log)
    (hheard : k'.registry.Heard (answered log))
    (hhalted : ∀ i, .cancelled i ∈ log ++ [tiding] ↔ k'.Halted i) :
    Recorded (log ++ [tiding]) k' := by
  have hanswered : answered (log ++ [tiding]) = answered log := by
    funext workerId seq
    cases tiding with
    | noted => cases hnote
    | cancelled | enrolled | removed => simp [answered, Tiding.outcome?]
  refine ⟨hcurrent, hbelow, fun workerId seq hm => ?_, fun i x hx => ?_, hanswered ▸ hheard,
    hhalted, fun n i call result answer hn => ?_⟩
  · refine List.mem_append_left _ ?_
    rcases List.mem_append.mp hm with hm | hm
    · exact h.enrolled workerId seq hm
    · exact henrolled workerId seq (List.mem_singleton.mp hm).symm
  · rw [List.filterMap_append, List.filterMap_cons_none hnote, List.filterMap_nil,
      List.append_nil] at hx
    exact List.mem_append_left _ (h.begun i x hx)
  · rw [List.getElem?_append] at hn
    split at hn
    next hlt =>
      rw [List.take_append_of_le_length (Nat.le_of_lt hlt)]
      exact h.ended n i call result answer hn
    next hge =>
      obtain rfl := List.mem_singleton.mp (List.mem_of_getElem? hn)
      cases hnote

theorem Recorded.cancels (h : Recorded log k)
    (hr : k'.registry.isRevoked = k.registry.isRevoked)
    (hn : k'.registry.nextSeq = k.registry.nextSeq) (hh : k'.registry.Heard (answered log))
    (ht : ∀ j, k'.Halted j ↔ j = i ∨ k.Halted j) :
    Recorded (log ++ [.cancelled i]) k' := by
  refine h.writes rfl (fun lease => ?_) (fun workerId seq hm => ?_)
    (fun workerId seq he => nomatch he) hh fun j => ?_
  · rw [hr]
    simpa using h.current lease
  · rw [hn]
    exact h.below workerId seq (by simpa using hm)
  · rw [ht, ← h.cancelled]
    simp [or_comm]

theorem Recorded.enrolls {spec : WorkerSpec} (h : Recorded log k)
    (hnew : k.registry.find? spec.workerId = none) (executor : Nat) :
    Recorded (log ++ [.enrolled spec.workerId k.registry.nextSeq])
      { k with registry := k.registry.register spec executor } := by
  have hfind := Registry.find?_register_of_unknown hnew executor
  have hregister := Registry.register_of_unknown hnew executor
  refine h.writes rfl (fun lease => ?_) (fun workerId seq hm => ?_)
    (fun workerId seq he => nomatch he) (fun workerId r hr => ?_)
    fun i => Iff.trans (by simp) (h.cancelled i)
  · have hold : Registry.isRevoked k.registry lease = false ↔ _ := h.current lease
    rw [Registry.isRevoked_eq_false] at hold ⊢
    simp only [List.mem_append, List.mem_singleton, Tiding.enrolled.injEq, reduceCtorEq, or_false]
    rw [hfind]
    by_cases he : lease.workerId = spec.workerId
    · -- the registration before has been removed, and the new number was not given yet
      have hgone : ¬ (.enrolled lease.workerId lease.seq ∈ log ∧
          .removed lease.workerId lease.seq ∉ log) := by
        rw [← hold, he, hnew]
        simp
      have hnever : .removed lease.workerId k.registry.nextSeq ∉ log := fun hm =>
        Nat.lt_irrefl _ (h.below _ _ (h.enrolled _ _ hm))
      rw [if_pos he]
      constructor
      · rintro ⟨r, hr, hs⟩
        obtain rfl := Option.some.inj hr
        exact ⟨.inr ⟨he, hs.symm⟩, hs ▸ hnever⟩
      · rintro ⟨hm | ⟨-, hs⟩, hn⟩
        · exact absurd ⟨hm, hn⟩ hgone
        · exact ⟨_, rfl, hs.symm⟩
    · rw [if_neg he, hold]
      simp [he]
  · rw [hregister]
    rcases List.mem_append.mp hm with hm | hm
    · exact Nat.lt_succ_of_lt (h.below workerId seq hm)
    · cases List.mem_singleton.mp hm
      exact Nat.lt_succ_self _
  · rw [hfind] at hr
    rw [hregister]
    split at hr
    next he =>
      obtain rfl := Option.some.inj hr
      rw [h.answered_new]
      exact BreakerRules.heard_fresh _
    · exact h.heard workerId r hr

theorem Recorded.renews {spec : WorkerSpec} {r : Registration} (h : Recorded log k)
    (hr : k.registry.find? spec.workerId = some r) (executor : Nat) :
    Recorded log { k with registry := k.registry.register spec executor } := by
  have hfind := Registry.find?_register_of_known hr executor
  have hregister := Registry.register_of_known (by rw [hr]; rfl) executor
  refine h.aside (funext fun lease => ?_) (by rw [hregister]; rfl) ?_ fun _ => .rfl
  · rw [Registry.isRevoked, Registry.isRevoked, hfind]
    split
    next he => rw [he, hr]; rfl
    · rfl
  · rw [hregister]
    exact h.heard.modify fun q hq => ⟨hq.symm, rfl, rfl⟩

theorem Recorded.removes {workerId : String} {r : Registration} (h : Recorded log k)
    (hr : k.registry.find? workerId = some r) : Recorded (log ++ [.removed workerId r.seq])
      { k with registry := (k.registry.deregister workerId).1 } := by
  have hfind := k.registry.find?_deregister workerId
  have hderegister : (k.registry.deregister workerId).1 =
      { k.registry with workers := k.registry.workers.filter (·.workerId ≠ workerId) } := by
    rw [Registry.deregister, hr]
  have hcurrent : Registry.isRevoked k.registry ⟨workerId, r.seq, r.executor⟩ = false :=
    Registry.isRevoked_eq_false.mpr ⟨r, hr, rfl⟩
  refine h.writes rfl (fun lease => ?_) (fun other seq hm => ?_) (fun other seq he => ?_)
    (fun other q hq => ?_) fun i => Iff.trans (by simp) (h.cancelled i)
  · have hold := h.current lease
    rw [Registry.isRevoked_eq_false] at hold ⊢
    simp only [List.mem_append, List.mem_singleton, Tiding.removed.injEq, reduceCtorEq, or_false]
    rw [hfind]
    by_cases he : lease.workerId = workerId
    · rw [if_pos he]
      constructor
      · rintro ⟨q, hq, -⟩
        cases hq
      rintro ⟨hm, hn⟩
      rw [not_or] at hn
      obtain ⟨q, hq, hs⟩ := hold.mpr ⟨hm, hn.1⟩
      obtain rfl : q = r := Option.some.inj (hq.symm.trans (he ▸ hr))
      exact absurd ⟨he, hs.symm⟩ hn.2
    · rw [if_neg he, hold]
      simp [he]
  · rw [hderegister]
    rcases List.mem_append.mp hm with hm | hm
    · exact h.below other seq hm
    · cases List.mem_singleton.mp hm
  · cases he
    exact ((h.current _).mp hcurrent).1
  · rw [hfind] at hq
    rw [hderegister]
    split at hq
    · cases hq
    · exact h.heard other q hq

theorem Annals.recorded (h : Annals log k) : Recorded log k := by
  induction h with
  | empty rules now =>
    refine ⟨fun lease => ?_, ?_, ?_, ?_, ?_, fun i => ?_, ?_⟩
    · simp [Registry.isRevoked, Registry.find?]
    · rintro workerId seq hm
      cases hm
    · rintro workerId seq hm
      cases hm
    · rintro i x ⟨task, calls, hm, -⟩
      cases hm
    · rintro workerId r hr
      cases hr
    · simp [Halted]
    · rintro n i call result answer hn
      cases hn
  | @shift log tidings k k' ho hs ih =>
    cases hs with
    | @joins o c hr hn hc =>
      have hrests := Opening.rests_course hc
      rw [hr] at hrests
      have hheard := ih.heard.rests hrests
      split
      next hc =>
        refine ih.cancels hrests.uses.isRevoked hrests.uses.nextSeq hheard fun j => ?_
        rw [halted_joins, or_comm, and_iff_left (show c.member.cancelled = true from hc)]
      next hc =>
        rw [List.append_nil]
        refine ih.aside hrests.uses.isRevoked hrests.uses.nextSeq hheard fun j => ?_
        rw [halted_joins, or_iff_left fun h => hc h.2]
    | acts hm hd => exact ih.acts ho.history hm hd
    | cancels hm =>
      refine ih.cancels rfl rfl ih.heard fun j => ?_
      rw [halted_set hm]
      split
      next he => simp [he]
      next hne => simp [Ne.symm hne]
    | advances =>
      rw [List.append_nil]
      exact ih.aside rfl rfl ih.heard fun _ => .rfl
    | enrolls spec executor hnew => exact ih.enrolls hnew executor
    | renews spec executor hr =>
      rw [List.append_nil]
      exact ih.renews hr executor
    | removes workerId hr => exact ih.removes hr

-- ---------------------------------------------------------------------------
-- Whose outcomes a breaker hears
-- ---------------------------------------------------------------------------

/-- Every breaker is what a fresh one becomes that hears of the outcomes of the calls under its own
registration, so that a worker is without failures until one of its own calls ends, whatever becomes
of calls under an earlier registration of its id. A call has brought nothing if and only if its
registration was removed or its run cancelled before it ended. A call whose registration was removed
ends as abandoned or revoked, with the registry as it is and no result for its run. Any other call
changes no entry but that of its registration, whose breaker hears of the outcome unless the run was
cancelled. -/
theorem own_outcomes_only (h : Annals log k) :
    (∀ workerId r, k.registry.find? workerId = some r →
      k.registry.rules.Heard r.breaker (answered log workerId r.seq) ∧
      (answered log workerId r.seq = [] → r.breaker = {})) ∧
    (∀ tidings k' workerId seq, k.Shift tidings k' → .enrolled workerId seq ∈ tidings →
      answered (log ++ tidings) workerId seq = [] ∧
      ∃ r, k'.registry.find? workerId = some r ∧ r.seq = seq ∧ r.breaker = {}) ∧
    (∀ (n : Nat) i call result answer,
      log[n]? = some (.noted i (.ended call result answer)) →
      (result = none ↔ .removed call.lease.workerId call.lease.seq ∈ log.take n ∨
        .cancelled i ∈ log.take n)) ∧
    ∀ (i : Nat) m call, k.members[i]? = some m → call ∈ m.run.calls →
      (.removed call.lease.workerId call.lease.seq ∈ log →
        (∀ cancelled outcome slots, call.conclude cancelled outcome k.now k.registry slots =
          (if cancelled then .abandoned else .revoked, k.registry, slots.release)) ∧
        ∀ outcome,
          ((k.course m).complete call.assignment.id outcome).run.session.results =
            m.run.session.results ∧
          ((k.course m).complete call.assignment.id outcome).registry.find? =
            k.registry.find?) ∧
      (.removed call.lease.workerId call.lease.seq ∉ log →
        ∃ r, k.registry.find? call.lease.workerId = some r ∧ r.seq = call.lease.seq ∧
          ∀ cancelled outcome slots other,
            (call.conclude cancelled outcome k.now k.registry slots).2.1.find? other =
              if other = call.lease.workerId then some { r with
                load := r.load - 1
                breaker := if cancelled then r.breaker else (k.registry.rules.hear r.breaker
                  ⟨k.now, .ofSuccess outcome.isSuccess⟩).1 }
              else k.registry.find? other) := by
  have hrecorded := h.recorded
  have horderly := h.history.orderly
  refine ⟨fun workerId r hr => ⟨hrecorded.heard workerId r hr, fun hnone => ?_⟩,
    fun tidings k' workerId seq hs hm => ?_,
    fun n i call result answer hn => (hrecorded.ended n i call result answer hn).2,
    fun i m call hm hc => ?_⟩
  · have hheard := hrecorded.heard workerId r hr
    rw [hnone] at hheard
    exact hheard.fresh
  · cases hs with
    | @acts i m notes c hm' hd => simp at hm
    | enrolls spec executor hnew =>
      cases List.mem_singleton.mp hm
      have hnone : answered (log ++ [.enrolled spec.workerId k.registry.nextSeq]) spec.workerId
          k.registry.nextSeq = [] := by
        rw [answered, List.filterMap_append, ← answered, hrecorded.answered_new]
        rfl
      exact ⟨hnone, { spec, seq := k.registry.nextSeq, executor },
        (Registry.find?_register_of_unknown hnew executor _).trans (if_pos rfl), rfl, rfl⟩
    | joins => split at hm <;> simp at hm
    | removes => cases List.mem_singleton.mp hm
    | cancels => cases List.mem_singleton.mp hm
    | _ => cases hm
  · have hflight : k.InFlight i call := ⟨m, hm, hc⟩
    have henrolled := hrecorded.enrolled_inFlight h.history hflight
    have hrevoked := hrecorded.isRevoked_iff henrolled
    refine ⟨fun hremoved => ?_, fun hstays => ?_⟩
    · have hgone := hrevoked.mpr hremoved
      obtain ⟨o, ho⟩ := h.history.reaches hm
      refine ⟨fun cancelled outcome slots =>
        Call.conclude_of_isRevoked horderly.loaded.distinct hgone,
        fun outcome => ⟨Course.results_of_isRevoked ho.sound hc hgone outcome, ?_⟩⟩
      have hf := (horderly.sound m (List.mem_of_getElem? hm)).find?_calls hc
      have hfind :
          (m.run.complete k.registry call.assignment.id m.cancelled outcome k.now).2.find? =
            ((call.told m.cancelled k.registry outcome k.now).release call.lease).find? :=
        Run.find?_complete hf
      rw [Call.told, if_pos (Bool.or_eq_true_iff.mpr (.inr hgone)),
        Registry.release_of_isRevoked horderly.loaded.distinct hgone] at hfind
      exact hfind
    · have hlive : k.registry.isRevoked call.lease = false := by
        rw [← Bool.not_eq_true, hrevoked]
        exact hstays
      obtain ⟨r, hr, hs⟩ := Registry.isRevoked_eq_false.mp hlive
      exact ⟨r, hr, hs, fun cancelled outcome slots other =>
        Call.find?_conclude (horderly.begun hflight).1 hr hs other⟩

end Concourse

-- ---------------------------------------------------------------------------
-- A worker that was replaced
-- ---------------------------------------------------------------------------

namespace Opening

open Concourse

def soloLeft : Concourse :=
  { alone soloStart.pass with registry := (soloStart.pass.registry.deregister "runner").1 }

/-- The solo where another has come under the id of the worker that left. -/
def soloReplaced : Concourse :=
  { soloLeft with registry := soloLeft.registry.register ⟨"runner", ["run"], 1.0⟩ 1 }

def soloFirst : Call := ⟨⟨1, "only", "runner", 1, 0⟩, ⟨"runner", 0, 0⟩, .null, 30000⟩

theorem annals_soloReplaced : ∃ log, Annals log soloReplaced ∧ .removed "runner" 0 ∈ log ∧
    answered log "runner" 1 = [] := by
  have hcame : Annals [.enrolled "runner" 0] { registry := solo.registry, now := 0 } :=
    (Annals.empty (.ofLimits 1 50) 0).shift (.enrolls ⟨"runner", ["run"], 1.0⟩ 0 rfl)
  have hjoined : Annals [.enrolled "runner" 0] (alone soloStart) :=
    hcame.shift (.joins rfl rfl course_solo)
  have hsent : ∃ log, Annals log (alone soloStart.pass) :=
    ⟨_, hjoined.shift (.acts (i := 0) (m := soloStart.member) rfl (.pass rfl rfl))⟩
  obtain ⟨log, hsent⟩ := hsent
  have hleft : Annals (log ++ [.removed "runner" 0]) soloLeft :=
    hsent.shift (.removes "runner" (r := ⟨⟨"runner", ["run"], 1.0⟩, 0, 0, {}, 1⟩)
      (by decide +kernel))
  have hreplaced : Annals _ soloReplaced :=
    hleft.shift (.enrolls ⟨"runner", ["run"], 1.0⟩ 1 (by decide +kernel))
  have hnumber : soloLeft.registry.nextSeq = 1 := by decide +kernel
  have hnew := hleft.recorded.answered_new "runner"
  rw [hnumber] at hreplaced hnew
  refine ⟨_, hreplaced, by simp, ?_⟩
  rw [answered, List.filterMap_append, ← answered, hnew]
  rfl

/-- Whatever comes of the call to the worker that has left, the one that came in its place has no
failures, and no result comes in. -/
theorem replaced_spared : ∃ log, Annals log soloReplaced ∧
    (∃ r, soloReplaced.registry.find? "runner" = some r ∧ r.seq = 1 ∧ r.breaker = {}) ∧
    soloFirst ∈ soloStart.pass.run.calls ∧
    ∀ outcome slots, soloFirst.conclude false outcome soloReplaced.now soloReplaced.registry slots =
      (.revoked, soloReplaced.registry, slots.release) := by
  obtain ⟨log, h, hremoved, hnone⟩ := annals_soloReplaced
  obtain ⟨hheard, -, -, hcalls⟩ := own_outcomes_only h
  have hcurrent : (soloReplaced.registry.find? "runner").map (·.seq) = some 1 := by
    decide +kernel
  obtain ⟨r, hr, hseq⟩ := Option.map_eq_some_iff.mp hcurrent
  have hflight : soloFirst ∈ soloStart.pass.run.calls := by decide +kernel
  obtain ⟨hended, -⟩ := (hcalls 0 soloStart.pass.member soloFirst rfl hflight).1 hremoved
  exact ⟨log, h, ⟨r, hr, hseq, (hheard "runner" r hr).2 (hseq ▸ hnone)⟩, hflight,
    fun outcome slots => hended false outcome slots⟩

end Opening

end Crew
