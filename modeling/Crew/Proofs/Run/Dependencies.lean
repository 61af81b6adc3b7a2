import Crew.Proofs.Run.Dispatched

/-!
# Dependencies come first

A task is tried only when all its dependencies have succeeded, and never if one of them fails or is
skipped (`dependencies_first`). Two invariants carry this: a task some dependency of which has not
succeeded is as it was at the start or skipped (`Progress.Enabled`), and a task is skipped exactly
if there is a reason for it that holds (`Progress.Blamed`).
-/

namespace Crew

namespace Progress

variable {s : Session} {task : Task} {p : Progress}

/-- No attempt of the task was ever begun. -/
def Untouched (p : Progress) : Prop :=
  p.attempts = 0 ∧ p.retriesUsed = 0 ∧ (p.state = .pending ∨ p.state = .skipped)

def Enabled (s : Session) (task : Task) (p : Progress) : Prop := p.Untouched ∨ s.Enables task

/-- A task is skipped for a reason: a dependency that failed or was skipped, or the end of the
run. -/
structure Blamed (s : Session) (task : Task) (p : Progress) : Prop where
  skipped : p.state = .skipped ↔ p.skipReason.isSome
  dependency : ∀ {dep}, p.skipReason = some (.dependencyFailed dep) →
    dep ∈ task.dependencies ∧ s.HasFailed dep
  cancelled : p.skipReason = some .cancelled → s.cancelled = true

theorem Enabled.enables (h : p.Enabled s task) (hp : p.state ≠ .pending) (hs : p.state ≠ .skipped) :
    s.Enables task := by
  rcases h with ⟨-, -, h | h⟩ | h
  · exact absurd h hp
  · exact absurd h hs
  · exact h

theorem kept_enabled : Session.Kept fun s task p => p.Enabled s task where
  mono hf h := h.imp_right hf.enables
  round h hr := by
    cases hr with
    | same => exact h
    | skip hp hm hd =>
      exact h.imp_left fun hu => ⟨hu.1, hu.2.1, .inr rfl⟩
    | release hp => exact .inr (h.enables (by simp [hp]) (by simp [hp]))
    | wait since hp he => exact .inr he
    | giveUp waited hp he => exact .inr he
    | send hk hp he => exact .inr he
    | withdraw hp he => exact .inr he
  back h hr := .inr (h.enables (by simp [hr.running]) (by simp [hr.running]))
  cancel _ h := by
    refine h.imp_left fun ⟨ha, hu, hs⟩ => ?_
    unfold Progress.cancel
    split
    · exact ⟨ha, hu, hs⟩
    · exact ⟨ha, hu, .inr rfl⟩

theorem Blamed.of_eq {p' : Progress} (h : p.Blamed s task) (hp : p.state ≠ .skipped)
    (hp' : p'.state ≠ .skipped) (hr : p'.skipReason = p.skipReason) : p'.Blamed s task := by
  have hnone : p'.skipReason = none := by
    rw [hr, ← Option.not_isSome_iff_eq_none]
    exact fun hsome => hp (h.skipped.mpr hsome)
  refine ⟨⟨fun hs => absurd hs hp', fun hs => ?_⟩, fun hd => ?_, fun hc => ?_⟩
  · rw [hnone] at hs
    cases hs
  · cases hnone.symm.trans hd
  · cases hnone.symm.trans hc

theorem Ending.skipReason {results : List TaskResult} {p' : Progress}
    (h : p.Ending task results p') : p'.skipReason = p.skipReason ∧ p'.state ≠ .skipped := by
  cases h <;> exact ⟨rfl, by simp [Progress.succeed, Progress.backOff, Progress.fail]⟩

theorem kept_blamed : Session.Kept fun s task p => p.Blamed s task where
  mono hf h :=
    ⟨h.skipped, fun hd => ⟨(h.dependency hd).1, hf.hasFailed (h.dependency hd).2⟩,
      fun hc => hf.cancelled (h.cancelled hc)⟩
  round h hr := by
    cases hr with
    | same => exact h
    | @skip dep hp hm hd =>
      refine ⟨by simp [Progress.skip], fun he => ?_, fun hc => ?_⟩
      · obtain rfl : dep = _ := by simpa [Progress.skip] using he
        exact ⟨hm, hd⟩
      · simp [Progress.skip] at hc
    | release hp => exact h.of_eq (by simp [hp]) (by simp) rfl
    | wait since hp he => exact h.of_eq (by simp [hp]) (by simp [hp]) rfl
    | giveUp waited hp he => exact h.of_eq (by simp [hp]) (by simp [Progress.fail]) rfl
    | send hk hp he => exact h.of_eq (by simp [hp]) (by simp [Progress.begin]) rfl
    | withdraw hp he =>
      exact h.of_eq (by simp [hp]) (by simp [Progress.begin, Progress.abort])
        (by simp [Progress.begin, Progress.abort])
  back h hr := by
    have hp := hr.running
    cases hr with
    | hear => exact h.of_eq (by simp [hp]) (by simp [Progress.account, hp]) rfl
    | requeue => exact h.of_eq (by simp [hp]) (by simp [Progress.requeue]) rfl
    | close _ _ _ he => exact h.of_eq (by simp [hp]) he.skipReason.2 he.skipReason.1
  cancel hc h := by
    unfold Progress.cancel
    split
    · exact h
    · exact ⟨by simp, fun he => by simp at he, fun _ => hc⟩

theorem Round.eq_of_succeeded {p' : Progress} {n n' : Nat} (h : p.Round s task n p' n')
    (hs : p'.state = .succeeded) : p' = p := by
  cases h with
  | same => rfl
  | withdraw => simp [Progress.begin, Progress.abort] at hs
  | wait since hp => cases hp.symm.trans hs
  | _ => cases hs

end Progress

-- ---------------------------------------------------------------------------
-- Single steps
-- ---------------------------------------------------------------------------

theorem Run.Round.enables {run run' : Run} {task : Task} (hs : run.Sound) (h : Run.Round run run')
    (he : run'.session.Enables task) : run.session.Enables task := by
  intro dep hd
  obtain ⟨q, hq, hqs⟩ := Session.state?_eq_some.mp (he dep hd)
  obtain ⟨known, hk, rfl⟩ := (hs.books.round h).exists_task hq
  rw [h.graph] at hk
  obtain ⟨p, hp, -⟩ := hs.books.progress hk
  obtain ⟨p', hp', hr⟩ := h.progress hs.books.distinct hk hp
  obtain rfl : p' = q := Option.some.inj (hp'.symm.trans hq)
  rw [hr.eq_of_succeeded hqs] at hqs
  exact Session.state?_eq_some.mpr ⟨p, hp, hqs⟩

theorem Run.Rounds.enables {run run' : Run} {task : Task} (hs : run.Sound)
    (h : Run.Rounds run run') (he : run'.session.Enables task) : run.session.Enables task := by
  induction h with
  | refl => exact he
  | tail h hr ih => exact ih (hr.enables (hs.rounds h) he)

namespace Course

variable {c c' : Course} {turn : Run × Task} {id : String}

def turns (c : Course) : List (Run × Task) := c.run.passTurns c.registry c.now

def Dispatches (c c' : Course) (id : String) : Prop :=
  ∃ sent, c'.registry.dispatched = c.registry.dispatched ++ sent ∧ id ∈ sent

theorem turn_enables (hs : c.Sound) (ht : turn ∈ c.turns) :
    turn.2 ∈ c.run.session.graph.tasks ∧ turn.1.session.Enables turn.2 ∧
      c.run.session.Enables turn.2 := by
  obtain ⟨hrounds, hm, hready⟩ := Run.passTurns_ready hs.run.books.distinct ht
  have he := (Session.isReady_iff.mp hready).2
  rw [Run.Rounds.graph hrounds] at hm
  exact ⟨hm, he, Run.Rounds.enables hs.run hrounds he⟩

/-- What a run announces of calls, it announces for tasks that have their turn. -/
theorem Own.dispatched (h : c.Own c') :
    ∃ sent, c'.registry.dispatched = c.registry.dispatched ++ sent ∧
      ∀ id ∈ sent, ∃ turn ∈ c.turns, turn.2.id = id := by
  have hquiet (h : c'.registry.dispatched = c.registry.dispatched) :
      ∃ sent, c'.registry.dispatched = c.registry.dispatched ++ sent ∧
        ∀ id ∈ sent, ∃ turn ∈ c.turns, turn.2.id = id :=
    ⟨[], h.trans (List.append_nil _).symm, fun id hid => nomatch hid⟩
  cases h with
  | pass => exact c.run.dispatched_pass c.registry c.now
  | complete _ n outcome =>
    exact hquiet (c.run.dispatched_complete c.registry n c.cancelled outcome c.now)
  | wake | leave => exact hquiet rfl
  | stop => exact hquiet (c.run.dispatched_cancel c.registry)

theorem Own.turn_of_dispatches (h : c.Own c') (hd : c.Dispatches c' id) :
    ∃ turn ∈ c.turns, turn.2.id = id := by
  obtain ⟨sent, he, hid⟩ := hd
  obtain ⟨sent', he', hturns⟩ := h.dispatched
  exact hturns id (List.append_cancel_left (he.symm.trans he') ▸ hid)

end Course

-- ---------------------------------------------------------------------------
-- Whole runs
-- ---------------------------------------------------------------------------

namespace Opening

variable {o : Opening} {c c₁ c' : Course} {task : Task} {dep : String}

theorem Reaches.enabled {p : Progress} (hc : o.Reaches c)
    (ht : task ∈ c.run.session.graph.tasks) (hp : c.run.session.progress? task.id = some p) :
    p.Enabled c.run.session task :=
  hc.all Progress.kept_enabled (fun _ _ => .inl ⟨rfl, rfl, .inl rfl⟩) task ht p hp

theorem Reaches.blamed {p : Progress} (hc : o.Reaches c)
    (ht : task ∈ c.run.session.graph.tasks) (hp : c.run.session.progress? task.id = some p) :
    p.Blamed c.run.session task :=
  hc.all Progress.kept_blamed (fun _ _ => ⟨by simp, fun h => by simp at h, fun h => by simp at h⟩)
    task ht p hp

theorem Reaches.enables {p p' : Progress} (hc : o.Reaches c) (h : c.Own c')
    (ht : task ∈ c.run.session.graph.tasks) (hp : c.run.session.progress? task.id = some p)
    (hp' : c'.run.session.progress? task.id = some p')
    (hb : p.attempts < p'.attempts ∨ p.state ≠ .running ∧ p'.state = .running) :
    c.run.session.Enables task := by
  have hne : p ≠ p' := by
    rintro rfl
    rcases hb with hlt | ⟨hn, hr⟩
    · exact Nat.lt_irrefl _ hlt
    · exact hn hr
  cases h with
  | pass hphase hcancelled =>
    have hrounds := Course.pass_rounds hc.sound
    have hc' : o.Reaches c.pass := hc.trans (.single (.own (.pass hphase hcancelled)))
    refine Run.Rounds.enables hc.sound.run hrounds ?_
    rcases hc'.enabled (by rw [Run.Rounds.graph hrounds]; exact ht) hp' with ⟨ha, -, hs⟩ | he
    · rcases hb with hlt | ⟨-, hr⟩
      · omega
      · simp [hr] at hs
    · exact he
  | complete _ n outcome =>
    rcases Course.complete_progress hc.sound n outcome ht hp with h | ⟨_, -, -, -, _, -, hr⟩
    · exact absurd (Option.some.inj (h.symm.trans hp')) hne
    · exact (hc.enabled ht hp).enables (by simp [hr.running]) (by simp [hr.running])
  | wake | leave => exact absurd (Option.some.inj (hp.symm.trans hp')) hne
  | stop =>
    rw [Course.session_stop, Session.progress?_cancel, hp] at hp'
    obtain rfl : p.cancel = p' := Option.some.inj hp'
    unfold Progress.cancel at hb hne
    split at hb
    next ht => exact absurd (if_pos ht).symm hne
    · simp at hb

/-- A task with a failed dependency has no turn, neither before that nor ever after. -/
theorem no_turn (hc : o.Reaches c) (hc₁ : o.Reaches c₁) (h : c₁.Steps c ∨ c.Steps c₁)
    (ht : task ∈ c.run.session.graph.tasks) (hd : dep ∈ task.dependencies)
    (hf : c.run.session.HasFailed dep) {turn : Run × Task} (hturn : turn ∈ c₁.turns) :
    turn.2.id ≠ task.id := by
  intro hid
  obtain ⟨hm, -, he⟩ := Course.turn_enables hc₁.sound hturn
  rcases h with h | h
  · have hfollows := Course.Steps.follows hc₁.sound h
    rw [← hfollows.graph] at hm
    obtain rfl := TaskGraph.eq_of_id_eq hc.sound.run.books.distinct ht hm hid
    exact (hfollows.enables he).not_hasFailed hd hf
  · have hfollows := Course.Steps.follows hc.sound h
    rw [hfollows.graph] at hm
    obtain rfl := TaskGraph.eq_of_id_eq hc.sound.run.books.distinct ht hm hid
    exact he.not_hasFailed hd (hfollows.hasFailed hf)

theorem skipped_of_hasFailed (hc : o.Reaches c) (ht : task ∈ c.run.session.graph.tasks)
    (hd : dep ∈ task.dependencies) (hf : c.run.session.HasFailed dep)
    (he : c.phase = .ended) (hn : c.run.session.cancelled = false) :
    ∃ p, c.run.session.progress? task.id = some p ∧ p.state = .skipped ∧
      ∃ blamed ∈ task.dependencies, p.skipReason = some (.dependencyFailed blamed) ∧
        c.run.session.HasFailed blamed := by
  obtain ⟨p, hp, -⟩ := hc.sound.run.books.progress ht
  have hover := hc.sound.ended he hp
  have henabled := hc.enabled ht hp
  have hblamed := hc.blamed ht hp
  have hs : p.state = .skipped := by
    by_contra hs
    have hp' : p.state ≠ .pending := fun hp' => by simp [hp', TaskState.isTerminal] at hover
    exact (henabled.enables hp' hs).not_hasFailed hd hf
  obtain ⟨reason, hr⟩ := Option.isSome_iff_exists.mp (hblamed.skipped.mp hs)
  cases reason with
  | dependencyFailed blamed =>
    obtain ⟨hm, hfailed⟩ := hblamed.dependency hr
    exact ⟨p, hp, hs, blamed, hm, hr, hfailed⟩
  | cancelled =>
    have := hblamed.cancelled hr
    rw [hn] at this
    cases this

/-- Wherever a run has come to: a task whose turn it is, of which an attempt has begun or for which
a call is announced, has all its dependencies succeeded; if a dependency of a task has failed or was
skipped, the task never had nor will have a turn or a call and is skipped in the end; and whatever
has ended stays as it is. -/
theorem dependencies_first (hc : o.Reaches c) :
    (∀ turn ∈ c.turns, ∀ dep ∈ turn.2.dependencies,
      turn.1.session.state? dep = some .succeeded) ∧
    (∀ c', c.Own c' → ∀ task ∈ c.run.session.graph.tasks, ∀ p p',
      c.run.session.progress? task.id = some p → c'.run.session.progress? task.id = some p' →
      p.attempts < p'.attempts ∨ p.state ≠ .running ∧ p'.state = .running →
      ∀ dep ∈ task.dependencies, c.run.session.state? dep = some .succeeded) ∧
    (∀ c', c.Own c' → ∃ sent, c'.registry.dispatched = c.registry.dispatched ++ sent ∧
      ∀ id ∈ sent, ∃ task ∈ c.run.session.graph.tasks, task.id = id ∧
        ∀ dep ∈ task.dependencies, c.run.session.state? dep = some .succeeded) ∧
    (∀ task ∈ c.run.session.graph.tasks, ∀ dep ∈ task.dependencies,
      (c.run.session.state? dep = some .permanentlyFailed ∨
        c.run.session.state? dep = some .skipped) →
      (∀ c₁, o.Reaches c₁ → c₁.Steps c ∨ c.Steps c₁ →
        (∀ turn ∈ c₁.turns, turn.2.id ≠ task.id) ∧
          ∀ c₂, c₁.Own c₂ → ¬ c₁.Dispatches c₂ task.id) ∧
      ∀ c', c.Steps c' → c'.phase = .ended → c'.run.session.cancelled = false →
        ∃ p, c'.run.session.progress? task.id = some p ∧ p.state = .skipped ∧
          ∃ blamed ∈ task.dependencies, p.skipReason = some (.dependencyFailed blamed) ∧
            c'.run.session.HasFailed blamed) ∧
    (∀ c', c.Steps c' → ∀ id p, c.run.session.progress? id = some p → p.state.isTerminal →
      c'.run.session.progress? id = some p) := by
  refine ⟨?_, ?_, ?_, ?_, ?_⟩
  · intro turn ht
    exact (Course.turn_enables hc.sound ht).2.1
  · intro c' h task ht p p' hp hp' hb
    exact hc.enables h ht hp hp' hb
  · intro c' h
    obtain ⟨sent, he, hturns⟩ := h.dispatched
    refine ⟨sent, he, fun id hid => ?_⟩
    obtain ⟨turn, ht, rfl⟩ := hturns id hid
    obtain ⟨hm, -, henables⟩ := Course.turn_enables hc.sound ht
    exact ⟨turn.2, hm, rfl, henables⟩
  · intro task ht dep hd hf
    refine ⟨fun c₁ hc₁ h => ?_, fun c' h he hn => ?_⟩
    · have hno {turn : Run × Task} (hturn : turn ∈ c₁.turns) : turn.2.id ≠ task.id :=
        no_turn hc hc₁ h ht hd hf hturn
      refine ⟨fun turn => hno, fun c₂ hown hdispatch => ?_⟩
      obtain ⟨turn, hturn, hid⟩ := hown.turn_of_dispatches hdispatch
      exact hno hturn hid
    · have hfollows := Course.Steps.follows hc.sound h
      rw [← hfollows.graph] at ht
      exact skipped_of_hasFailed (hc.trans h) ht hd (hfollows.hasFailed hf) he hn
  · intro c' h id p hp ht
    exact (Course.Steps.follows hc.sound h).ended hp ht

/-- When the first task of the relay has failed, the second is never sent out, and it is skipped
when the relay ends. -/
theorem second_skipped :
    relayFailed.run.session.state? "first" = some .permanentlyFailed ∧
      (∀ c, relayFailed.Steps c → ∀ c', c.Own c' → ¬ c.Dispatches c' "second") ∧
      relayEnded.phase = .ended ∧
      ∃ p, relayEnded.run.session.progress? "second" = some p ∧ p.state = .skipped ∧
        p.skipReason = some (.dependencyFailed "first") := by
  have hfailed : relayFailed.run.session.state? "first" = some .permanentlyFailed := by
    decide +kernel
  have hreaches : relay.Reaches relayFailed := ⟨_, course_relay, relay_fails⟩
  obtain ⟨-, -, -, hb, -⟩ := dependencies_first hreaches
  obtain ⟨hnever, hskipped⟩ := hb { id := "second", capability := "run", dependencies := ["first"] }
    (by decide +kernel) "first" (by decide) (.inl hfailed)
  refine ⟨hfailed, fun c hc c' h => (hnever c (hreaches.trans hc) (.inr hc)).2 c' h, rfl, ?_⟩
  obtain ⟨p, hp, hs, blamed, hm, hr, -⟩ :=
    hskipped relayEnded relay_leaves rfl (by decide +kernel)
  obtain rfl := List.mem_singleton.mp hm
  exact ⟨p, hp, hs, hr⟩

end Opening

end Crew
