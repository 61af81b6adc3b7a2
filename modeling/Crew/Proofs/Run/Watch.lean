import Mathlib.Data.Prod.Lex
import Crew.Proofs.Run.Chronicle
import Crew.Proofs.Run.Custody
import Crew.Proofs.Run.Stillness

/-!
# Runs that are watched

A run is watched under a clock that stands still while anything can be done and then goes on, no
further than to the next pass and to the first deadline of a call (`Watch.Step`). How calls end, and
when, is left open but for their deadlines, and the run may be cancelled at any time.

Every step leaves less to do, or waits for fewer calls, or brings the next pass nearer to a time at
which everything is due (`Watch.Step.lowers`). So whatever happens, a run that has its registry to
itself ends (`Watch.InOrder.inevitable`).
-/

namespace Crew

open Registry (Uses)

/-- `wake` is the time of the next pass if nothing happens before. -/
structure Watch where
  course : Course
  wake : Nat

namespace Watch

inductive Step (w : Watch) : Watch → Prop
  | passes (hp : w.course.phase = .pass) (hc : w.course.cancelled = false) :
    Step w ⟨w.course.pass, w.course.pass.run.wakeAt w.course.now⟩
  | ends (hp : w.course.phase = .wait) {call : Call} (hm : call ∈ w.course.run.calls)
    (outcome : Outcome) :
    Step w { w with course := w.course.complete call.assignment.id outcome }
  | wakes (hp : w.course.phase = .wait) (hc : w.course.cancelled = false)
    (hd : w.wake ≤ w.course.now) : Step w { w with course := w.course.wake }
  | leaves (hp : w.course.phase = .leave) (hc : w.course.cancelled = false) :
    Step w { w with course := w.course.leave }
  | jumps {now : Nat} (hp : w.course.phase = .wait) (hc : w.course.cancelled = false)
    (hlt : w.course.now < now) (hw : now ≤ w.wake)
    (hd : ∀ call ∈ w.course.run.calls, now ≤ call.deadline) :
    Step w { w with course := { w.course with now } }
  | cancels (hp : w.course.phase ≠ .ended) (hc : w.course.cancelled = false) :
    Step w { w with course := { w.course with cancelled := true } }
  | stops (hp : w.course.phase ≠ .ended) (hc : w.course.cancelled = true) :
    Step w { w with course := w.course.stop }

abbrev Steps : Watch → Watch → Prop := Relation.ReflTransGen Step

/-- Whichever steps are made, after finitely many of them this holds. -/
inductive Inevitably (Done : Watch → Prop) : Watch → Prop
  | now {w : Watch} (h : Done w) : Inevitably Done w
  | later {w : Watch} (hs : ∃ w', w.Step w') (h : ∀ w', w.Step w' → Inevitably Done w') :
    Inevitably Done w

def Over (w : Watch) : Prop := w.course.phase = .ended ∧ w.course.run.session.isFinished

end Watch

theorem Session.isFinished_cancel (s : Session) : s.cancel.isFinished := by
  have hcancel (p : Progress) : p.cancel.state.isTerminal := by
    unfold Progress.cancel
    split
    next ht => exact ht
    · rfl
  simp [isFinished, cancel, Table.values, Table.map, hcancel]

namespace Watch

variable {o : Opening} {w w' : Watch} {served : String → Bool} {bound : Nat}

-- ---------------------------------------------------------------------------
-- Order
-- ---------------------------------------------------------------------------

/-- The run has its registry to itself. -/
structure InOrder (o : Opening) (w : Watch) : Prop where
  leads : o.Leads w.course
  uses : Uses o.registry w.course.registry
  alone : w.course.run.Alone w.course.now w.course.registry
  left : w.course.phase = .leave → w.course.run.session.isFinished
  ended : w.course.phase = .ended → w.course.run.session.isFinished

theorem inOrder_start {c : Course} (h : o.course = .ok c) (hl : o.registry.Loaded [])
    (wake : Nat) : InOrder o ⟨c, wake⟩ := by
  have hrests := Opening.rests_course h
  have hloaded := hl.rests hrests
  obtain ⟨graph, registry, count, -, -, -, -, rfl⟩ := Opening.course_eq_ok.mp h
  exact ⟨⟨_, h, .refl⟩, hrests.uses,
    ⟨hloaded, List.forall_mem_nil _, List.forall_mem_nil _⟩, nofun, nofun⟩

theorem Step.solitary (h : w.Step w') : w.course.Solitary w'.course := by
  cases h with
  | passes hp hc => exact .own (.pass hp hc)
  | ends hp hm outcome => exact .own (.complete hp _ outcome)
  | wakes hp hc => exact .own (.wake hp hc)
  | leaves hp hc => exact .own (.leave hp hc)
  | jumps hp hc hlt => exact .advances (Nat.le_of_lt hlt)
  | cancels => exact .cancels
  | stops hp hc => exact .own (.stop hp hc)

theorem Step.uses (h : w.Step w') : Uses w.course.registry w'.course.registry := by
  cases h with
  | passes hp hc => exact Course.Own.uses (.pass hp hc)
  | ends hp hm outcome => exact Course.Own.uses (.complete hp _ outcome)
  | wakes | leaves | jumps | cancels => exact .refl
  | stops hp hc => exact Course.Own.uses (.stop hp hc)

theorem InOrder.reaches (h : InOrder o w) : o.Reaches w.course := h.leads.reaches

theorem InOrder.passage (h : InOrder o w) : Run.Passage w.course.now w.course.run
    w.course.registry (w.course.run.passNotes w.course.registry w.course.now) w.course.pass.run
    w.course.pass.registry :=
  Run.pass_passage _ _ _ h.reaches.sound.run.books.distinct h.alone.loaded.distinct

theorem InOrder.step (h : InOrder o w) (hs : w.Step w') : InOrder o w' := by
  obtain ⟨c₀, h₀, hc₀⟩ := h.leads
  refine ⟨⟨c₀, h₀, hc₀.tail hs.solitary⟩, h.uses.trans hs.uses, ?_, ?_, ?_⟩
  · cases hs with
    | passes => exact h.passage.alone h.alone
    | ends _ _ outcome => exact h.reaches.sound.run.alone_complete h.alone _ _ outcome
    | wakes | leaves | cancels => exact h.alone
    | jumps _ _ _ _ hd => exact ⟨h.alone.loaded, h.alone.held, hd⟩
    | stops => exact Run.alone_cancel h.alone
  · intro hl
    cases hs with
    | passes =>
      dsimp only at hl ⊢
      rw [Course.phase_pass] at hl
      split at hl
      next hf => exact hf
      · cases hl
    | ends | wakes | leaves | stops => cases hl
    | jumps | cancels => exact h.left hl
  · intro he
    cases hs with
    | passes =>
      dsimp only at he
      rw [Course.phase_pass] at he
      split at he <;> cases he
    | ends | wakes => cases he
    | leaves hp => exact h.left hp
    | jumps | cancels => exact h.ended he
    | stops =>
      rw [Course.session_stop]
      exact Session.isFinished_cancel _

/-- As long as a run has not ended something can happen: if neither the next pass is due nor a call,
the clock goes on. -/
theorem exists_step (hp : w.course.phase ≠ .ended) :
    ∃ w', w.Step w' := by
  cases hc : w.course.cancelled with
  | true => exact ⟨_, .stops hp hc⟩
  | false =>
    cases hphase : w.course.phase with
    | pass => exact ⟨_, .passes hphase hc⟩
    | leave => exact ⟨_, .leaves hphase hc⟩
    | ended => exact absurd hphase hp
    | wait =>
      by_cases hwake : w.wake ≤ w.course.now
      · exact ⟨_, .wakes hphase hc hwake⟩
      by_cases hdue : ∃ call ∈ w.course.run.calls, call.deadline ≤ w.course.now
      · obtain ⟨call, hm, -⟩ := hdue
        exact ⟨_, .ends hphase hm .timedOut⟩
      · refine ⟨_, .jumps hphase hc (Nat.lt_succ_self _) (Nat.lt_of_not_le hwake)
          fun call hm => ?_⟩
        exact Nat.lt_of_not_le fun hle => hdue ⟨call, hm, hle⟩

-- ---------------------------------------------------------------------------
-- Calls that end
-- ---------------------------------------------------------------------------

theorem InOrder.progress_complete {task : Task} {p : Progress} (h : InOrder o w)
    (hc : w.course.cancelled = false) (n : Nat) (outcome : Outcome)
    (ht : task ∈ w.course.run.session.graph.tasks)
    (hp : w.course.run.session.progress? task.id = some p) :
    ∃ p', (w.course.complete n outcome).run.session.progress? task.id = some p' ∧
      (p' = p ∨ ∃ result k k', p.Return task (some result) k p' k') := by
  rcases Course.complete_progress h.reaches.sound n outcome ht hp with
    hsame | ⟨call, hm, -, -, p', hp', hreturn⟩
  · exact ⟨p, hsame, .inl rfl⟩
  · have hyield : call.yield w.course.cancelled w.course.registry outcome w.course.now =
        some (call.result outcome w.course.now) := by
      rw [Call.yield, hc, h.alone.held call hm, Bool.or_self, if_neg Bool.false_ne_true]
    rw [hyield] at hreturn
    exact ⟨p', hp', .inr ⟨_, _, _, hreturn⟩⟩

theorem InOrder.weight_complete_le (h : InOrder o w) (hc : w.course.cancelled = false) (n : Nat)
    (outcome : Outcome) : (w.course.complete n outcome).run.session.weight served ≤
      w.course.run.session.weight served := by
  have hs := h.reaches.sound
  have hcases : _ < w.course.run.session.weight served ∨ _ := Session.weight_lt_or_idle
    (Course.complete_follows hs n outcome).graph hs.run.books fun task ht p hp => by
      obtain ⟨p', hp', rfl | ⟨result, k, k', hreturn⟩⟩ :=
        h.progress_complete hc n outcome ht hp
      · exact ⟨p', hp', .inr (.refl p')⟩
      · exact ⟨p', hp', hreturn.weight⟩
  rcases hcases with hlt | ⟨hsame, -⟩
  · exact Nat.le_of_lt hlt
  · exact Nat.le_of_eq hsame

theorem InOrder.length_calls_complete (h : InOrder o w) {call : Call}
    (hm : call ∈ w.course.run.calls) (outcome : Outcome) :
    (w.course.complete call.assignment.id outcome).run.calls.length <
      w.course.run.calls.length := by
  have hs := h.reaches.sound.run
  have hreturn := hs.complete_return hm w.course.registry w.course.cancelled outcome
    w.course.now
  rw [(hreturn.calls_perm hs hm).length_eq]
  exact Nat.lt_succ_self _

-- ---------------------------------------------------------------------------
-- Ranks
-- ---------------------------------------------------------------------------

/-- By then everything is due, and all calls are overdue. -/
structure Due (served : String → Bool) (bound : Nat) (w : Watch) : Prop where
  ripe : w.course.run.session.Ripe served w.course.run.policy.execution.unavailableTimeout bound
  cooled : w.course.registry.Cooled bound
  calls : ∀ call ∈ w.course.run.calls, call.deadline < bound

def nextPass (w : Watch) : Nat :=
  if w.course.phase = .wait then max w.course.now w.wake else w.course.now

/-- How far a run is from its end, as far as it can be told before everything is due: what there is
left to do, how many calls are in flight, and how far the clock has to go. -/
def rank (served : String → Bool) (bound : Nat) (w : Watch) : ℕ ×ₗ ℕ ×ₗ ℕ ×ₗ ℕ ×ₗ ℕ :=
  toLex (w.course.run.session.weight served, toLex (w.course.run.calls.length,
    toLex (bound - w.nextPass, toLex (if w.course.phase = .wait then 1 else 0,
      w.wake - w.course.now))))

section
variable {bound' : Nat}
  (hw : w'.course.run.session.weight served ≤ w.course.run.session.weight served)

theorem rank_lt_of_weight
    (h : w'.course.run.session.weight served < w.course.run.session.weight served) :
    w'.rank served bound' < w.rank served bound :=
  Prod.Lex.toLex_lt_toLex.mpr (.inl h)

include hw

theorem rank_lt_of_calls (h : w'.course.run.calls.length < w.course.run.calls.length) :
    w'.rank served bound' < w.rank served bound :=
  Prod.Lex.toLex_lt_toLex'.mpr ⟨hw, fun _ => Prod.Lex.toLex_lt_toLex.mpr (.inl h)⟩

variable (hc : w'.course.run.calls.length ≤ w.course.run.calls.length)

include hc

theorem rank_lt_of_nextPass (h : bound - w'.nextPass < bound - w.nextPass) :
    w'.rank served bound < w.rank served bound :=
  Prod.Lex.toLex_lt_toLex'.mpr ⟨hw, fun _ => Prod.Lex.toLex_lt_toLex'.mpr ⟨hc, fun _ =>
    Prod.Lex.toLex_lt_toLex.mpr (.inl h)⟩⟩

theorem rank_lt_of_phase (hn : w'.nextPass = w.nextPass) (hp : w.course.phase = .wait)
    (hp' : w'.course.phase ≠ .wait) : w'.rank served bound < w.rank served bound := by
  refine Prod.Lex.toLex_lt_toLex'.mpr ⟨hw, fun _ => Prod.Lex.toLex_lt_toLex'.mpr ⟨hc, fun _ =>
    Prod.Lex.toLex_lt_toLex'.mpr ⟨Nat.le_of_eq (by rw [hn]), fun _ =>
      Prod.Lex.toLex_lt_toLex.mpr (.inl ?_)⟩⟩⟩
  rw [if_pos hp, if_neg hp']
  exact Nat.one_pos

theorem rank_lt_of_clock (hn : w'.nextPass = w.nextPass) (hp : w'.course.phase = w.course.phase)
    (h : w'.wake - w'.course.now < w.wake - w.course.now) :
    w'.rank served bound < w.rank served bound := by
  refine Prod.Lex.toLex_lt_toLex'.mpr ⟨hw, fun _ => Prod.Lex.toLex_lt_toLex'.mpr ⟨hc, fun _ =>
    Prod.Lex.toLex_lt_toLex'.mpr ⟨Nat.le_of_eq (by rw [hn]), fun _ =>
      Prod.Lex.toLex_lt_toLex.mpr (.inr ⟨?_, h⟩)⟩⟩⟩
  rw [hp]

end

theorem InOrder.exists_due (hb : o.registry.Built) (h : InOrder o w) (served : String → Bool) :
    ∃ bound, w.Due served bound := by
  obtain ⟨ripe, hripe⟩ := w.course.run.session.exists_ripe served
    w.course.run.policy.execution.unavailableTimeout
  obtain ⟨cooled, hcooled⟩ := (hb.dated.uses h.uses).exists_cooled
  let deadlines := (w.course.run.calls.map (·.deadline)).sum
  refine ⟨ripe + cooled + deadlines + 1, hripe.mono (by omega), hcooled.mono (by omega),
    fun call hm => ?_⟩
  have hle := List.le_sum_of_mem (List.mem_map_of_mem (f := (·.deadline)) hm)
  omega

theorem InOrder.lt_of_idle (h : InOrder o w) (hd : w.Due o.registry.covers bound)
    (hopen : ¬ w.course.pass.run.session.isFinished)
    (hsame : w.course.pass.run.session.weight o.registry.covers =
      w.course.run.session.weight o.registry.covers) : w.course.now < bound := by
  cases hcalls : w.course.run.calls with
  | cons call rest =>
    have hm : call ∈ w.course.run.calls := by
      rw [hcalls]
      exact List.mem_cons_self
    exact Nat.lt_of_le_of_lt (h.alone.due call hm) (hd.calls call hm)
  | nil =>
    by_contra hle
    have hloaded := h.alone.loaded
    rw [hcalls] at hloaded
    rcases h.reaches.pass_lowers h.uses.covers hcalls hloaded
      (hd.cooled.mono (Nat.le_of_not_lt hle)) (hd.ripe.mono (Nat.le_of_not_lt hle)) with hf | hlt
    · exact hopen hf
    · exact absurd hsame (Nat.ne_of_lt hlt)

/-- A pass that leaves as much to do as before and as many calls in flight puts off the next one,
but not beyond the time at which everything is due. -/
theorem InOrder.pass_lowers (hb : o.registry.Built) (h : InOrder o w)
    (hp : w.course.phase = .pass) (hc : w.course.cancelled = false)
    (hd : w.Due o.registry.covers bound) :
    let w' : Watch := ⟨w.course.pass, w.course.pass.run.wakeAt w.course.now⟩
    w'.course.phase = .leave ∨ ∃ bound', w'.Due o.registry.covers bound' ∧
      w'.rank o.registry.covers bound' < w.rank o.registry.covers bound := by
  intro w'
  have hs := h.reaches.sound.run
  have hstretch : Run.Stretch o.registry.covers w.course.now w.course.run w.course.pass.run :=
    w.course.run.pass_stretch w.course.registry h.uses.covers hs.books.distinct
  by_cases hf : w.course.pass.run.session.isFinished
  · refine .inl ?_
    change w.course.pass.phase = .leave
    rw [Course.phase_pass, if_pos hf]
  refine .inr ?_
  rcases hstretch.eases hs with hlt | ⟨hsame, hidle, hcalls⟩
  · obtain ⟨bound', hd'⟩ := (h.step (.passes hp hc)).exists_due hb o.registry.covers
    exact ⟨bound', hd', rank_lt_of_weight hlt⟩
  · have hlt := h.lt_of_idle hd hf hsame
    have hwake : w.course.now < w'.wake :=
      (Run.later_pass hs w.course.registry).lt_wakeAt
        ((hs.rounds hstretch.rounds).books.keys ▸ (hs.rounds hstretch.rounds).books.distinct)
    have hripe := hidle.ripe (Run.Rounds.graph hstretch.rounds) hd.ripe hs.books
    rw [← Run.Rounds.policy hstretch.rounds] at hripe
    refine ⟨bound, ⟨hripe, h.passage.cooled hd.cooled, fun call hm => hd.calls call (hcalls ▸ hm)⟩,
      rank_lt_of_nextPass (Nat.le_of_eq hsame) (Nat.le_of_eq (congrArg List.length hcalls)) ?_⟩
    have hphase : w'.course.phase = .wait := by
      change w.course.pass.phase = .wait
      rw [Course.phase_pass, if_neg hf]
    have hnext : w'.wake ≤ w'.nextPass := by
      rw [nextPass, if_pos hphase]
      exact Nat.le_max_right _ _
    have hbefore : w.nextPass = w.course.now := by
      rw [nextPass, if_neg (by simp [hp])]
    omega

theorem Step.lowers (hb : o.registry.Built) (h : InOrder o w) (hs : w.Step w')
    (hc : w'.course.cancelled = false) (hd : w.Due o.registry.covers bound) :
    w'.course.phase = .leave ∨ w'.course.phase = .ended ∨
      ∃ bound', w'.Due o.registry.covers bound' ∧
        w'.rank o.registry.covers bound' < w.rank o.registry.covers bound := by
  have h' := h.step hs
  cases hs with
  | passes hp hc => exact (h.pass_lowers hb hp hc hd).imp_right .inr
  | ends _ hm outcome =>
    obtain ⟨bound', hd'⟩ := h'.exists_due hb o.registry.covers
    exact .inr (.inr ⟨bound', hd', rank_lt_of_calls (h.weight_complete_le hc _ outcome)
      (h.length_calls_complete hm outcome)⟩)
  | wakes hp _ hdue =>
    refine .inr (.inr ⟨bound, ⟨hd.ripe, hd.cooled, hd.calls⟩,
      rank_lt_of_phase (Nat.le_refl _) (Nat.le_refl _) ?_ hp (by simp [Course.wake])⟩)
    simp [nextPass, hp, Course.wake, Nat.max_eq_left hdue]
  | @jumps now hp _ hlt hw =>
    refine .inr (.inr ⟨bound, ⟨hd.ripe, hd.cooled, hd.calls⟩,
      rank_lt_of_clock (Nat.le_refl _) (Nat.le_refl _) ?_ rfl ?_⟩)
    · simp only [nextPass, hp, if_true]
      omega
    · change w.wake - now < w.wake - w.course.now
      omega
  | cancels => cases hc
  | leaves | stops => exact .inr (.inl rfl)

-- ---------------------------------------------------------------------------
-- Ends
-- ---------------------------------------------------------------------------

theorem InOrder.inevitable_of_broken (h : InOrder o w) (hc : w.course.cancelled = true)
    (hw : w.course.phase ≠ .wait) : Inevitably Over w := by
  by_cases hp : w.course.phase = .ended
  · exact .now ⟨hp, h.ended hp⟩
  refine .later ⟨_, .stops hp hc⟩ fun w' hs => ?_
  have h' := h.step hs
  cases hs with
  | ends hwait => exact absurd hwait hw
  | passes _ hn | wakes _ hn | leaves _ hn | jumps _ hn | cancels _ hn => cases hc.symm.trans hn
  | stops => exact .now ⟨rfl, h'.ended rfl⟩

theorem InOrder.inevitable_of_cancelled (h : InOrder o w) (hc : w.course.cancelled = true) :
    Inevitably Over w := by
  by_cases hw : w.course.phase = .wait
  · refine .later ⟨_, .stops (by simp [hw]) hc⟩ fun w' hs => ?_
    have h' := h.step hs
    cases hs with
    | ends => exact h'.inevitable_of_broken hc nofun
    | passes _ hn | wakes _ hn | leaves _ hn | jumps _ hn | cancels _ hn =>
      cases hc.symm.trans hn
    | stops => exact .now ⟨rfl, h'.ended rfl⟩
  · exact h.inevitable_of_broken hc hw

theorem InOrder.inevitable_of_left (h : InOrder o w) (hp : w.course.phase = .leave) :
    Inevitably Over w := by
  refine .later (exists_step (by simp [hp])) fun w' hs => ?_
  have h' := h.step hs
  cases hs with
  | leaves => exact .now ⟨rfl, h.left hp⟩
  | cancels => exact h'.inevitable_of_cancelled rfl
  | stops => exact .now ⟨rfl, h'.ended rfl⟩
  | passes hn | ends hn | wakes hn | jumps hn => cases hp.symm.trans hn

theorem InOrder.inevitable (hb : o.registry.Built) (h : InOrder o w) : Inevitably Over w := by
  obtain ⟨bound, hd⟩ := h.exists_due hb o.registry.covers
  induction hr : w.rank o.registry.covers bound using WellFoundedLT.induction
    generalizing w bound with
  | ind r ih =>
    by_cases hp : w.course.phase = .ended
    · exact .now ⟨hp, h.ended hp⟩
    refine .later (exists_step hp) fun w' hs => ?_
    have h' := h.step hs
    cases hc : w'.course.cancelled with
    | true => exact h'.inevitable_of_cancelled hc
    | false =>
      rcases hs.lowers hb h hc hd with hl | he | ⟨bound', hd', hlt⟩
      · exact h'.inevitable_of_left hl
      · exact .now ⟨he, h'.ended he⟩
      · exact ih _ (hr ▸ hlt) h' bound' hd' rfl

end Watch

end Crew
