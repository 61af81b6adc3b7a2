import Crew.Proofs.Run.Droughts
import Crew.Proofs.Run.Settlement

/-!
# What a run trusts

A session takes its trust table from the registry when it starts, and every pass that finds ready
tasks brings the table up to date with the workers registered by then. So a worker has the entry
that the latest such pass has found, or the one of before if none has found the worker
(`Course.Shows.trust`). Entries never go away, and a worker that nobody registers anew keeps its
own. What an attempt comes to depends on the entries of those who answered only
(`Resolver.resolve_congr`).

An entry is not kept as it was: a worker that is registered anew with another weight has that weight
from the next of these passes on, also in attempts that are under way (`relay_reweighed`).
-/

namespace Crew

theorem Resolver.resolve_congr (resolver : Resolver) (taskId : String) {results : List TaskResult}
    {trust trust' : TrustTable} (h : ∀ r ∈ results,
      Table.get? trust r.workerId = Table.get? trust' r.workerId) :
    resolver.resolve taskId results trust = resolver.resolve taskId results trust' := by
  have hcandidates : candidates results trust = candidates results trust' := by
    unfold candidates
    rw [List.filterMap_congr fun r hr => by
      rw [TrustTable.seq, TrustTable.weight, h r hr, ← TrustTable.seq, ← TrustTable.weight]]
  rw [resolve, hcandidates, resolve]

-- ---------------------------------------------------------------------------
-- Passes
-- ---------------------------------------------------------------------------

namespace Run

variable {run run' : Run} {task : Task} {now : Nat}

theorem Turn.trust (h : Turn run task now run') : run'.session.trust = run.session.trust := by
  have hmark : (run.session.markWaiting task.id now).1.trust = run.session.trust := by
    unfold Session.markWaiting
    split <;> rfl
  cases h with
  | waits => rfl
  | lacks => exact hmark
  | givesUp => exact hmark
  | sends => exact (calls_foldl_place _ _ _ _ _).1
  | withdraws => rfl

theorem trust_dispatchAll (tasks : List Task) (run : Run) (reg : Registry) (now : Nat) :
    (dispatchAll now tasks run reg).1.session.trust = run.session.trust := by
  induction tasks generalizing run reg with
  | nil => rfl
  | cons task rest ih => exact (ih _ _).trans (run.dispatchTask_turn reg task now).trust

theorem trust_dispatchReady (run : Run) (reg : Registry) (now : Nat) :
    (run.dispatchReady reg now).1.session.trust = if run.session.readyTasks = [] then
      run.session.trust else run.session.trust.merge reg.trustTable := by
  unfold dispatchReady
  split
  next hnone => rw [if_pos hnone]
  next hsome =>
    rw [if_neg hsome, trust_dispatchAll]
    rfl

theorem trust_prepare (run : Run) (reg : Registry) (now : Nat) :
    (run.prepare reg now).1.session.trust = run.session.trust :=
  (run.session.roster_skipDownstream run.session.order).2

end Run

namespace Sight

/-- What the pass learns about a worker. Without ready tasks it does not look. -/
def known (workerId : String) (v : Sight) : Option TrustEntry :=
  if v.session.readyTasks = [] then none else Table.get? v.registry.trustTable workerId

/-- What the latest pass that has found the worker has learned about it. -/
def lastKnown (workerId : String) (sights : List Sight) : Option TrustEntry :=
  sights.reverse.findSome? (known workerId)

theorem lastKnown_concat (workerId : String) (sights : List Sight) (v : Sight) :
    lastKnown workerId (sights ++ [v]) = (v.known workerId).or (lastKnown workerId sights) := by
  rw [lastKnown, List.reverse_append, List.reverse_singleton, List.singleton_append,
    List.findSome?_cons]
  cases v.known workerId <;> rfl

/-- If the pass learns about the worker at all, it learns what is known already. -/
def Confirms (trust : TrustTable) (workerId : String) (v : Sight) : Prop :=
  v.known workerId = none ∨ v.known workerId = Table.get? trust workerId

end Sight

namespace Course

variable {c c₁ c' : Course} {sights : List Sight}

theorem trust_pass (c : Course) :
    c.pass.run.session.trust = if c.sight.session.readyTasks = [] then c.run.session.trust
      else c.run.session.trust.merge c.sight.registry.trustTable := by
  have hpass : c.pass.run = (c.run.pass c.registry c.now).1 := rfl
  rw [hpass, Run.pass_eq]
  dsimp only
  rw [Run.session_observeScaling]
  refine (Session.roster_skipDownstream _ _).2.trans ((Run.trust_dispatchReady _ _ _).trans ?_)
  rw [Run.trust_prepare]
  rfl

theorem distinct_sight (hd : c.registry.Distinct) : c.sight.registry.Distinct :=
  Registry.Changes.distinct hd (c.run.rests_propagateFailures c.registry).uses.changes

theorem get?_trust_pass (hd : c.registry.Distinct) (workerId : String) :
    Table.get? c.pass.run.session.trust workerId =
      (c.sight.known workerId).or (Table.get? c.run.session.trust workerId) := by
  rw [trust_pass, Sight.known]
  split
  · rfl
  · exact TrustTable.get?_merge _ (by rw [Registry.keys_trustTable]; exact distinct_sight hd) _

theorem Between.trust (h : c.Between c') : c'.run.session.trust = c.run.session.trust := by
  cases h with
  | completes _ n outcome =>
    rcases c.complete_cases n outcome with h | ⟨call, -, -, h⟩
    · rw [h]
    · exact h.trust
  | stops =>
    rw [session_stop]
    rfl
  | _ => rfl

theorem Between.move (h : c.Between c') (hr : Registry.Changes c.registry c'.registry) :
    c.Move c' := by
  cases h with
  | completes hp n outcome => exact .own (.complete hp n outcome)
  | wakes hp hc => exact .own (.wake hp hc)
  | leaves hp hc => exact .own (.leave hp hc)
  | stops hp hc => exact .own (.stop hp hc)
  | cancels => exact .cancels
  | advances h => exact .advances h
  | meddles registry => exact .changes hr

/-- What the passes see on the way from one course to another, while workers come and go. -/
inductive Shows (c : Course) : List Sight → Course → Prop
  | start : Shows c [] c
  | passes {sights : List Sight} {c₁ : Course} (h : Shows c sights c₁) (hp : c₁.phase = .pass)
      (hc : c₁.cancelled = false) : Shows c (sights ++ [c₁.sight]) c₁.pass
  | goesOn {sights : List Sight} {c₁ c₂ : Course} (h : Shows c sights c₁) (hb : c₁.Between c₂)
      (hr : Registry.Changes c₁.registry c₂.registry) : Shows c sights c₂

theorem Shows.moves (h : c.Shows sights c') : c.Moves c' := by
  induction h with
  | start => exact .refl
  | passes _ hp hc ih => exact ih.tail (.own (.pass hp hc))
  | goesOn _ hb hr ih => exact ih.tail (hb.move hr)

theorem Moves.exists_shows (h : c.Moves c') : ∃ sights, c.Shows sights c' := by
  induction h with
  | refl => exact ⟨[], .start⟩
  | tail _ hm ih =>
    obtain ⟨sights, hshows⟩ := ih
    rcases hm.step.pass_or_between with ⟨hp, hc, rfl⟩ | hb
    · exact ⟨_, hshows.passes hp hc⟩
    · exact ⟨_, hshows.goesOn hb hm.changes_registry⟩

theorem Shows.trust (hb : c.registry.Built) (h : c.Shows sights c') (workerId : String) :
    Table.get? c'.run.session.trust workerId =
      (Sight.lastKnown workerId sights).or (Table.get? c.run.session.trust workerId) := by
  induction h with
  | start => rfl
  | @passes sights c₁ h hp hc ih =>
    have hdistinct : c₁.registry.Distinct := (Moves.built hb h.moves).distinct
    rw [get?_trust_pass hdistinct, ih, Sight.lastKnown_concat, Option.or_assoc]
  | goesOn _ hbetween _ ih =>
    rw [hbetween.trust]
    exact ih

theorem Shows.confirmed {workerId : String} (hb : c.registry.Built) (h : c.Shows sights c')
    (hk : ∀ v ∈ sights, v.Confirms c.run.session.trust workerId) :
    Table.get? c'.run.session.trust workerId = Table.get? c.run.session.trust workerId := by
  rw [h.trust hb, Sight.lastKnown]
  cases hknown : sights.reverse.findSome? (Sight.known workerId) with
  | none => rfl
  | some entry =>
    obtain ⟨v, hv, he⟩ := List.exists_of_findSome?_eq_some hknown
    rcases hk v (List.mem_reverse.mp hv) with hnone | hsame
    · cases hnone.symm.trans he
    · exact he.symm.trans hsame

theorem Closes.trust {id : String} {trust : TrustTable} {ends : List (String × Option Outcome)}
    (h : c.Closes id trust ends c') : c'.run.session.trust = trust := by
  cases h with
  | last _ hp _ _ _ ht outcome => exact (Between.completes hp _ outcome).trust.trans ht

end Course

-- ---------------------------------------------------------------------------
-- Attempts under way
-- ---------------------------------------------------------------------------

namespace Opening

variable {o : Opening} {c c' : Course} {id : String} {trust : TrustTable}
  {ends : List (String × Option Outcome)} {sights : List Sight}

theorem Attains.resolved_of_confirms (ho : o.registry.Built) (hc : o.Attains c)
    (h : c.Closes id trust ends c') (hv : c.Shows sights c')
    (hk : ∀ answer ∈ c.gathered id ++ Course.brought ends, ∀ v ∈ sights,
      v.Confirms c.run.session.trust answer.1) :
    ∃ results, Resolver.Unrepeated results ∧
      Resolver.said results = c.gathered id ++ Course.brought ends ∧
      c'.run.canonical? id = (c.run.policy.resolver.resolve id results
        c.run.session.trust).or (c.run.canonical? id) := by
  obtain ⟨results, hn, hsaid, hresolved⟩ := hc.resolved ho h
  refine ⟨results, hn, hsaid, ?_⟩
  rw [hresolved, Resolver.resolve_congr _ id fun r hr => ?_]
  have hanswer : (r.workerId, r.outcome) ∈ c.gathered id ++ Course.brought ends :=
    hsaid ▸ List.mem_map_of_mem (f := fun r => (r.workerId, r.outcome)) hr
  rw [← h.trust]
  exact hv.confirmed (hc.built ho) (hk _ hanswer)

/-- The entry of a worker is what the latest pass to learn about the worker has learned, and it
stays the same as long as passes learn nothing new about it. So if they learn nothing new about the
workers that answer an attempt, then for the same answers the attempt comes to the same, whatever
else happens while it is under way, and whether or not other tasks become ready meanwhile. -/
theorem trust_exact (ho : o.registry.Built) (hc : o.Attains c) :
    (∀ sights c', c.Shows sights c' → ∀ workerId,
      Table.get? c'.run.session.trust workerId =
        (Sight.lastKnown workerId sights).or (Table.get? c.run.session.trust workerId)) ∧
    (∀ sights c', c.Shows sights c' → ∀ workerId,
      (∀ v ∈ sights, v.Confirms c.run.session.trust workerId) →
      Table.get? c'.run.session.trust workerId = Table.get? c.run.session.trust workerId) ∧
    ∀ id trust₁ trust₂ ends others sights₁ sights₂ c₁ c₂,
      c.Closes id trust₁ ends c₁ → c.Closes id trust₂ others c₂ → ends.Perm others →
      c.Shows sights₁ c₁ → c.Shows sights₂ c₂ →
      (∀ answer ∈ c.gathered id ++ Course.brought ends, ∀ v ∈ sights₁ ++ sights₂,
        v.Confirms c.run.session.trust answer.1) →
      c₁.run.canonical? id = c₂.run.canonical? id := by
  have hb := hc.built ho
  refine ⟨fun sights c' h => h.trust hb, fun sights c' h workerId hk => h.confirmed hb hk,
    fun id trust₁ trust₂ ends others sights₁ sights₂ c₁ c₂ h₁ h₂ hperm hv₁ hv₂ hk => ?_⟩
  have hanswers : (c.gathered id ++ Course.brought ends).Perm
      (c.gathered id ++ Course.brought others) := (hperm.filterMap _).append_left _
  obtain ⟨results₁, hn, hsaid₁, hresolved₁⟩ := hc.resolved_of_confirms ho h₁ hv₁
    fun answer ha v hv => hk answer ha v (List.mem_append_left _ hv)
  obtain ⟨results₂, -, hsaid₂, hresolved₂⟩ := hc.resolved_of_confirms ho h₂ hv₂
    fun answer ha v hv => hk answer (hanswers.mem_iff.mpr ha) v (List.mem_append_right _ hv)
  have hsaid : (Resolver.said results₁).Perm (Resolver.said results₂) := by
    rw [hsaid₁, hsaid₂]
    exact hanswers
  rw [hresolved₁, hresolved₂, Resolver.resolve_eq_of_said _ id hn hsaid]

-- ---------------------------------------------------------------------------
-- Workers that register anew
-- ---------------------------------------------------------------------------

def duetRenewed : Course :=
  let c := duetCalled.complete 1 duetYes
  { c with registry := c.registry.register ⟨"right", ["run"], 9.0⟩ 1 }

theorem registers_duet : Registry.Changes (duetCalled.complete 1 duetYes).registry
    duetRenewed.registry := .single (.registers ⟨"right", ["run"], 9.0⟩ 1)

theorem shows_duetRenewed : duetCalled.Shows [duetRenewed.sight]
    (duetRenewed.pass.complete 2 duetNo) := by
  have hleft := (Course.Own.complete (c := duetCalled) rfl 1 duetYes)
  have hwait : duetRenewed.pass.phase = .wait := by decide +kernel
  have hright := Course.Own.complete (c := duetRenewed.pass) hwait 2 duetNo
  exact (((Course.Shows.start.goesOn (.completes rfl 1 duetYes) hleft.uses.changes).goesOn
    (.meddles _) registers_duet).passes rfl rfl).goesOn (.completes hwait 2 duetNo)
      hright.uses.changes

theorem closes_duetRenewed : duetCalled.Closes "only" duetCalled.run.session.trust
    [duetCalled.told duetLeft duetYes, duetRenewed.pass.told duetRight duetNo]
    (duetRenewed.pass.complete 2 duetNo) := by
  have hleft : duetLeft ∈ duetCalled.run.calls := by decide +kernel
  have hright : duetRight ∈ duetRenewed.pass.run.calls := by decide +kernel
  have hrenewed : duetCalled.Ends "only" [duetCalled.told duetLeft duetYes] duetRenewed :=
    (Course.Ends.start.ends rfl hleft rfl duetYes).aside (.changes registers_duet) rfl
  have hpass := hrenewed.aside (.own (.pass rfl rfl)) (by decide +kernel)
  exact .last hpass (by decide +kernel) hright rfl (by decide +kernel)
    (by with_unfolding_all rfl) duetNo

theorem shows_duet : duetCalled.Shows [(duetCalled.complete 2 duetNo).sight]
    ((duetCalled.complete 2 duetNo).pass.complete 1 duetYes) := by
  have hright := Course.Own.complete (c := duetCalled) rfl 2 duetNo
  have hwait : (duetCalled.complete 2 duetNo).pass.phase = .wait := by decide +kernel
  have hleft := Course.Own.complete hwait 1 duetYes
  exact ((Course.Shows.start.goesOn (.completes rfl 2 duetNo) hright.uses.changes).passes
    rfl rfl).goesOn (.completes hwait 1 duetYes) hleft.uses.changes

/-- As long as no task becomes ready, it makes no difference to the duet that one of its workers is
registered anew. -/
theorem duet_unmoved :
    Table.get? (duetRenewed.pass.complete 2 duetNo).run.session.trust "right" = some ⟨1, 1.0⟩ ∧
    (duetRenewed.pass.complete 2 duetNo).run.canonical? "only" =
      ((duetCalled.complete 2 duetNo).pass.complete 1 duetYes).run.canonical? "only" := by
  obtain ⟨-, hentry, hcanonical⟩ := trust_exact built_duet attains_duetCalled
  have hidle₁ : duetRenewed.sight.session.readyTasks = [] := by decide +kernel
  have hidle₂ : (duetCalled.complete 2 duetNo).sight.session.readyTasks = [] := by decide +kernel
  have hconfirms : ∀ v ∈ [duetRenewed.sight, (duetCalled.complete 2 duetNo).sight],
      ∀ workerId, v.Confirms duetCalled.run.session.trust workerId :=
    List.forall_mem_cons.mpr ⟨fun _ => .inl (if_pos hidle₁),
      List.forall_mem_singleton.mpr fun _ => .inl (if_pos hidle₂)⟩
  refine ⟨?_, ?_⟩
  · rw [hentry _ _ shows_duetRenewed "right" fun v hv =>
      hconfirms v (List.mem_append_left [_] hv) "right"]
    decide +kernel
  · have hright := closes_duet duetRight duetLeft duetNo duetYes rfl (by decide +kernel)
      (by decide +kernel) (by decide +kernel) (by decide +kernel) (by with_unfolding_all rfl)
    exact hcanonical "only" _ _ _ _ _ _ _ _ closes_duetRenewed hright (by decide +kernel)
      shows_duetRenewed shows_duet fun answer _ v hv => hconfirms v hv answer.1

def relayReweighed : Course :=
  { relayStart with registry := relayStart.registry.register ⟨"runner", ["run"], 5.0⟩ 0 }

/-- A worker that a session knows already can have another weight after a pass. -/
theorem relay_reweighed :
    relay.registry.Built ∧ relay.Attains relayStart ∧ relayStart.Moves relayReweighed.pass ∧
      Table.get? relayStart.run.session.trust "runner" = some ⟨0, 1.0⟩ ∧
      Table.get? relayReweighed.pass.run.session.trust "runner" = some ⟨0, 5.0⟩ := by
  have hbuilt : relay.registry.Built :=
    ⟨.ofLimits 3 30000, .single (.registers ⟨"runner", ["run"], 1.0⟩ 0)⟩
  have hrenews : relayStart.Move relayReweighed := .changes (.single (.registers _ _))
  exact ⟨hbuilt, ⟨_, course_relay, .refl⟩, .head hrenews (.single (.own (.pass rfl rfl))),
    by decide +kernel, by decide +kernel⟩

end Opening

end Crew
