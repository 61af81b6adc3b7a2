import Crew.Proofs.Resolution.Candidates
import Crew.Proofs.Run.Rosters

/-!
# The order in which calls end

While the calls of a task end (`Course.Ends`), the batch of its attempt grows by what they bring,
and when the last one is back the batch is resolved (`Run.Sound.complete_canonical`). The main
statement is `resolution_ignores_arrival`: what an attempt comes to depends on who answered what and
on the trust table of that moment, but not on the order in which its calls end.
-/

namespace Crew

namespace Resolver

variable {results others : List TaskResult} {trust : TrustTable}

def said (results : List TaskResult) : List (String × Outcome) :=
  results.map fun r => (r.workerId, r.outcome)

theorem said_append (results others : List TaskResult) :
    said (results ++ others) = said results ++ said others :=
  List.map_append

theorem answers_perm_of_said (h : (said results).Perm (said others)) :
    (answers results trust).Perm (answers others trust) := by
  have hsaid (results : List TaskResult) : answers results trust =
      (said results).filterMap fun x => x.2.payload?.map fun payload =>
        ⟨x.1, payload, trust.weight x.1⟩ := by
    rw [said, List.filterMap_map]
    rfl
  rw [hsaid, hsaid]
  exact h.filterMap _

theorem resolve_eq_of_said (resolver : Resolver) (taskId : String) (hn : Unrepeated results)
    (h : (said results).Perm (said others)) :
    resolver.resolve taskId results trust = resolver.resolve taskId others trust := by
  rw [resolve, candidates_eq_of_perm hn (answers_perm_of_said h), resolve]

theorem resolve_nil (resolver : Resolver) (taskId : String) (trust : TrustTable) :
    resolver.resolve taskId [] trust = none := by
  simp [resolve, candidates]

end Resolver

-- ---------------------------------------------------------------------------
-- The last call of an attempt
-- ---------------------------------------------------------------------------

namespace Run

variable {run : Run} {now n : Nat} {p : Progress} {id : String}

def canonical? (run : Run) (id : String) : Option CanonicalResult :=
  (run.session.progress? id).bind (·.canonical)

theorem closeAttempt_canonical (reg : Registry) (results : List TaskResult) (now : Nat)
    (hp : run.session.progress? id = some p) :
    (run.closeAttempt reg id results now).1.canonical? id =
      (run.policy.resolver.resolve id results run.session.trust).or p.canonical := by
  have hupdate (f : Progress → Progress) :
      (run.withSession (run.session.update id f)).canonical? id = (f p).canonical := by
    rw [canonical?, withSession, Session.progress?_update_self _ _ _ hp, Option.bind_some]
  unfold closeAttempt
  split
  next canonical hc =>
    rw [hc]
    exact hupdate _
  next hc =>
    rw [hc, Option.none_or]
    split
    · rw [canonical?, hp, Option.bind_some]
    · dsimp only
      split
      · exact hupdate _
      · exact hupdate _

theorem Sound.find?_calls (hs : run.Sound) {call : Call} (hc : call ∈ run.calls) :
    run.calls.find? (·.assignment.id = call.assignment.id) = some call :=
  find?_of_nodup_map hs.nodup_calls hc

theorem Sound.complete_return (hs : run.Sound) {call : Call} (hc : call ∈ run.calls)
    (reg : Registry) (cancelled : Bool) (outcome : Outcome) (now : Nat) :
    Return run call.assignment.id (call.yield cancelled reg outcome now)
      (run.complete reg call.assignment.id cancelled outcome now).1 := by
  obtain ⟨completion, hy, he⟩ := complete_account (hs.find?_calls hc) reg cancelled outcome now
  rw [he, ← hy]
  exact account_return

/-- When the last call of an attempt is back, all its results are resolved together. -/
theorem Sound.complete_canonical (hs : run.Sound) {call : Call} (hc : call ∈ run.calls)
    (hid : call.assignment.taskId = id) (hp : run.session.progress? id = some p)
    (h1 : run.session.callsOf id = 1) (reg : Registry) (cancelled : Bool) (outcome : Outcome)
    (now : Nat) : (run.complete reg call.assignment.id cancelled outcome now).1.canonical? id =
      (run.policy.resolver.resolve id (p.batch ++ (call.yield cancelled reg outcome now).toList)
        run.session.trust).or p.canonical := by
  subst hid
  obtain ⟨completion, hy, he⟩ := complete_account (hs.find?_calls hc) reg cancelled outcome now
  have hf := hs.books.find? (hs.mem_inFlight hc)
  have hout : ¬ 0 < (p.account (call.yield cancelled reg outcome now)).outstanding := by
    have h := hs.books.outstanding hp
    simp only [Progress.account]
    omega
  have hstruck : (run.session.strike call.assignment.id (call.yield cancelled reg outcome now)
      now).progress? call.assignment.taskId = some p := hp
  rw [he]
  unfold account
  split
  next s taskId results hsettled =>
    rw [hy] at hsettled
    obtain ⟨rfl, -, -, rfl, rfl⟩ :=
      closed_of_settle hs.books (hs.mem_inFlight hc) hp hsettled
    have hclosed : ((run.giveBack call.assignment.id).withSession _).session.progress? _ = some _ :=
      Session.progress?_update_self _ _
        (fun _ => { p.account (call.yield cancelled reg outcome now) with batch := [] }) hstruck
    have hresolved := closeAttempt_canonical
      ((call.told cancelled reg outcome now).release call.lease)
      (p.account (call.yield cancelled reg outcome now)).batch now hclosed
    exact hresolved
  next s settled hopen hsettled =>
    -- an attempt that is not closed has brought nothing
    change run.session.settle call.assignment.id completion.result? now = (s, settled) at hsettled
    rw [hy, Session.settle_of_find? hf hp, if_neg hout] at hsettled
    split at hsettled
    next hempty =>
      cases hsettled
      have hbatch : p.batch ++ (call.yield cancelled reg outcome now).toList = [] :=
        List.isEmpty_iff.mp hempty
      rw [hbatch, Resolver.resolve_nil, Option.none_or, canonical?, withSession,
        Session.progress?_update_self _ _ _ hstruck]
      rfl
    next hempty =>
      cases hsettled
      exact absurd rfl (hopen _ _)

theorem Turn.policy {run' : Run} {task : Task} {now : Nat} (h : Turn run task now run') :
    run'.policy = run.policy := by
  have hf {attempt : Nat} (leases : List Lease) (run : Run) :
      (leases.foldl (place task attempt now) run).policy = run.policy := by
    induction leases generalizing run with
    | nil => rfl
    | cons lease rest ih => exact ih _
  cases h with
  | sends => exact hf _ _
  | _ => rfl

theorem Round.policy {run' : Run} (h : Round run run') : run'.policy = run.policy := by
  cases h with
  | turns hm hr ht => exact ht.policy
  | _ => rfl

theorem Rounds.policy {run' : Run} (h : Rounds run run') : run'.policy = run.policy := by
  induction h with
  | refl => rfl
  | tail _ hr ih => exact hr.policy.trans ih

theorem Return.policy {run' : Run} {result : Option TaskResult} (h : Return run n result run') :
    run'.policy = run.policy := by
  cases h <;> rfl

end Run

theorem Progress.Return.eq_account {task : Task} {result : Option TaskResult} {p p' : Progress}
    {n n' : Nat} (h : p.Return task result n p' n') (hn : 0 < n') : p' = p.account result := by
  cases h with
  | hear => rfl
  | _ => exact absurd hn (Nat.lt_irrefl 0)

-- ---------------------------------------------------------------------------
-- The calls of one task
-- ---------------------------------------------------------------------------

namespace Course

variable {c c' : Course} {id : String} {es : List (String × Option Outcome)}

/-- What is heard of a call that ends: its worker, and the outcome unless the run was cancelled or
the worker has left. -/
def told (c : Course) (call : Call) (outcome : Outcome) : String × Option Outcome :=
  (call.assignment.workerId, (call.yield c.cancelled c.registry outcome c.now).map (·.outcome))

def brought (es : List (String × Option Outcome)) : List (String × Outcome) :=
  es.filterMap fun x => x.2.map (x.1, ·)

theorem brought_append (es es' : List (String × Option Outcome)) :
    brought (es ++ es') = brought es ++ brought es' :=
  List.filterMap_append

theorem brought_told (c : Course) (call : Call) (outcome : Outcome) :
    brought [c.told call outcome] =
      Resolver.said (call.yield c.cancelled c.registry outcome c.now).toList := by
  cases hy : call.yield c.cancelled c.registry outcome c.now with
  | none => simp [brought, told, hy, Resolver.said]
  | some r => simp [brought, told, hy, Resolver.said, Call.workerId_of_yield hy]

/-- From one course to another the calls of a task end as told, in this order. Whatever else
happens leaves the number of its calls as it is. -/
inductive Ends (id : String) (c : Course) : List (String × Option Outcome) → Course → Prop
  | start : Ends id c [] c
  | aside {es : List (String × Option Outcome)} {c₁ c₂ : Course} (h : Ends id c es c₁)
    (hm : c₁.Move c₂) (hn : c₂.run.session.callsOf id = c₁.run.session.callsOf id) :
    Ends id c es c₂
  | ends {es : List (String × Option Outcome)} {c₁ : Course} (h : Ends id c es c₁)
    (hp : c₁.phase = .wait) {call : Call} (hm : call ∈ c₁.run.calls)
    (hid : call.assignment.taskId = id) (outcome : Outcome) :
    Ends id c (es ++ [c₁.told call outcome]) (c₁.complete call.assignment.id outcome)

/-- The calls of a task end as told, and the last of them under the given trust table. -/
inductive Closes (id : String) (c : Course) (trust : TrustTable) :
    List (String × Option Outcome) → Course → Prop
  | last {es : List (String × Option Outcome)} {c₁ : Course} (h : Ends id c es c₁)
    (hp : c₁.phase = .wait) {call : Call} (hm : call ∈ c₁.run.calls)
    (hid : call.assignment.taskId = id) (h1 : c₁.run.session.callsOf id = 1)
    (ht : c₁.run.session.trust = trust) (outcome : Outcome) :
    Closes id c trust (es ++ [c₁.told call outcome]) (c₁.complete call.assignment.id outcome)

theorem Ends.moves (h : Ends id c es c') : c.Moves c' := by
  induction h with
  | start => exact .refl
  | aside _ hm _ ih => exact ih.tail hm
  | ends _ hp _ _ outcome ih => exact ih.tail (.own (.complete hp _ outcome))

def gathered (c : Course) (id : String) : List (String × Outcome) :=
  Resolver.said (c.run.session.batchOf id)

theorem gathered_eq {p : Progress} (hp : c.run.session.progress? id = some p) :
    c.gathered id = Resolver.said p.batch := by
  rw [Course.gathered, Session.batchOf_of_progress? hp]

theorem return_complete (c : Course) (hs : c.Sound) {call : Call} (hm : call ∈ c.run.calls)
    (outcome : Outcome) :
    Run.Return c.run call.assignment.id (call.yield c.cancelled c.registry outcome c.now)
      (c.complete call.assignment.id outcome).run :=
  hs.run.complete_return hm c.registry c.cancelled outcome c.now

theorem policy_complete (c : Course) (n : Nat) (outcome : Outcome) :
    (c.complete n outcome).run.policy = c.run.policy := by
  rcases c.complete_cases n outcome with h | ⟨call, -, -, h⟩
  · rw [h]
  · exact h.policy

theorem policy_stop (c : Course) : c.stop.run.policy = c.run.policy := by
  change (c.run.cancel c.registry).1.policy = _
  rw [Run.cancel_eq]

theorem Steps.policy (hs : c.Sound) (h : c.Steps c') : c'.run.policy = c.run.policy := by
  induction h with
  | refl => rfl
  | @tail c₁ c₂ h hstep ih =>
    refine Eq.trans ?_ ih
    cases hstep with
    | own hown =>
      cases hown with
      | pass => exact (pass_rounds (Steps.sound hs h)).policy
      | complete _ n outcome => exact c₁.policy_complete n outcome
      | wake | leave => rfl
      | stop => exact c₁.policy_stop
    | _ => rfl

theorem Move.aside {p : Progress} (hs : c.Sound) (hm : Move c c')
    (hp : c.run.session.progress? id = some p) (hpos : 0 < c.run.session.callsOf id)
    (hn : c'.run.session.callsOf id = c.run.session.callsOf id) :
    c'.run.session.progress? id = some p ∧ c'.run.policy = c.run.policy := by
  have hrunning : p.state = .running := (hs.run.books.running hp).mpr hpos
  obtain ⟨task, ht, rfl⟩ := hs.run.books.exists_task hp
  cases hm with
  | own h =>
    cases h with
    | pass =>
      have hrounds := pass_rounds hs
      refine ⟨?_, hrounds.policy⟩
      obtain ⟨p', hp', rfl⟩ := hrounds.progress (R := (· = p)) hs.run ht hp rfl
        fun he hround => (hround.eq_of_running (he ▸ hrunning)).trans he
      exact hp'
    | complete _ n outcome =>
      rcases c.complete_cases n outcome with h | ⟨call, hm, rfl, h⟩
      · rw [h]
        exact ⟨hp, rfl⟩
      · have hin := hs.run.mem_inFlight hm
        refine ⟨(h.progress?_ne hs.run.books hin fun he => ?_).trans hp, h.policy⟩
        have hcalls := h.callsOf hs.run.books hin task.id
        rw [if_pos he.symm] at hcalls
        omega
    | wake | leave => exact ⟨hp, rfl⟩
    | stop =>
      rw [session_stop] at hn
      rw [← hn] at hpos
      exact absurd hpos (Nat.lt_irrefl 0)
  | _ => exact ⟨hp, rfl⟩

/-- While calls of a task are out, its batch holds what was told of those that have ended. -/
theorem Ends.gathered (hs : c.Sound) (h : Ends id c es c') (hpos : 0 < c'.run.session.callsOf id) :
    c'.gathered id = c.gathered id ++ brought es ∧
      c'.run.canonical? id = c.run.canonical? id ∧ c'.run.policy = c.run.policy := by
  induction h with
  | start => exact ⟨(List.append_nil _).symm, rfl, rfl⟩
  | @aside es c₁ c₂ h hm hn ih =>
    rw [hn] at hpos
    obtain ⟨hgathered, hcanonical, hpolicy⟩ := ih hpos
    have hs₁ : c₁.Sound := h.moves.steps.sound hs
    obtain ⟨a, ha, hid⟩ := List.countP_pos_iff.mp hpos
    obtain ⟨p, hp, -⟩ := hs₁.run.books.running_of_mem ha
    rw [of_decide_eq_true hid] at hp
    obtain ⟨hp', hpolicy'⟩ := hm.aside hs₁ hp hpos hn
    rw [Course.gathered, Session.batchOf, Run.canonical?, hp', ← hp, ← Session.batchOf,
      ← Course.gathered, ← Run.canonical?, hpolicy']
    exact ⟨hgathered, hcanonical, hpolicy⟩
  | @ends es c₁ h hph call hm hid outcome ih =>
    have hs₁ : c₁.Sound := h.moves.steps.sound hs
    have hin := hs₁.run.mem_inFlight hm
    have hreturn := c₁.return_complete hs₁ hm outcome
    have hcalls := hreturn.callsOf hs₁.run.books hin id
    obtain ⟨hgathered, hcanonical, hpolicy⟩ := ih (by omega)
    obtain ⟨p, hp, -⟩ := hs₁.run.books.running_of_mem hin
    obtain ⟨task, ht, htask⟩ := hs₁.run.books.exists_task hp
    rw [← hid, ← htask] at hpos hgathered hcanonical ⊢
    rw [← htask] at hp
    obtain ⟨p', hp', hr⟩ := hreturn.progress hs₁.run.books hin ht htask.symm hp
    obtain rfl := hr.eq_account hpos
    refine ⟨?_, ?_, hreturn.policy.trans hpolicy⟩
    · rw [gathered_eq hp] at hgathered
      rw [gathered_eq hp', brought_append, brought_told, ← List.append_assoc, ← hgathered,
        Progress.account, Resolver.said_append]
    · rw [Run.canonical?, hp', ← hcanonical, Run.canonical?, hp]
      rfl

end Course

-- ---------------------------------------------------------------------------
-- The results of an attempt
-- ---------------------------------------------------------------------------

theorem Session.Staffed.results {run : Run} {p : Progress} {call : Call} (hs : run.session.Staffed)
    (hm : call ∈ run.calls) (hrun : run.Sound)
    (hp : run.session.progress? call.assignment.taskId = some p) (cancelled : Bool)
    (reg : Registry) (outcome : Outcome) (now : Nat) :
    ((p.account (call.yield cancelled reg outcome now)).batch.map (·.workerId)).Nodup ∧
      ∀ r ∈ (p.account (call.yield cancelled reg outcome now)).batch,
        r.workerId ∈ Table.keys run.session.trust := by
  have hcalled : call.assignment.workerId ∈ run.session.called call.assignment.taskId := by
    refine List.mem_map_of_mem (List.mem_filter.mpr ⟨hrun.mem_inFlight hm, ?_⟩)
    simp
  have hsub : ((p.account (call.yield cancelled reg outcome now)).batch.map (·.workerId)).Sublist
      (run.session.roster call.assignment.taskId) := by
    rw [roster_of_progress? hp, Progress.account, List.map_append]
    refine (List.Sublist.refl _).append ?_
    cases hy : call.yield cancelled reg outcome now with
    | none => exact List.nil_sublist _
    | some r =>
      rw [← Call.workerId_of_yield hy] at hcalled
      exact List.singleton_sublist.mpr hcalled
  refine ⟨(hs.distinct _).sublist hsub, fun r hr => hs.trusted _ _ (hsub.subset ?_)⟩
  exact List.mem_map_of_mem hr

namespace Opening

variable {o : Opening} {c c' : Course} {id : String} {trust : TrustTable}
  {es : List (String × Option Outcome)}

theorem Reaches.policy (h : o.Reaches c) : c.run.policy = o.coordinator.policy := by
  obtain ⟨c₀, h₀, hs⟩ := h
  rw [Course.Steps.policy (sound_of_course h₀) hs]
  obtain ⟨graph, registry, count, -, -, -, -, rfl⟩ := course_eq_ok.mp h₀
  rfl

theorem Attains.closed (ho : o.registry.Built) (hc : o.Attains c) {call : Call}
    (hm : call ∈ c.run.calls) {outcome : Outcome} {s : Session} {taskId : String}
    {results : List TaskResult}
    (hs : c.run.session.settle call.assignment.id
      (call.yield c.cancelled c.registry outcome c.now) c.now = (s, .closed taskId results)) :
    (results.map (·.workerId)).Nodup ∧
      ∀ r ∈ results, ∃ entry, Table.get? s.trust r.workerId = some entry := by
  have hrun := hc.reaches.sound.run
  have hin := hrun.mem_inFlight hm
  obtain ⟨p, hp, -⟩ := hrun.books.running_of_mem hin
  obtain ⟨hn, hk⟩ := (hc.staffed ho).results hm hrun hp c.cancelled c.registry outcome c.now
  obtain ⟨-, -, -, rfl, rfl⟩ := Run.closed_of_settle hrun.books hin hp hs
  refine ⟨hn, fun r hr => Option.ne_none_iff_exists'.mp fun hnone => ?_⟩
  exact (Table.get?_eq_none_iff _ _).mp hnone (hk r hr)

theorem Attains.resolved (ho : o.registry.Built) (hc : o.Attains c)
    (h : c.Closes id trust es c') : ∃ results, Resolver.Unrepeated results ∧
      Resolver.said results = c.gathered id ++ Course.brought es ∧
      c'.run.canonical? id =
        (c.run.policy.resolver.resolve id results trust).or (c.run.canonical? id) := by
  cases h with
  | @last es c₁ h hp call hm hid h1 ht outcome =>
    have hc₁ : o.Attains c₁ := hc.trans h.moves
    have hrun := hc₁.reaches.sound.run
    obtain ⟨hgathered, hcanonical, hpolicy⟩ := h.gathered hc.reaches.sound (by omega)
    obtain ⟨p, hp, -⟩ := hrun.books.running_of_mem (hrun.mem_inFlight hm)
    obtain ⟨hn, -⟩ := (hc₁.staffed ho).results hm hrun hp c₁.cancelled c₁.registry outcome c₁.now
    have hclosed := hrun.complete_canonical hm hid (hid ▸ hp) h1 c₁.registry c₁.cancelled outcome
      c₁.now
    rw [hid] at hp
    have hbefore : c₁.run.canonical? id = p.canonical := by
      rw [Run.canonical?, hp, Option.bind_some]
    refine ⟨_, hn.sublist (List.filter_sublist.map _), ?_, ?_⟩
    · rw [Course.brought_append, Course.brought_told, ← List.append_assoc, ← hgathered,
        Course.gathered_eq hp, Progress.account, Resolver.said_append]
    · rw [← hpolicy, ← hcanonical, ← ht, hbefore]
      exact hclosed

/-- Results of distinct workers may come in any order. The results that an attempt of a run is
closed with are of distinct workers, all of them with an entry in the trust table of the session; so
for the same ends of the calls of an attempt and the same trust table, every order of the ends gives
the same canonical result, if any. -/
theorem resolution_ignores_arrival (ho : o.registry.Built) :
    (∀ (resolver : Resolver) (taskId : String) (trust : TrustTable)
      (results others : List TaskResult), Resolver.Unrepeated results → results.Perm others →
      resolver.resolve taskId results trust = resolver.resolve taskId others trust) ∧
    (∀ c, o.Attains c → ∀ call ∈ c.run.calls, ∀ outcome s taskId results,
      c.run.session.settle call.assignment.id
        (call.yield c.cancelled c.registry outcome c.now) c.now = (s, .closed taskId results) →
      (results.map (·.workerId)).Nodup ∧
        ∀ r ∈ results, ∃ entry, Table.get? s.trust r.workerId = some entry) ∧
    ∀ c, o.Attains c → ∀ id trust ends others c₁ c₂,
      c.Closes id trust ends c₁ → c.Closes id trust others c₂ → ends.Perm others →
      c₁.run.canonical? id = c₂.run.canonical? id := by
  refine ⟨fun resolver taskId trust results others hn hp => ?_,
    fun c hc call hm outcome s taskId results hs => hc.closed ho hm hs,
    fun c hc id trust ends others c₁ c₂ h₁ h₂ hp => ?_⟩
  · exact resolver.resolve_eq_of_said taskId hn (hp.map _)
  · obtain ⟨results₁, hn, hsaid₁, hresolved₁⟩ := hc.resolved ho h₁
    obtain ⟨results₂, -, hsaid₂, hresolved₂⟩ := hc.resolved ho h₂
    have hsaid : (Resolver.said results₁).Perm (Resolver.said results₂) := by
      rw [hsaid₁, hsaid₂]
      exact (hp.filterMap _).append_left _
    rw [hresolved₁, hresolved₂, Resolver.resolve_eq_of_said _ id hn hsaid]

-- ---------------------------------------------------------------------------
-- Two calls in either order
-- ---------------------------------------------------------------------------

/-- One task that goes to two workers at once. -/
def duet : Opening where
  coordinator :=
    .plain { execution := { maxConcurrency := some 2 }, scaling := { enabled := false } }
  runId := "duet"
  tasks := [{ id := "only", capability := "run", redundancy := some 2 }]
  registry :=
    (Registry.register { rules := .ofLimits 3 30000 } ⟨"left", ["run"], 1.0⟩ 0).register
      ⟨"right", ["run"], 1.0⟩ 1
  now := 0

def duetTask : Task := { id := "only", capability := "run", redundancy := some 2 }

theorem built_duet : duet.registry.Built :=
  ⟨.ofLimits 3 30000, .head (.registers ⟨"left", ["run"], 1.0⟩ 0)
    (.single (.registers ⟨"right", ["run"], 1.0⟩ 1))⟩

def duetStart : Course := duet.launch ⟨duet.tasks⟩ duet.registry 2

theorem course_duet : duet.course = .ok duetStart :=
  course_eq_ok.mpr ⟨⟨duet.tasks⟩, duet.registry, 2, by decide +kernel, by decide +kernel, rfl,
    by decide, rfl⟩

def duetSent : Run × Registry × Nat :=
  let run := duetStart.run.withSession
    (duetStart.run.session.refreshTrust duetStart.registry.trustTable)
  Run.sendOut duetTask 1 0 (duetStart.registry.workers.map (·.snapshot)) (run.opened duetTask)
    duetStart.registry

def duetCalled : Course :=
  { duetStart with run := duetSent.1, registry := duetSent.2.1, phase := .wait }

-- the workers stand in the order of choice already, and sorting does not evaluate in the kernel
theorem selectFor_duet : duetStart.registry.selectFor duetTask.capability 0 =
    (duetStart.registry, duetStart.registry.workers.map (·.snapshot)) := by
  have hsorted : (duetStart.registry.workers.map (·.snapshot)).mergeSort Registry.preferred =
      duetStart.registry.workers.map (·.snapshot) :=
    List.mergeSort_of_pairwise (by decide +kernel)
  rw [← hsorted]
  rfl

theorem pass_duet : duetStart.pass = duetCalled := by
  have hprepare : duetStart.run.prepare duetStart.registry 0 =
      (duetStart.run, duetStart.registry) := by
    with_unfolding_all rfl
  have hready : duetStart.run.session.readyTasks = [duetTask] := by
    with_unfolding_all rfl
  have hdispatch : duetStart.run.dispatchReady duetStart.registry 0 =
      (duetSent.1, duetSent.2.1, 0) := by
    simp only [Run.dispatchReady, hready, Run.dispatchAll, Run.dispatchTask, selectFor_duet]
    with_unfolding_all rfl
  have hnow : duetStart.now = 0 := rfl
  rw [Course.pass, Run.pass_eq, hnow, hprepare, hdispatch]
  with_unfolding_all rfl

theorem attains_duetCalled : duet.Attains duetCalled :=
  ⟨duetStart, course_duet, .single (pass_duet ▸ .own (.pass rfl rfl))⟩

def duetLeft : Call := ⟨⟨1, "only", "left", 1, 0⟩, ⟨"left", 0, 0⟩, .null, 30000⟩

def duetRight : Call := ⟨⟨2, "only", "right", 1, 0⟩, ⟨"right", 1, 1⟩, .null, 30000⟩

def duetYes : Outcome := .success (.string "yes")

def duetNo : Outcome := .success (.string "no")

theorem closes_duet (first second : Call) (o₁ o₂ : Outcome) {c : Course}
    (hc : c = (duetCalled.complete first.assignment.id o₁).pass)
    (hmem : first ∈ duetCalled.run.calls ∧ second ∈ c.run.calls)
    (hid : first.assignment.taskId = "only" ∧ second.assignment.taskId = "only")
    (hwait : c.phase = .wait ∧ c.cancelled = false)
    (hcalls : c.run.session.callsOf "only" = 1 ∧
      (duetCalled.complete first.assignment.id o₁).run.session.callsOf "only" = 1)
    (htrust : c.run.session.trust = duetCalled.run.session.trust) :
    duetCalled.Closes "only" duetCalled.run.session.trust
      [duetCalled.told first o₁, c.told second o₂] (c.complete second.assignment.id o₂) := by
  subst hc
  have hfirst : duetCalled.Ends "only" [duetCalled.told first o₁]
      (duetCalled.complete first.assignment.id o₁) :=
    Course.Ends.start.ends rfl hmem.1 hid.1 o₁
  have hpass := hfirst.aside (.own (.pass rfl hwait.2)) (hcalls.1.trans hcalls.2.symm)
  exact .last hpass hwait.1 hmem.2 hid.2 hcalls.1 htrust o₂

/-- Whichever of its workers answers first, the duet comes to one result. -/
theorem duet_in_either_order :
    ((duetCalled.complete 1 duetYes).pass.complete 2 duetNo).run.canonical? "only" =
      ((duetCalled.complete 2 duetNo).pass.complete 1 duetYes).run.canonical? "only" := by
  obtain ⟨-, -, horder⟩ := resolution_ignores_arrival built_duet
  have hleft := closes_duet duetLeft duetRight duetYes duetNo rfl (by decide +kernel)
    (by decide +kernel) (by decide +kernel) (by decide +kernel) (by with_unfolding_all rfl)
  have hright := closes_duet duetRight duetLeft duetNo duetYes rfl (by decide +kernel)
    (by decide +kernel) (by decide +kernel) (by decide +kernel) (by with_unfolding_all rfl)
  exact horder duetCalled attains_duetCalled "only" _ _ _ _ _ hleft hright (by decide +kernel)

end Opening

end Crew
