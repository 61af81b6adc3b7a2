import Mathlib.Data.List.Induction
import Mathlib.Data.Set.Card
import Crew.Proofs.Registry.Selection
import Crew.Proofs.Run.Outcomes

/-!
# Outages

A registry is used at times that do not run backwards (`Registry.after`). `Effect` lists what one
entry of its history can do to the breaker of a worker. So a breaker that is open was opened by an
entry of the history, after which the worker was not removed (`exists_opens`), and it stays open
until its cooldown has passed, whoever looks at it (`OpenSince.perform`). While that lasts the
worker is shut out (`ShutOut`): it is never chosen and not counted among the healthy workers, and
everybody else is (`selectFor_exact`).

Which of the workers that are chosen get work is not a matter of the registry.
-/

namespace Crew

namespace Registry

inductive Operation where
  | register (spec : WorkerSpec) (executor : Nat)
  | deregister (workerId : String)
  | select (capability : String)
  | count
  | report (workerId : String) (success : Bool)
  | grant (workerId : String)
  | release (lease : Lease)
  | announce (e : Event)
  deriving DecidableEq

structure Entry where
  time : Nat
  operation : Operation
  deriving DecidableEq

def perform (reg : Registry) (x : Entry) : Registry :=
  match x.operation with
  | .register spec executor => reg.register spec executor
  | .deregister workerId => (reg.deregister workerId).1
  | .select capability => (reg.selectFor capability x.time).1
  | .count => (reg.healthyCount x.time).1
  | .report workerId success => (reg.reportOutcome workerId success x.time).1
  | .grant workerId => (reg.grant workerId).1
  | .release lease => reg.release lease
  | .announce e => reg.emit e

def after (rules : BreakerRules) (history : List Entry) : Registry :=
  history.foldl perform { rules }

def breaker? (reg : Registry) (workerId : String) : Option Breaker :=
  (reg.find? workerId).map (·.breaker)

def IsOpen (reg : Registry) (workerId : String) : Prop :=
  (reg.breaker? workerId).map (·.health) = some .circuitOpen

instance (reg : Registry) (workerId : String) : Decidable (reg.IsOpen workerId) :=
  inferInstanceAs (Decidable (_ = _))

def Opens (reg : Registry) (x : Entry) (workerId : String) : Prop :=
  ¬ reg.IsOpen workerId ∧ (reg.perform x).IsOpen workerId

instance (reg : Registry) (x : Entry) (workerId : String) : Decidable (reg.Opens x workerId) :=
  inferInstanceAs (Decidable (_ ∧ _))

def Renewed (workerId : String) (entries : List Entry) : Prop :=
  ∃ spec executor, spec.workerId = workerId ∧
    [.deregister workerId, .register spec executor].Sublist (entries.map (·.operation))

/-- The breaker of the worker has opened less than a cooldown ago, and the worker has not been
registered anew since. -/
def ShutOut (rules : BreakerRules) (history : List Entry) (now : Nat) (workerId : String) : Prop :=
  ∃ before x rest, history = before ++ x :: rest ∧ (after rules before).Opens x workerId ∧
    now < x.time + rules.cooldown ∧ ¬ Renewed workerId rest

variable {rules : BreakerRules} {reg : Registry} {x : Entry} {history rest : List Entry}
  {workerId capability : String} {r : Registration} {b : Breaker} {t now : Nat}

@[simp] theorem after_concat : after rules (history ++ [x]) = (after rules history).perform x := by
  simp [after]

theorem perform_rules (reg : Registry) (x : Entry) : (reg.perform x).rules = reg.rules := by
  unfold perform
  split
  · unfold register
    split <;> rfl
  · unfold deregister
    split <;> rfl
  · rfl
  · rfl
  · unfold reportOutcome
    split
    · rfl
    · dsimp only
      split <;> rfl
  · unfold grant
    split <;> rfl
  · rfl
  · rfl

theorem after_rules (rules : BreakerRules) (history : List Entry) :
    (after rules history).rules = rules := by
  induction history using List.reverseRecOn with
  | nil => rfl
  | append_singleton history x ih => rw [after_concat, perform_rules, ih]

theorem change_perform (reg : Registry) (x : Entry) : Change reg (reg.perform x) := by
  unfold perform
  split
  · exact .registers _ _
  · exact .deregisters _
  · exact .used (.refreshes _ _)
  · exact .used (.refreshes _ _)
  · exact .used (.reports _ _ _)
  · exact .used (.grants _)
  · exact .used (.releases _)
  · exact .used (.announces _)

theorem built_after (rules : BreakerRules) (history : List Entry) :
    (after rules history).Built := by
  induction history using List.reverseRecOn with
  | nil => exact ⟨rules, .refl⟩
  | append_singleton history x ih =>
    rw [after_concat]
    exact ih.changes (.single (change_perform _ x))

-- ---------------------------------------------------------------------------
-- One entry
-- ---------------------------------------------------------------------------

/-- All that an entry can do to the breaker of a worker, if the worker is registered. -/
inductive Effect (rules : BreakerRules) (x : Entry) (workerId : String) :
    Option Breaker → Option Breaker → Prop
  | removes (b : Option Breaker) (ho : x.operation = .deregister workerId) :
      Effect rules x workerId b none
  | enrolls (spec : WorkerSpec) (executor : Nat) (ho : x.operation = .register spec executor)
      (hw : spec.workerId = workerId) : Effect rules x workerId none (some {})
  | keeps (b : Option Breaker) (ho : x.operation ≠ .deregister workerId) :
      Effect rules x workerId b b
  | tells (b : Breaker) (signal : Signal) (ho : x.operation ≠ .deregister workerId) :
      Effect rules x workerId (some b) (some (rules.hear b ⟨x.time, signal⟩).1)

theorem effect_refresh (reg : Registry) (which : Registration → Bool)
    (ho : x.operation ≠ .deregister workerId) :
    Effect reg.rules x workerId (reg.breaker? workerId)
      ((reg.refresh x.time which).breaker? workerId) := by
  rw [breaker?, breaker?, find?_refresh]
  cases reg.find? workerId with
  | none => exact .keeps none ho
  | some r =>
    simp only [Option.map_some]
    split
    · exact .tells r.breaker .refresh ho
    · exact .keeps _ ho

theorem breaker?_modify {f : Registration → Registration} {other : String}
    (hid : ∀ r, r.workerId = workerId → (f r).workerId = r.workerId)
    (hf : ∀ r, (f r).breaker = r.breaker) :
    (reg.modify workerId f).breaker? other = reg.breaker? other := by
  rw [breaker?, breaker?, find?_modify hid]
  split
  · rw [Option.map_map]
    exact congrArg (Option.map · _) (funext hf)
  · rfl

theorem breaker?_grant (reg : Registry) (other workerId : String) :
    (reg.grant other).1.breaker? workerId = reg.breaker? workerId := by
  rw [breaker?, breaker?, find?_grant]
  split
  · rw [Option.map_map]
    rfl
  · rfl

theorem breaker?_release (reg : Registry) (lease : Lease) (workerId : String) :
    (reg.release lease).breaker? workerId = reg.breaker? workerId := by
  refine breaker?_modify (fun r _ => ?_) fun r => ?_
  · split <;> rfl
  · split <;> rfl

theorem Effect.of_eq {reg' : Registry} (hb : reg'.breaker? workerId = reg.breaker? workerId)
    (ho : x.operation ≠ .deregister workerId) :
    Effect reg.rules x workerId (reg.breaker? workerId) (reg'.breaker? workerId) := by
  rw [hb]
  exact .keeps _ ho

theorem effect_register {spec : WorkerSpec} {executor : Nat} (reg : Registry) (workerId : String)
    (ho : x.operation = .register spec executor) :
    Effect reg.rules x workerId (reg.breaker? workerId)
      ((reg.register spec executor).breaker? workerId) := by
  have hne : x.operation ≠ .deregister workerId := by simp [ho]
  cases hf : reg.find? spec.workerId with
  | some q =>
    rw [register_of_known (by rw [hf]; rfl)]
    exact .of_eq (breaker?_modify (fun _ hr => hr.symm) fun _ => rfl) hne
  | none =>
    by_cases hw : workerId = spec.workerId
    · rw [breaker?, breaker?, find?_register_of_unknown hf, if_pos hw, hw, hf]
      exact .enrolls spec executor ho rfl
    · refine .of_eq ?_ hne
      rw [breaker?, breaker?, find?_register_of_unknown hf, if_neg hw]

theorem effect_deregister {other : String} (reg : Registry) (workerId : String)
    (ho : x.operation = .deregister other) :
    Effect reg.rules x workerId (reg.breaker? workerId)
      ((reg.deregister other).1.breaker? workerId) := by
  by_cases hw : workerId = other
  · rw [breaker?, breaker?, find?_deregister, if_pos hw]
    exact .removes _ (hw ▸ ho)
  · refine .of_eq ?_ (by simp [ho, Ne.symm hw])
    rw [breaker?, breaker?, find?_deregister, if_neg hw]

theorem effect_reportOutcome (reg : Registry) (other : String) (success : Bool)
    (ho : x.operation ≠ .deregister workerId) :
    Effect reg.rules x workerId (reg.breaker? workerId)
      ((reg.reportOutcome other success x.time).1.breaker? workerId) := by
  by_cases hw : workerId = other
  · rw [breaker?, breaker?, find?_reportOutcome, if_pos hw]
    cases reg.find? workerId with
    | none => exact .keeps none ho
    | some r =>
      rw [Option.map_some, Option.map_some, Option.map_some, ← BreakerRules.hear_ofSuccess]
      exact .tells r.breaker _ ho
  · refine .of_eq ?_ ho
    rw [breaker?, breaker?, find?_reportOutcome, if_neg hw]

theorem perform_effect (reg : Registry) (x : Entry) (workerId : String) :
    Effect reg.rules x workerId (reg.breaker? workerId) ((reg.perform x).breaker? workerId) := by
  unfold perform
  split
  next ho => exact effect_register reg workerId ho
  next ho => exact effect_deregister reg workerId ho
  next ho => exact effect_refresh reg _ (by simp [ho])
  next ho => exact effect_refresh reg _ (by simp [ho])
  next other success ho => exact effect_reportOutcome reg other success (by simp [ho])
  next other ho => exact .of_eq (breaker?_grant reg other workerId) (by simp [ho])
  next lease ho => exact .of_eq (breaker?_release reg lease workerId) (by simp [ho])
  next ho => exact .of_eq rfl (by simp [ho])

-- ---------------------------------------------------------------------------
-- While a breaker is open
-- ---------------------------------------------------------------------------

/-- The breaker of the worker is open and knows of this time as that of its opening. -/
def OpenSince (reg : Registry) (workerId : String) (t : Nat) : Prop :=
  ∃ b, reg.breaker? workerId = some b ∧ b.health = .circuitOpen ∧ b.openedAt = some t

theorem OpenSince.isOpen (h : reg.OpenSince workerId t) : reg.IsOpen workerId := by
  obtain ⟨b, hb, hopen, -⟩ := h
  rw [IsOpen, hb, Option.map_some, hopen]

theorem IsOpen.openSince (h : reg.IsOpen workerId) (hd : reg.Dated) :
    ∃ t, reg.OpenSince workerId t := by
  obtain ⟨b, hb, hopen⟩ := Option.map_eq_some_iff.mp h
  obtain ⟨r, hr, rfl⟩ := Option.map_eq_some_iff.mp hb
  obtain ⟨t, ht⟩ := Option.isSome_iff_exists.mp (hd r (List.mem_of_find?_eq_some hr) hopen)
  exact ⟨t, r.breaker, hb, hopen, ht⟩

theorem OpenSince.of_perform (h : (reg.perform x).OpenSince workerId t) :
    x.time = t ∧ ¬ reg.IsOpen workerId ∨
      x.operation ≠ .deregister workerId ∧ reg.OpenSince workerId t := by
  obtain ⟨b', hb', hopen, ht⟩ := h
  have he := perform_effect reg x workerId
  rw [hb'] at he
  unfold OpenSince IsOpen
  generalize reg.breaker? workerId = before at he
  cases he with
  | enrolls => cases hopen
  | keeps _ ho => exact .inr ⟨ho, b', rfl, hopen, ht⟩
  | tells b signal ho =>
    have hr := reg.rules.hear_reaction b ⟨x.time, signal⟩
    generalize reg.rules.hear b ⟨x.time, signal⟩ = heard at hr hopen ht
    obtain ⟨b', said⟩ := heard
    cases hr with
    | counts | forgives | stays => exact .inr ⟨ho, _, rfl, hopen, ht⟩
    | opens _ hh =>
      refine .inl ⟨Option.some.inj ht, fun hb => ?_⟩
      rw [Option.map_some, Option.some.injEq] at hb
      simp [hb] at hh
    | closes | halfOpens => cases hopen

theorem OpenSince.perform (h : reg.OpenSince workerId t)
    (ho : x.operation ≠ .deregister workerId) (hle : t ≤ x.time)
    (hlt : x.time < t + reg.rules.cooldown) : (reg.perform x).OpenSince workerId t := by
  obtain ⟨b, hb, hopen, ht⟩ := h
  have he := perform_effect reg x workerId
  rw [hb] at he
  unfold OpenSince
  generalize (reg.perform x).breaker? workerId = after at he
  cases he with
  | removes _ hremoved => exact absurd hremoved ho
  | keeps => exact ⟨b, rfl, hopen, ht⟩
  | tells _ signal _ =>
    refine ⟨_, rfl, ?_⟩
    have hr := reg.rules.hear_reaction b ⟨x.time, signal⟩
    generalize reg.rules.hear b ⟨x.time, signal⟩ = heard at hr
    obtain ⟨b', said⟩ := heard
    cases hr with
    | counts | forgives | stays => exact ⟨hopen, ht⟩
    | opens _ hh => simp [hopen] at hh
    | closes _ hd => simp [hopen] at hd
    | halfOpens _ hd =>
      obtain ⟨-, opened, hopened, hcool⟩ := hd
      obtain rfl := Option.some.inj (ht.symm.trans hopened)
      dsimp only at hcool
      omega

theorem Opens.openSince (h : reg.Opens x workerId) (hb : reg.Built) :
    (reg.perform x).OpenSince workerId x.time := by
  obtain ⟨t, ht⟩ := h.2.openSince (hb.changes (.single (change_perform reg x))).dated
  rcases ht.of_perform with ⟨rfl, -⟩ | ⟨-, hbefore⟩
  · exact ht
  · exact absurd hbefore.isOpen h.1

-- ---------------------------------------------------------------------------
-- Whole histories
-- ---------------------------------------------------------------------------

theorem exists_opens (h : (after rules history).OpenSince workerId t) :
    ∃ before x rest, history = before ++ x :: rest ∧ (after rules before).Opens x workerId ∧
      x.time = t ∧ .deregister workerId ∉ rest.map (·.operation) := by
  induction history using List.reverseRecOn with
  | nil =>
    obtain ⟨b, hb, -⟩ := h
    cases hb
  | append_singleton history y ih =>
    have hopen := h.isOpen
    rw [after_concat] at h hopen
    rcases h.of_perform with ⟨ht, hclosed⟩ | ⟨ho, hbefore⟩
    · exact ⟨history, y, [], rfl, ⟨hclosed, hopen⟩, ht, List.not_mem_nil⟩
    · obtain ⟨before, x, rest, rfl, hopens, ht, hnone⟩ := ih hbefore
      refine ⟨before, x, rest ++ [y], by simp, hopens, ht, ?_⟩
      simpa [hnone] using Ne.symm ho

theorem OpenSince.foldl (h : reg.OpenSince workerId t)
    (hnone : .deregister workerId ∉ rest.map (·.operation)) (hle : ∀ x ∈ rest, t ≤ x.time)
    (hlt : ∀ x ∈ rest, x.time < t + reg.rules.cooldown) :
    (rest.foldl Registry.perform reg).OpenSince workerId t := by
  induction rest generalizing reg with
  | nil => exact h
  | cons x rest ih =>
    rw [List.map_cons, List.mem_cons, not_or] at hnone
    obtain ⟨hx, hrest⟩ := List.forall_mem_cons.mp hle
    obtain ⟨hx', hrest'⟩ := List.forall_mem_cons.mp hlt
    refine ih (h.perform (Ne.symm hnone.1) hx hx') hnone.2 hrest ?_
    rw [perform_rules]
    exact hrest'

theorem exists_register (h : reg.breaker? workerId = none)
    (hlater : (rest.foldl perform reg).breaker? workerId ≠ none) :
    ∃ spec executor, spec.workerId = workerId ∧
      Operation.register spec executor ∈ rest.map (·.operation) := by
  induction rest generalizing reg with
  | nil => exact absurd h hlater
  | cons x rest ih =>
    by_cases hnext : (reg.perform x).breaker? workerId = none
    · obtain ⟨spec, executor, hw, hm⟩ := ih hnext hlater
      exact ⟨spec, executor, hw, List.mem_cons_of_mem _ hm⟩
    · have he := perform_effect reg x workerId
      rw [h] at he
      generalize (reg.perform x).breaker? workerId = b at he hnext
      cases he with
      | removes | keeps => exact absurd rfl hnext
      | enrolls spec executor ho hw => exact ⟨spec, executor, hw, by simp [ho]⟩

theorem renewed_of_mem (hm : .deregister workerId ∈ rest.map (·.operation))
    (hlater : (rest.foldl perform reg).breaker? workerId ≠ none) : Renewed workerId rest := by
  obtain ⟨x, hx, ho⟩ := List.mem_map.mp hm
  obtain ⟨before, others, rfl⟩ := List.append_of_mem hx
  rw [List.foldl_append, List.foldl_cons] at hlater
  have hgone : ((before.foldl perform reg).perform x).breaker? workerId = none := by
    rw [perform, ho]
    simp [breaker?, find?_deregister]
  obtain ⟨spec, executor, hw, hregister⟩ := exists_register hgone hlater
  refine ⟨spec, executor, hw, ?_⟩
  rw [List.map_append, List.map_cons, ho]
  exact ((List.singleton_sublist.mpr hregister).cons_cons _).trans
    (List.sublist_append_right _ _)

theorem ShutOut.openSince (h : ShutOut rules history now workerId)
    (ht : history.Pairwise (·.time ≤ ·.time)) (hn : ∀ x ∈ history, x.time ≤ now)
    (hb : (after rules history).breaker? workerId ≠ none) :
    ∃ t, (after rules history).OpenSince workerId t ∧ t ≤ now ∧ now < t + rules.cooldown := by
  obtain ⟨before, x, rest, rfl, hopens, hlt, hrenewed⟩ := h
  have hfold : after rules (before ++ x :: rest) =
      rest.foldl perform ((after rules before).perform x) := by simp [after]
  have hrules : ((after rules before).perform x).rules = rules := by
    rw [perform_rules, after_rules]
  have htimes := (List.pairwise_cons.mp (List.pairwise_append.mp ht).2.1).1
  rw [hfold] at hb ⊢
  refine ⟨x.time, (hopens.openSince (built_after rules before)).foldl
    (fun hm => hrenewed (renewed_of_mem hm hb)) htimes fun y hy => ?_, hn x (by simp), hlt⟩
  rw [hrules]
  exact (hn y (by simp [hy])).trans_lt hlt

theorem OpenSince.shutOut (h : (after rules history).OpenSince workerId t)
    (hlt : now < t + rules.cooldown) : ShutOut rules history now workerId := by
  obtain ⟨before, x, rest, rfl, hopens, rfl, hnone⟩ := exists_opens h
  refine ⟨before, x, rest, rfl, hopens, hlt, ?_⟩
  rintro ⟨spec, executor, -, hsub⟩
  exact hnone (hsub.subset List.mem_cons_self)

/-- A registered worker is shut out exactly if a look leaves its breaker open. -/
theorem shutOut_iff (ht : history.Pairwise (·.time ≤ ·.time)) (hn : ∀ x ∈ history, x.time ≤ now)
    (hr : (after rules history).find? workerId = some r) :
    ShutOut rules history now workerId ↔ (r.seen rules now).breaker.health = .circuitOpen := by
  have hb : (after rules history).breaker? workerId = some r.breaker := by
    rw [breaker?, hr, Option.map_some]
  constructor
  · intro h
    obtain ⟨t, ⟨b, hb', hopen, hopened⟩, hle, hlt⟩ :=
      h.openSince ht hn (Option.ne_none_iff_exists'.mpr ⟨_, hb⟩)
    obtain rfl : r.breaker = b := Option.some.inj (hb.symm.trans hb')
    have hdue : ¬ rules.Due r.breaker now := by
      rintro ⟨-, opened, ho, hcool⟩
      obtain rfl := Option.some.inj (hopened.symm.trans ho)
      omega
    rw [Registration.seen, if_neg hdue]
    exact hopen
  · intro hopen
    have hdue : ¬ rules.Due r.breaker now := fun hdue => by
      rw [Registration.seen, if_pos hdue] at hopen
      cases hopen
    rw [Registration.seen, if_neg hdue] at hopen
    have hisOpen : (after rules history).IsOpen workerId := by
      rw [IsOpen, hb, Option.map_some, hopen]
    obtain ⟨t, hsince⟩ := hisOpen.openSince (built_after rules history).dated
    obtain ⟨b, hb', -, hopened⟩ := id hsince
    obtain rfl : r.breaker = b := Option.some.inj (hb.symm.trans hb')
    have hcool : ¬ rules.cooldown ≤ now - t := fun hle => hdue ⟨hopen, t, hopened, hle⟩
    exact hsince.shutOut (by omega)

theorem healthyCount_after (ht : history.Pairwise (·.time ≤ ·.time))
    (hn : ∀ x ∈ history, x.time ≤ now) :
    ((after rules history).healthyCount now).2 =
      {workerId | workerId ∈ (after rules history).ids ∧
        ¬ ShutOut rules history now workerId}.ncard := by
  let reg := after rules history
  have hd : reg.Distinct := (built_after rules history).distinct
  let sound := (reg.workers.map (·.seen rules now)).filter (·.breaker.health ≠ .circuitOpen)
  have hcount : (reg.healthyCount now).2 = sound.length := by
    simp only [healthyCount, refresh, if_true, ← Registration.seen_eq]
    rw [show reg.rules = rules from after_rules rules history]
  have hnodup : (sound.map (·.workerId)).Nodup := by
    have hids : (reg.workers.map (·.seen rules now)).map (·.workerId) = reg.ids := by
      simp [ids, Function.comp_def, Registration.workerId]
    have hall : ((reg.workers.map (·.seen rules now)).map (·.workerId)).Nodup := by
      rw [hids]
      exact hd
    exact hall.sublist (List.filter_sublist.map _)
  have hset : {workerId | workerId ∈ reg.ids ∧ ¬ ShutOut rules history now workerId} =
      ↑(sound.map (·.workerId)).toFinset := by
    ext workerId
    simp only [Set.mem_ofPred_eq, List.coe_toFinset, List.mem_map, sound, List.mem_filter,
      decide_eq_true_eq]
    constructor
    · rintro ⟨hid, hout⟩
      obtain ⟨r, hr⟩ := Option.isSome_iff_exists.mp (mem_ids_iff.mp hid)
      obtain ⟨hm, rfl⟩ := (find?_eq_some hd).mp hr
      rw [shutOut_iff ht hn hr] at hout
      exact ⟨_, ⟨⟨r, hm, rfl⟩, hout⟩, by simp [Registration.workerId]⟩
    · rintro ⟨_, ⟨⟨r, hm, rfl⟩, hsound⟩, rfl⟩
      have hr : reg.find? (r.seen rules now).workerId = some r :=
        (find?_eq_some hd).mpr ⟨hm, by simp [Registration.workerId]⟩
      rw [shutOut_iff ht hn hr]
      exact ⟨mem_ids_iff.mpr (by rw [hr]; rfl), hsound⟩
  rw [hset, Set.ncard_coe_finset, List.toFinset_card_of_nodup hnodup, List.length_map]
  exact hcount

theorem not_mem_selectFor_of_shutOut (ht : history.Pairwise (·.time ≤ ·.time))
    (hn : ∀ x ∈ history, x.time ≤ now) (h : ShutOut rules history now workerId) :
    workerId ∉ ((after rules history).selectFor capability now).2.map (·.spec.workerId) := by
  intro hm
  obtain ⟨w, hw, rfl⟩ := List.mem_map.mp hm
  obtain ⟨r, hr, -, hfit, rfl⟩ := mem_selectFor.mp hw
  have hfind : (after rules history).find? (r.seen rules now).snapshot.spec.workerId = some r :=
    (find?_eq_some (built_after rules history).distinct).mpr ⟨hr, by
      simp [Registration.workerId, Registration.snapshot]⟩
  rw [after_rules] at hfit h
  exact hfit.not_open ((shutOut_iff ht hn hfind).mp h)

/-- At any time in the life of a registry, the choice of workers for a capability is exact: it gives
those that may take work, each once, in the one ascending order, and changes nothing but the
breakers that are due. Workers that are shut out are not chosen, and all others are counted as
healthy. -/
theorem selectFor_exact (ht : history.Pairwise (·.time ≤ ·.time))
    (hn : ∀ x ∈ history, x.time ≤ now) (capability : String) :
    (after rules history).Exactly capability now ∧
      (∀ workerId, ShutOut rules history now workerId →
        workerId ∉ ((after rules history).selectFor capability now).2.map (·.spec.workerId)) ∧
      ((after rules history).healthyCount now).2 =
        {workerId | workerId ∈ (after rules history).ids ∧
          ¬ ShutOut rules history now workerId}.ncard :=
  ⟨(built_after rules history).exactly capability now,
    fun _ hout => not_mem_selectFor_of_shutOut ht hn hout, healthyCount_after ht hn⟩

/-- A worker fails twice and is shut out for ten ticks. The busy one is chosen meanwhile, and comes
after the idle one when that is back on trial. -/
theorem selectFor_passes_over_shut_out :
    let rules := BreakerRules.ofLimits 2 10
    let before : List Entry := [⟨0, .register ⟨"a", ["code"], 1.0⟩ 0⟩,
      ⟨0, .register ⟨"b", ["code"], 1.0⟩ 1⟩, ⟨1, .grant "b"⟩, ⟨2, .report "a" false⟩]
    let history := before ++ [⟨3, .report "a" false⟩, ⟨5, .select "code"⟩]
    let reg := after rules history
    "a" ∉ (reg.selectFor "code" 12).2.map (·.spec.workerId) ∧
      (reg.healthyCount 12).2 = 1 ∧
      (reg.selectFor "code" 12).2.map (·.spec.workerId) = ["b"] ∧
      (reg.selectFor "code" 13).2.Pairwise (·.key < ·.key) ∧
      (reg.selectFor "code" 13).2.map (·.spec.workerId) = ["a", "b"] := by
  intro rules before history reg
  have ht : history.Pairwise (·.time ≤ ·.time) := by decide
  have hn : ∀ x ∈ history, x.time ≤ 12 := by decide
  obtain ⟨-, hpassed, -⟩ := @selectFor_exact rules history 12 ht hn "code"
  obtain ⟨hlater, -, -⟩ := @selectFor_exact rules history 13 ht (by decide) "code"
  have hout : ShutOut rules history 12 "a" :=
    ⟨before, ⟨3, .report "a" false⟩, [⟨5, .select "code"⟩], rfl, by decide +kernel, by decide, by
      rintro ⟨spec, executor, -, hsub⟩
      simpa using hsub.length_le⟩
  have hback : (reg.selectFor "code" 13).2.map (·.spec.workerId) = ["a", "b"] := by
    rw [selectFor_snd, List.mergeSort_of_pairwise (by decide +kernel)]
    decide +kernel
  exact ⟨hpassed "a" hout, by decide +kernel, by decide +kernel, hlater.ascending, hback⟩

end Registry

end Crew
