import Crew.Proofs.Json.Numerals
import Crew.Proofs.Retry
import Crew.Proofs.Run.Course

/-!
# How many slots a run asks for

A run has as many slots as its cap says, or as its strategy makes of the healthy workers and the
tasks (`Config.Sizing`), and never none. A pool has no more than `Slots.limit`. A configuration is
accepted whatever numbers it names, as long as they are not zero, so it may ask for more than that
(`Config.Oversized`); then no run is started with it (`Coordinator.slots_within_limit`).
-/

namespace Crew

namespace Slots

theorem limit_lt_max_one {n : Nat} : limit < max n 1 ↔ limit < n := by
  have hone : 1 ≤ limit := by decide
  omega

theorem limit_lt_saturatingMul {a b : Nat} : limit < saturatingMul a b ↔ limit < a * b := by
  have hcut : limit < wordMax := by decide
  unfold saturatingMul
  omega

end Slots

namespace Config

variable {config : Config} {healthy total count : Nat}

theorem cap_pos_of_check (h : config.check = .ok ()) {cap : Nat}
    (hcap : config.execution.maxConcurrency = some cap) : 0 < cap := by
  have hrule := rule_of_check h (config.execution.maxConcurrency ≠ some 0,
    .tooSmall "execution.max_concurrency") (by simp [rules])
  have hne : config.execution.maxConcurrency ≠ some 0 := of_decide_eq_true hrule
  rw [hcap] at hne
  exact Nat.pos_of_ne_zero fun h0 => hne (congrArg some h0)

/-- How a configuration sizes the pool of a run for so many healthy workers and tasks. -/
inductive Sizing (config : Config) (healthy total : Nat) : Nat → Prop
  | capped {cap : Nat} (hcap : config.execution.maxConcurrency = some cap) :
    Sizing config healthy total (max cap 1)
  | shared (hcap : config.execution.maxConcurrency = none)
    (hs : config.concurrency.strategy = "per-worker") :
    Sizing config healthy total
      (max (saturatingMul healthy config.execution.perWorkerConcurrency) 1)
  | fixed (hcap : config.execution.maxConcurrency = none)
    (hs : config.concurrency.strategy = "fixed") :
    Sizing config healthy total (max config.concurrency.fixed 1)
  | bounded {least most : Nat} (hcap : config.execution.maxConcurrency = none)
    (hs : config.concurrency.strategy = "bounded")
    (hleast : least = max config.concurrency.minConcurrency 1)
    (hmost : most = max config.concurrency.maxConcurrency least) :
    Sizing config healthy total
      (min (max least (min (max (saturatingMul healthy config.execution.perWorkerConcurrency) 1)
        most)) (max total 1))

/-- The configuration asks for more slots than any pool has. -/
inductive Oversized (config : Config) (healthy total : Nat) : Prop
  | capped {cap : Nat} (hcap : config.execution.maxConcurrency = some cap)
    (h : Slots.limit < cap)
  | shared (hcap : config.execution.maxConcurrency = none)
    (hs : config.concurrency.strategy = "per-worker")
    (h : Slots.limit < healthy * config.execution.perWorkerConcurrency)
  | fixed (hcap : config.execution.maxConcurrency = none)
    (hs : config.concurrency.strategy = "fixed") (h : Slots.limit < config.concurrency.fixed)
  | bounded (hcap : config.execution.maxConcurrency = none)
    (hs : config.concurrency.strategy = "bounded") (htasks : Slots.limit < total)
    (h : Slots.limit < config.concurrency.minConcurrency ∨
      Slots.limit < config.concurrency.maxConcurrency ∧
        Slots.limit < healthy * config.execution.perWorkerConcurrency)

theorem Sizing.pos (h : config.Sizing healthy total count) : 1 ≤ count := by
  cases h with
  | capped | shared | fixed => exact Nat.le_max_right _ _
  | bounded => omega

theorem Sizing.limit_lt_iff (h : config.Sizing healthy total count) :
    Slots.limit < count ↔ config.Oversized healthy total := by
  have hone : 1 ≤ Slots.limit := by decide
  cases h with
  | @capped cap hcap =>
    rw [Slots.limit_lt_max_one]
    refine ⟨.capped hcap, fun ho => ?_⟩
    cases ho with
    | @capped cap' hcap' hlt =>
      obtain rfl : cap = cap' := Option.some.inj (hcap.symm.trans hcap')
      exact hlt
    | shared hnone | fixed hnone | bounded hnone => cases hcap.symm.trans hnone
  | shared hcap hs =>
    rw [Slots.limit_lt_max_one, Slots.limit_lt_saturatingMul]
    refine ⟨.shared hcap hs, fun ho => ?_⟩
    cases ho with
    | capped hsome => cases hcap.symm.trans hsome
    | shared _ _ hlt => exact hlt
    | fixed _ hs' | bounded _ hs' => exact absurd (hs.symm.trans hs') (by decide)
  | fixed hcap hs =>
    rw [Slots.limit_lt_max_one]
    refine ⟨.fixed hcap hs, fun ho => ?_⟩
    cases ho with
    | capped hsome => cases hcap.symm.trans hsome
    | fixed _ _ hlt => exact hlt
    | shared _ hs' | bounded _ hs' => exact absurd (hs.symm.trans hs') (by decide)
  | @bounded least most hcap hs hleast hmost =>
    have hproduct := Slots.limit_lt_saturatingMul (a := healthy)
      (b := config.execution.perWorkerConcurrency)
    refine ⟨fun hlt => .bounded hcap hs (by omega) (by omega), fun ho => ?_⟩
    cases ho with
    | capped hsome => cases hcap.symm.trans hsome
    | bounded _ _ htasks hlt => omega
    | shared _ hs' | fixed _ hs' => exact absurd (hs.symm.trans hs') (by decide)

theorem Sizing.eq_cap (h : config.Sizing healthy total count) (hc : config.check = .ok ())
    {cap : Nat} (hcap : config.execution.maxConcurrency = some cap) : count = cap := by
  have hpos := cap_pos_of_check hc hcap
  cases h with
  | @capped cap' hcap' =>
    obtain rfl : cap = cap' := Option.some.inj (hcap.symm.trans hcap')
    exact Nat.max_eq_left hpos
  | shared hnone | fixed hnone | bounded hnone => cases hcap.symm.trans hnone

theorem Sizing.le_of_bounded (h : config.Sizing healthy total count)
    (hcap : config.execution.maxConcurrency = none)
    (hs : config.concurrency.strategy = "bounded") :
    count ≤ max total 1 ∧
      count ≤ max (max config.concurrency.maxConcurrency config.concurrency.minConcurrency) 1 := by
  cases h with
  | capped hsome => cases hcap.symm.trans hsome
  | shared _ hs' | fixed _ hs' => exact absurd (hs.symm.trans hs') (by decide)
  | bounded _ _ hleast hmost => omega

end Config

namespace Coordinator

variable {config : Config} {c : Coordinator} {voteBy : Option String} {reg : Registry}
  {graph : TaskGraph}

theorem mapError_eq_ok {ε ε' α : Type} {x : Except ε α} {f : ε → ε'} {a : α}
    (h : x.mapError f = .ok a) : x = .ok a := by
  cases x with
  | error e => cases h
  | ok b => exact congrArg Except.ok (Except.ok.inj h)

theorem concurrency_of_ofConfig (h : ofConfig config voteBy = .ok c) :
    c.config = config ∧ ConcurrencyStrategy.ofConfig config.concurrency = .ok c.concurrency := by
  obtain ⟨retry, -, h⟩ := Json.bind_eq_ok.mp h
  obtain ⟨strategy, hs, h⟩ := Json.bind_eq_ok.mp h
  have hstrategy := mapError_eq_ok hs
  cases voteBy with
  | none =>
    cases h
    exact ⟨rfl, hstrategy⟩
  | some text =>
    obtain ⟨pointer, -, h⟩ := Json.bind_eq_ok.mp h
    cases h
    exact ⟨rfl, hstrategy⟩

theorem sizing_slotCount (h : ofConfig config voteBy = .ok c) (reg : Registry) (total now : Nat) :
    config.Sizing (reg.healthyCount now).2 total (c.slotCount reg total now).2 := by
  obtain ⟨rfl, hs⟩ := concurrency_of_ofConfig h
  unfold slotCount
  cases hcap : c.config.execution.maxConcurrency with
  | some cap => exact .capped hcap
  | none =>
    unfold ConcurrencyStrategy.ofConfig at hs
    split at hs
    next hname =>
      rw [← Except.ok.inj hs]
      exact .shared hcap hname
    next hname =>
      split at hs
      · cases hs
      · rw [← Except.ok.inj hs]
        have hfixed : max (max c.config.concurrency.fixed 1) 1 =
            max c.config.concurrency.fixed 1 := Nat.max_eq_left (Nat.le_max_right _ _)
        dsimp only [ConcurrencyStrategy.slots]
        rw [hfixed]
        exact .fixed hcap hname
    next hname =>
      rw [← Except.ok.inj hs]
      dsimp only [ConcurrencyStrategy.slots]
      rw [Nat.max_eq_left (by omega)]
      exact .bounded hcap hname rfl rfl
    · cases hs

/-- A run that has something to do starts unless it has more slots than there can be. -/
theorem start_of_viable (c : Coordinator) (runId : String) (now : Nat)
    (hv : checkViable graph reg = .ok ()) :
    let count := (c.slotCount reg graph.size now).2
    if count ≤ Slots.limit then
      ∃ run reg', c.start runId graph reg now = .ok (run, reg') ∧ run.slots = ⟨count, count⟩
    else c.start runId graph reg now = .error (.tooManySlots count) := by
  have hpos := c.slotCount_pos reg graph.size now
  unfold start
  dsimp only
  split
  next hle => simp [hv, Slots.ofCapacity_eq hpos, hle, bind, Except.bind, pure, Except.pure]
  next hle => simp [hv, Slots.ofCapacity_eq hpos, hle, bind, Except.bind]

/-- The pool of a run has at least one slot. It has no more than there can be, and the run starts,
unless the configuration asks for more; then the run does not start. A bounded pool has no more
slots than there are tasks, nor more than its own bounds. -/
theorem slots_within_limit (hc : config.check = .ok ()) (h : ofConfig config voteBy = .ok c)
    (reg : Registry) (total now : Nat) :
    let count := (c.slotCount reg total now).2
    let oversized := config.Oversized (reg.healthyCount now).2 total
    1 ≤ count ∧ (count ≤ Slots.limit ↔ ¬ oversized) ∧
      (∀ cap, config.execution.maxConcurrency = some cap → count = cap) ∧
      (∀ runId graph, graph.size = total → checkViable graph reg = .ok () →
        (¬ oversized → ∃ run reg', c.start runId graph reg now = .ok (run, reg') ∧
          run.slots = ⟨count, count⟩) ∧
        (oversized → c.start runId graph reg now = .error (.tooManySlots count))) ∧
      (config.execution.maxConcurrency = none → config.concurrency.strategy = "bounded" →
        count ≤ max total 1 ∧
          count ≤
            max (max config.concurrency.maxConcurrency config.concurrency.minConcurrency) 1) := by
  have hsizing := sizing_slotCount h reg total now
  have hlimit := hsizing.limit_lt_iff
  refine ⟨hsizing.pos, by rw [← hlimit, Nat.not_lt], fun cap hcap => hsizing.eq_cap hc hcap,
    fun runId graph htotal hv => ?_, hsizing.le_of_bounded⟩
  subst htotal
  have hstart := c.start_of_viable runId now hv
  dsimp only at hstart
  refine ⟨fun hfits => ?_, fun hover => ?_⟩
  · rwa [if_pos (Nat.not_lt.mp (mt hlimit.mp hfits))] at hstart
  · rwa [if_neg (Nat.not_le.mpr (hlimit.mpr hover))] at hstart

end Coordinator

-- ---------------------------------------------------------------------------
-- Within the limit and beyond it
-- ---------------------------------------------------------------------------

namespace Opening

def fewSlots : Coordinator where
  config :=
    { execution := { perWorkerConcurrency := 5 },
      concurrency := { strategy := "bounded", maxConcurrency := 8 } }
  retry := .exponential 100 5000
  concurrency := some (.bounded 1 8)

def allSlots : Coordinator where
  config := { execution := { maxConcurrency := some wordMax } }
  retry := .exponential 100 5000

theorem checkViable_relay : Coordinator.checkViable ⟨relay.tasks⟩ relay.registry = .ok () := by
  decide +kernel

theorem relay_within_limit : fewSlots.config.check = .ok () ∧
    Coordinator.ofConfig fewSlots.config none = .ok fewSlots ∧
    ∃ run reg, fewSlots.start "relay" ⟨relay.tasks⟩ relay.registry 0 = .ok (run, reg) ∧
      run.slots = ⟨2, 2⟩ := by
  have hcheck : fewSlots.config.check = .ok () := by decide +kernel
  have hmade : Coordinator.ofConfig fewSlots.config none = .ok fewSlots := rfl
  obtain ⟨-, -, -, hstart, -⟩ := Coordinator.slots_within_limit hcheck hmade relay.registry 2 0
  refine ⟨hcheck, hmade, (hstart "relay" ⟨relay.tasks⟩ rfl checkViable_relay).1 fun hover => ?_⟩
  cases hover with
  | bounded _ _ htasks => exact absurd htasks (by decide)
  | capped hcap => cases hcap
  | shared _ hs | fixed _ hs => exact absurd hs (by decide)

/-- A cap that is accepted may be beyond the limit, and then the relay is not started. -/
theorem relay_beyond_limit : allSlots.config.check = .ok () ∧
    Coordinator.ofConfig allSlots.config none = .ok allSlots ∧
    Slots.limit < (allSlots.slotCount relay.registry 2 0).2 ∧
    allSlots.start "relay" ⟨relay.tasks⟩ relay.registry 0 = .error (.tooManySlots wordMax) :=
  ⟨by decide +kernel, rfl, by decide, allSlots.start_of_viable "relay" 0 checkViable_relay⟩

end Opening

end Crew
