import Mathlib.Algebra.Group.Nat.Defs
import Mathlib.Order.Monotone.Basic
import Crew.Retry

/-!
# Waits before retries

The waits are worked out with products that are cut off at 64 bits, a counter that is cut off at 32
bits, and no more than thirty doublings. In a configuration that was checked delays are no longer
than a day, so products stay far below the cut, and where the doublings or the counter stop the
limit has long been reached. What comes out is given by plain formulas (`exact_of_check`).
-/

namespace Crew

/-- The strategies that the delays of a configuration may be used with. -/
def RetryConfig.strategies (c : RetryConfig) : List RetryStrategy :=
  [.exponential c.baseDelay c.maxDelay, .linear c.baseDelay c.maxDelay, .fixed c.baseDelay]

theorem Config.rule_of_check {c : Config} (h : c.check = .ok ()) (rule : Bool × ConfigError)
    (hm : rule ∈ c.rules) : rule.1 = true := by
  unfold check at h
  split at h
  · cases h
  next hnone => simpa using List.find?_eq_none.mp hnone rule hm

theorem Config.delays_of_check {c : Config} (h : c.check = .ok ()) :
    c.retry.baseDelay ≤ c.retry.maxDelay ∧ c.retry.maxDelay ≤ delayLimit := by
  have horder := rule_of_check h (c.retry.baseDelay ≤ c.retry.maxDelay, .delaysOutOfOrder)
    (by simp [rules])
  have hlimit := rule_of_check h
    (c.retry.maxDelay ≤ delayLimit, .tooLarge "retry.max_delay_ms" delayLimit) (by simp [rules])
  exact ⟨of_decide_eq_true horder, of_decide_eq_true hlimit⟩

namespace RetryStrategy

variable {s : RetryStrategy} {base limit n : Nat}

theorem mem_strategies_of_ofConfig {c : RetryConfig} (h : ofConfig c = .ok s) :
    s ∈ c.strategies := by
  unfold ofConfig at h
  split at h
  all_goals cases h
  all_goals simp [RetryConfig.strategies]

theorem eq_delay_of_decide {used limit wait : Nat} {error : String}
    (h : s.decide used limit error = some wait) : wait = s.delay used := by
  unfold decide at h
  split at h
  · exact (Option.some.inj h).symm
  · cases h

/-- The wait before a retry, whatever the size of the numbers. -/
def formula (s : RetryStrategy) (n : Nat) : Nat :=
  match s with
  | .exponential base limit => min (base * 2 ^ n) limit
  | .linear base limit => min (base * (n + 1)) limit
  | .fixed base => base

/-- No product is cut off. The counter of the retries may be, but only where the limit has been
reached or all waits are nothing. -/
def Uncut (s : RetryStrategy) (n : Nat) : Prop :=
  match s with
  | .exponential base _ => base * 2 ^ min n 30 ≤ wordMax
  | .linear base limit =>
    base * min (n + 1) (UInt32.size - 1) ≤ wordMax ∧
      (n + 1 < UInt32.size ∨ base = 0 ∨ limit ≤ base * (UInt32.size - 1))
  | .fixed _ => True

/-- The waits of a strategy are given by their formula. -/
structure Exact (s : RetryStrategy) : Prop where
  delay : ∀ n, s.delay n = s.formula n
  uncut : ∀ n, s.Uncut n
  monotone : Monotone s.delay
  bounded : ∀ n, s.delay n ≤ Config.delayLimit

-- ---------------------------------------------------------------------------
-- Products
-- ---------------------------------------------------------------------------

theorem saturatingMul_of_le {a b : Nat} (h : a * b ≤ wordMax) : saturatingMul a b = a * b :=
  Nat.min_eq_left h

/-- A factor may be cut off where the product has reached the limit. -/
theorem min_mul_min {cut x : Nat} (h : base = 0 ∨ limit ≤ base * cut) :
    min (base * min x cut) limit = min (base * x) limit := by
  rcases Nat.le_total x cut with hle | hle
  · rw [Nat.min_eq_left hle]
  · rw [Nat.min_eq_right hle]
    rcases h with rfl | h
    · simp
    · rw [Nat.min_eq_right h, Nat.min_eq_right (h.trans (Nat.mul_le_mul_left base hle))]

theorem reaches_limit {cut : Nat} (hlimit : limit ≤ Config.delayLimit)
    (hcut : Config.delayLimit ≤ cut) : base = 0 ∨ limit ≤ base * cut := by
  rcases Nat.eq_zero_or_pos base with h0 | hpos
  · exact .inl h0
  · exact .inr ((hlimit.trans hcut).trans (Nat.le_mul_of_pos_left cut hpos))

theorem mul_le_wordMax {factor : Nat} (hbase : base ≤ Config.delayLimit) (hf : factor ≤ 2 ^ 32) :
    base * factor ≤ wordMax :=
  (Nat.mul_le_mul hbase hf).trans (by decide)

theorem two_pow_min (n k : Nat) : 2 ^ min n k = min (2 ^ n) (2 ^ k) := by
  rcases Nat.le_total n k with h | h
  · rw [Nat.min_eq_left h, Nat.min_eq_left (Nat.pow_le_pow_right Nat.two_pos h)]
  · rw [Nat.min_eq_right h, Nat.min_eq_right (Nat.pow_le_pow_right Nat.two_pos h)]

-- ---------------------------------------------------------------------------
-- Strategies
-- ---------------------------------------------------------------------------

theorem monotone_formula (s : RetryStrategy) : Monotone s.formula := by
  intro n m h
  cases s with
  | exponential base limit =>
    have hproduct := Nat.mul_le_mul_left base (Nat.pow_le_pow_right Nat.two_pos h)
    change min _ _ ≤ min _ _
    omega
  | linear base limit =>
    have hproduct := Nat.mul_le_mul_left base (Nat.add_le_add_right h 1)
    change min _ _ ≤ min _ _
    omega
  | fixed base => exact Nat.le_refl _

theorem Exact.of_formula (hdelay : ∀ n, s.delay n = s.formula n) (huncut : ∀ n, s.Uncut n)
    (hbounded : ∀ n, s.formula n ≤ Config.delayLimit) : s.Exact where
  delay := hdelay
  uncut := huncut
  monotone := by
    rw [funext hdelay]
    exact s.monotone_formula
  bounded n := by
    rw [hdelay]
    exact hbounded n

theorem uncut (hbase : base ≤ Config.delayLimit) (hlimit : limit ≤ Config.delayLimit) (n : Nat) :
    (exponential base limit).Uncut n ∧ (linear base limit).Uncut n := by
  have hcounter : Config.delayLimit ≤ UInt32.size - 1 := by decide
  refine ⟨mul_le_wordMax hbase ?_, mul_le_wordMax hbase ?_, .inr (reaches_limit hlimit hcounter)⟩
  · exact Nat.pow_le_pow_right Nat.two_pos ((Nat.min_le_right n 30).trans (by decide))
  · exact (Nat.min_le_right _ _).trans (by decide)

theorem delay_exponential (hbase : base ≤ Config.delayLimit) (hlimit : limit ≤ Config.delayLimit)
    (n : Nat) : (exponential base limit).delay n = min (base * 2 ^ n) limit := by
  have hdoublings : Config.delayLimit ≤ 2 ^ 30 := by decide
  have huncut := (uncut hbase hlimit n).1
  change min (saturatingMul base (2 ^ min n 30)) limit = _
  rw [saturatingMul_of_le huncut, two_pow_min]
  exact min_mul_min (reaches_limit hlimit hdoublings)

theorem delay_linear (hbase : base ≤ Config.delayLimit) (hlimit : limit ≤ Config.delayLimit)
    (n : Nat) : (linear base limit).delay n = min (base * (n + 1)) limit := by
  have hcounter : Config.delayLimit ≤ UInt32.size - 1 := by decide
  have huncut := (uncut hbase hlimit n).2.1
  change min (saturatingMul base (min (n + 1) (UInt32.size - 1))) limit = _
  rw [saturatingMul_of_le huncut]
  exact min_mul_min (reaches_limit hlimit hcounter)

theorem exact_of_check {c : Config} (h : c.check = .ok ()) (hs : s ∈ c.retry.strategies) :
    s.Exact := by
  obtain ⟨horder, hlimit⟩ := Config.delays_of_check h
  have hbase := horder.trans hlimit
  simp only [RetryConfig.strategies, List.mem_cons, List.not_mem_nil, or_false] at hs
  rcases hs with rfl | rfl | rfl
  · exact .of_formula (delay_exponential hbase hlimit) (fun n => (uncut hbase hlimit n).1)
      fun n => (Nat.min_le_right _ _).trans hlimit
  · exact .of_formula (delay_linear hbase hlimit) (fun n => (uncut hbase hlimit n).2)
      fun n => (Nat.min_le_right _ _).trans hlimit
  · exact .of_formula (fun _ => rfl) (fun _ => trivial) fun _ => hbase

end RetryStrategy

end Crew
