import Mathlib
import Crew.Decimal.Shortest

/-!
# What shortest decimals stand for

The doubles divide the rationals from zero on into intervals: where the interval of one double
ends, that of the next one begins (`Magnitude.high_ofRung`). The shortest decimal of a double lies
in the interval of that double (`holds_shortestDecimal`), and no rational lies in two intervals
(`Magnitude.Holds.rung_unique`). Two doubles with one decimal differ at most in their sign
(`rung_eq_of_value_eq`).
-/

namespace Crew

namespace Decimal

def value (d : Decimal) : ℚ := d.digits * 10 ^ d.exponent

/-- Zero is written in one way only. -/
def IsPlain (d : Decimal) : Prop := 0 < d.digits ∨ d = ⟨0, 0⟩

theorem value_strip (fuel : Nat) (d : Decimal) : (strip fuel d).value = d.value := by
  induction fuel generalizing d with
  | zero => rfl
  | succ fuel ih =>
    unfold strip
    split
    next h =>
      have hdigits : (d.digits : ℚ) = (d.digits / 10 : ℕ) * 10 := by
        exact_mod_cast (Nat.div_mul_cancel (Nat.dvd_of_mod_eq_zero h.2)).symm
      rw [ih, value, value, hdigits, zpow_add_one₀ (by norm_num)]
      ring
    · rfl

-- ---------------------------------------------------------------------------
-- Powers and widths
-- ---------------------------------------------------------------------------

theorem powerUp_pos {base : Nat} (hb : 0 < base) (n : Int) : 0 < powerUp base n :=
  Nat.pow_pos hb

/-- A power is the fraction of its two halves, of which one is 1. -/
theorem powerUp_div (base : Nat) (hb : 0 < base) (n : Int) :
    (base : ℚ) ^ n * powerUp base (-n) = powerUp base n := by
  have hne : (base : ℚ) ≠ 0 := Nat.cast_ne_zero.mpr hb.ne'
  cases n with
  | ofNat n => simp [powerUp]
  | negSucc n =>
    have hneg : (-Int.negSucc n).toNat = n + 1 := rfl
    have hpos : (Int.negSucc n).toNat = 0 := rfl
    simp only [powerUp, hneg, hpos, zpow_negSucc, Nat.pow_eq, pow_zero, Nat.cast_one,
      Nat.cast_pow]
    exact inv_mul_cancel₀ (pow_ne_zero _ hne)

theorem lt_pow_width (n : Nat) : n < 10 ^ width n :=
  (Nat.length_toDigits_le_iff (by decide) Nat.length_toDigits_pos).mp (le_refl _)

theorem pow_width_le {n : Nat} (h : 0 < n) : 10 ^ (width n - 1) ≤ n := by
  by_contra hlt
  have hpos : 0 < width n - 1 := by
    by_contra hz
    rw [Nat.eq_zero_of_not_pos hz, pow_zero] at hlt
    omega
  have hle := (Nat.length_toDigits_le_iff (by decide) hpos).mpr (Nat.lt_of_not_le hlt)
  have hwidth : (Nat.toDigits 10 n).length = width n := rfl
  omega

theorem pow_leadingExponent_le {num den : Nat} (hn : 0 < num) (hd : 0 < den) :
    (10 : ℚ) ^ leadingExponent num den * den ≤ num := by
  have hdq : (0 : ℚ) < den := Nat.cast_pos.mpr hd
  unfold leadingExponent
  split
  next hle =>
    have hq : 0 < num / den := Nat.div_pos hle hd
    have hwidth : 0 < width (num / den) := Nat.length_toDigits_pos
    have hpow : 10 ^ (width (num / den) - 1) * den ≤ num :=
      le_trans (Nat.mul_le_mul_right den (pow_width_le hq)) (Nat.div_mul_le_self num den)
    have hexp : ((width (num / den) : Int) - 1) = ((width (num / den) - 1 : Nat) : Int) := by
      omega
    rw [hexp, zpow_natCast]
    exact_mod_cast hpow
  next hlt =>
    -- the ceiling of `den / num` has at most as many digits as its predecessor has
    have hceil : den ≤ (den + num - 1) / num * num := by
      have := Nat.lt_div_mul_add (a := den + num - 1) hn
      omega
    generalize (den + num - 1) / num = c at hceil ⊢
    have hpow : c ≤ 10 ^ width (c - 1) := by
      have := lt_pow_width (c - 1)
      omega
    have hden : den ≤ num * 10 ^ width (c - 1) :=
      le_trans hceil (by rw [mul_comm]; exact Nat.mul_le_mul_left num hpow)
    rw [zpow_neg, zpow_natCast, inv_mul_le_iff₀ (by positivity), mul_comm]
    exact_mod_cast hden

-- ---------------------------------------------------------------------------
-- The interval of a double
-- ---------------------------------------------------------------------------

namespace Magnitude

variable {x : Magnitude} {k : Int} {d : Nat}

def unit (x : Magnitude) : ℚ := 2 ^ (x.exponent - 2)

theorem unit_pos (x : Magnitude) : 0 < x.unit := by
  unfold unit
  positivity

def low (x : Magnitude) : ℚ := (4 * x.mantissa - if x.narrow then 1 else 2) * x.unit

def high (x : Magnitude) : ℚ := (4 * x.mantissa + 2) * x.unit

/-- The rationals that round to `x`: a half is rounded to the even mantissa. -/
def Holds (x : Magnitude) (q : ℚ) : Prop :=
  if x.mantissa % 2 = 0 then x.low ≤ q ∧ q ≤ x.high else x.low < q ∧ q < x.high

theorem Holds.bounds {q : ℚ} (h : x.Holds q) : x.low ≤ q ∧ q ≤ x.high := by
  unfold Holds at h
  split at h
  · exact h
  · exact ⟨h.1.le, h.2.le⟩

theorem holds_of_strict {q : ℚ} (hl : x.low < q) (hh : q < x.high) : x.Holds q := by
  unfold Holds
  split
  · exact ⟨hl.le, hh.le⟩
  · exact ⟨hl, hh⟩

theorem low_lt_high (x : Magnitude) : x.low < x.high := by
  refine mul_lt_mul_of_pos_right ?_ x.unit_pos
  split <;> linarith

-- ---------------------------------------------------------------------------
-- Grids
-- ---------------------------------------------------------------------------

/-- With `gridDen`, a quarter of the last binary place in steps of the grid, as a fraction. -/
def gridNum (x : Magnitude) (k : Int) : Nat := x.quarter.1 * powerUp 10 (-k)

def gridDen (x : Magnitude) (k : Int) : Nat := x.quarter.2 * powerUp 10 k

theorem quarter_snd_pos (x : Magnitude) : 0 < x.quarter.2 := powerUp_pos (by decide) _

theorem gridDen_pos (x : Magnitude) (k : Int) : 0 < x.gridDen k :=
  Nat.mul_pos x.quarter_snd_pos (powerUp_pos (by decide) _)

theorem quarter_eq (x : Magnitude) : x.unit * x.quarter.2 = x.quarter.1 := by
  have h := powerUp_div 2 (by decide) (x.exponent - 2)
  rwa [neg_sub] at h

theorem gridNum_eq (x : Magnitude) (k : Int) :
    (x.gridNum k : ℚ) * 10 ^ k = x.unit * x.gridDen k := by
  have hten := powerUp_div 10 (by decide) k
  rw [gridNum, gridDen, Nat.cast_mul, Nat.cast_mul, ← quarter_eq, ← hten]
  push_cast
  ring

/-- Comparisons on the grid are comparisons of rationals. -/
theorem grid_le_iff {p q : Nat} :
    (p * x.gridDen k ≤ q * x.gridNum k ↔ (p : ℚ) * 10 ^ k ≤ q * x.unit) ∧
      (q * x.gridNum k ≤ p * x.gridDen k ↔ (q : ℚ) * x.unit ≤ p * 10 ^ k) := by
  have hten : (0 : ℚ) < 10 ^ k := by positivity
  have hden : (0 : ℚ) < x.gridDen k := Nat.cast_pos.mpr (x.gridDen_pos k)
  have hnum : (q * x.unit : ℚ) * x.gridDen k = (q * x.gridNum k : Nat) * 10 ^ k := by
    rw [Nat.cast_mul, mul_assoc, mul_assoc, gridNum_eq]
  have hsteps : (p * 10 ^ k : ℚ) * x.gridDen k = (p * x.gridDen k : Nat) * 10 ^ k := by
    rw [Nat.cast_mul]
    ring
  constructor <;>
    rw [← mul_le_mul_iff_left₀ hden, hnum, hsteps, mul_le_mul_iff_left₀ hten, Nat.cast_le]

def inside (x : Magnitude) (k : Int) (d : Nat) : Bool :=
  let low := (4 * x.mantissa - if x.narrow then 1 else 2) * x.gridNum k
  let high := (4 * x.mantissa + 2) * x.gridNum k
  if x.mantissa % 2 = 0 then low ≤ d * x.gridDen k && d * x.gridDen k ≤ high
  else low < d * x.gridDen k && d * x.gridDen k < high

def nearer (x : Magnitude) (k : Int) : Nat :=
  let value := 4 * x.mantissa * x.gridNum k
  let below := value / x.gridDen k
  let above := below + 1
  let down := value - below * x.gridDen k
  let up := above * x.gridDen k - value
  if down < up then below else if up < down then above
    else if below % 2 = 0 then below else above

def farther (x : Magnitude) (k : Int) : Nat :=
  let below := 4 * x.mantissa * x.gridNum k / x.gridDen k
  if x.nearer k = below then below + 1 else below

theorem onGrid?_eq (x : Magnitude) (k : Int) : x.onGrid? k =
    if x.inside k (x.nearer k) then some ⟨x.nearer k, k⟩
    else if x.inside k (x.farther k) then some ⟨x.farther k, k⟩ else none := rfl

theorem inside_iff (hm : 0 < x.mantissa) : x.inside k d = true ↔ x.Holds (d * 10 ^ k) := by
  have hlow : ((4 * x.mantissa - if x.narrow then 1 else 2 : Nat) : ℚ) * x.unit = x.low := by
    rw [low, Nat.cast_sub (by split <;> omega)]
    push_cast
    rfl
  have hhigh : ((4 * x.mantissa + 2 : Nat) : ℚ) * x.unit = x.high := by
    rw [high]
    push_cast
    rfl
  unfold inside Holds
  dsimp only
  by_cases hpar : x.mantissa % 2 = 0
  · simp only [if_pos hpar, Bool.and_eq_true, decide_eq_true_eq, grid_le_iff.1, grid_le_iff.2,
      hlow, hhigh]
  · simp only [if_neg hpar, Bool.and_eq_true, decide_eq_true_eq, ← not_le, grid_le_iff.1,
      grid_le_iff.2, hlow, hhigh]

theorem holds_of_onGrid? (hm : 0 < x.mantissa) {e : Decimal} (h : x.onGrid? k = some e) :
    x.Holds e.value := by
  rw [onGrid?_eq] at h
  split at h
  next hin =>
    obtain rfl := Option.some.inj h
    exact (inside_iff hm).mp hin
  · split at h
    next hin =>
      obtain rfl := Option.some.inj h
      exact (inside_iff hm).mp hin
    · cases h

theorem nearer_spec (x : Magnitude) (k : Int) :
    2 * (4 * x.mantissa * x.gridNum k) ≤ 2 * (x.nearer k * x.gridDen k) + x.gridDen k ∧
      2 * (x.nearer k * x.gridDen k) ≤ 2 * (4 * x.mantissa * x.gridNum k) + x.gridDen k := by
  unfold nearer
  dsimp only
  generalize 4 * x.mantissa * x.gridNum k = value
  have hden := x.gridDen_pos k
  have hbelow := Nat.div_mul_le_self value (x.gridDen k)
  have habove : value < _ := Nat.lt_div_mul_add hden
  have hnext := Nat.succ_mul (value / x.gridDen k) (x.gridDen k)
  rw [Nat.succ_eq_add_one] at hnext
  split
  · omega
  · split
    · omega
    · split <;> omega

/-- The mantissas of doubles, and where the interval is narrow below. -/
structure Sound (x : Magnitude) : Prop where
  bound : x.mantissa < 2 ^ 53
  narrow : x.narrow = true → x.mantissa = 2 ^ 52

/-- With seventeen digits the nearer neighbour always reads back. -/
theorem inside_nearer (hs : x.Sound)
    (hk : (10 : ℚ) ^ k * 10 ^ 16 ≤ 4 * x.mantissa * x.unit) : x.inside k (x.nearer k) = true := by
  have hstep : 10 ^ 16 * x.gridDen k ≤ 4 * x.mantissa * x.gridNum k := by
    rw [grid_le_iff.1]
    push_cast
    linarith
  have hden := x.gridDen_pos k
  obtain ⟨hlower, hupper⟩ := x.nearer_spec k
  have hbound : x.mantissa * x.gridNum k ≤ (2 ^ 53 - 1) * x.gridNum k :=
    Nat.mul_le_mul_right _ (Nat.le_sub_one_of_lt hs.bound)
  -- half a step is less than two quarters, since the mantissa is below `10 ^ 16`
  rw [mul_assoc] at hstep hlower hupper
  have hlow : (4 * x.mantissa - if x.narrow then 1 else 2) * x.gridNum k <
      x.nearer k * x.gridDen k := by
    rw [Nat.sub_mul, mul_assoc]
    split
    next hnarrow =>
      have hmantissa : x.mantissa * x.gridNum k = 2 ^ 52 * x.gridNum k := by
        rw [hs.narrow hnarrow]
      omega
    next => omega
  have hhigh : x.nearer k * x.gridDen k < (4 * x.mantissa + 2) * x.gridNum k := by
    rw [Nat.add_mul, mul_assoc]
    omega
  unfold inside
  dsimp only
  split <;> simp only [Bool.and_eq_true, decide_eq_true_eq]
  · exact ⟨hlow.le, hhigh.le⟩
  · exact ⟨hlow, hhigh⟩

theorem holds_shortest (hs : x.Sound) (hm : 0 < x.mantissa) : x.Holds x.shortest.value := by
  have hnum : 0 < 4 * x.mantissa * x.quarter.1 :=
    Nat.mul_pos (Nat.mul_pos (by decide) hm) (powerUp_pos (by decide) _)
  have hlead := pow_leadingExponent_le hnum x.quarter_snd_pos
  set lead := leadingExponent (4 * x.mantissa * x.quarter.1) x.quarter.2
  -- the last of the seventeen grids has a hit
  have hlast : (10 : ℚ) ^ (lead - Int.ofNat 16) * 10 ^ 16 ≤ 4 * x.mantissa * x.unit := by
    have hpow : (10 : ℚ) ^ (lead - Int.ofNat 16) * 10 ^ 16 = 10 ^ lead := by
      rw [← zpow_natCast, ← zpow_add₀ (by norm_num)]
      congr 1
      exact sub_add_cancel lead 16
    rw [hpow]
    refine le_of_mul_le_mul_right (le_trans hlead (le_of_eq ?_))
      (Nat.cast_pos.mpr x.quarter_snd_pos)
    push_cast
    rw [mul_assoc (4 * (x.mantissa : ℚ)), quarter_eq]
  have hhit : ((List.range 17).findSome? fun n => x.onGrid? (lead - Int.ofNat n)).isSome := by
    rw [List.findSome?_isSome_iff]
    refine ⟨16, by decide, ?_⟩
    rw [onGrid?_eq, if_pos (inside_nearer hs hlast)]
    rfl
  obtain ⟨d, hd⟩ := Option.isSome_iff_exists.mp hhit
  obtain ⟨n, -, hn⟩ := List.exists_of_findSome?_eq_some hd
  have hshortest : x.shortest = strip 20 d := by
    have hunfold : x.shortest = strip 20
      (((List.range 17).findSome? fun n => x.onGrid? (lead - Int.ofNat n)).getD ⟨0, 0⟩) := rfl
    rw [hunfold, hd, Option.getD_some]
  rw [hshortest, value_strip]
  exact holds_of_onGrid? hm hn

-- ---------------------------------------------------------------------------
-- The doubles in their order
-- ---------------------------------------------------------------------------

/-- The magnitude with `n` smaller ones. -/
def ofRung (n : Nat) : Magnitude :=
  let fraction := n % Nat.pow 2 52
  let field := n / Nat.pow 2 52
  if field = 0 then ⟨fraction, -1074, false⟩
  else ⟨Nat.pow 2 52 + fraction, (field : Int) - 1075, fraction = 0 && 1 < field⟩

/-- What is left of the bits of a double without its sign. -/
def rung (bits : UInt64) : Nat := bits.toNat % Nat.pow 2 63

theorem rung_mod (bits : UInt64) :
    rung bits % Nat.pow 2 52 = bits.toNat % Nat.pow 2 52 :=
  Nat.mod_mod_of_dvd _ (pow_dvd_pow 2 (by decide))

theorem rung_div (bits : UInt64) :
    rung bits / Nat.pow 2 52 = bits.toNat / Nat.pow 2 52 % 2048 :=
  Nat.mod_mul_right_div_self bits.toNat (Nat.pow 2 52) 2048

theorem ofBits_eq (bits : UInt64) : ofBits bits = ofRung (rung bits) := by
  unfold ofBits ofRung
  rw [rung_mod, rung_div]

theorem sound_ofRung (n : Nat) : (ofRung n).Sound := by
  have hfraction : n % Nat.pow 2 52 < Nat.pow 2 52 := Nat.mod_lt n (by decide)
  have hpow : Nat.pow 2 52 = 4503599627370496 := rfl
  unfold ofRung
  dsimp only
  split
  · exact ⟨by dsimp only; omega, nofun⟩
  · refine ⟨by dsimp only; omega, fun h => ?_⟩
    rw [Bool.and_eq_true, decide_eq_true_eq] at h
    dsimp only
    omega

theorem mantissa_ofRung_mod (n : Nat) : (ofRung n).mantissa % 2 = n % 2 := by
  have hfraction : n % Nat.pow 2 52 % 2 = n % 2 := Nat.mod_mod_of_dvd n (by decide)
  have hpow : Nat.pow 2 52 = 4503599627370496 := rfl
  unfold ofRung
  dsimp only
  split <;> dsimp only <;> omega

/-- The next double has the next mantissa, or the first mantissa at the next exponent. -/
theorem ofRung_succ (n : Nat) :
    ofRung (n + 1) = ⟨(ofRung n).mantissa + 1, (ofRung n).exponent, false⟩ ∨
      (ofRung n).mantissa + 1 = 2 ^ 53 ∧
        ofRung (n + 1) = ⟨2 ^ 52, (ofRung n).exponent + 1, true⟩ := by
  have hpow : Nat.pow 2 52 = 4503599627370496 := rfl
  unfold ofRung
  dsimp only
  rw [hpow]
  rcases Nat.lt_or_ge (n % 4503599627370496 + 1) 4503599627370496 with hlt | hge
  · have hfraction : (n + 1) % 4503599627370496 = n % 4503599627370496 + 1 := by omega
    have hfield : (n + 1) / 4503599627370496 = n / 4503599627370496 := by omega
    rw [hfraction, hfield]
    split
    · exact .inl rfl
    · exact .inl (by simp [Nat.add_assoc])
  · have hfraction : (n + 1) % 4503599627370496 = 0 := by omega
    have hfield : (n + 1) / 4503599627370496 = n / 4503599627370496 + 1 := by omega
    rw [hfraction, hfield, if_neg (Nat.succ_ne_zero _)]
    split
    next hzero =>
      refine .inl ?_
      rw [hzero, Magnitude.mk.injEq]
      exact ⟨by dsimp only; omega, rfl, rfl⟩
    next hpos =>
      refine .inr ⟨by dsimp only; omega, ?_⟩
      rw [Magnitude.mk.injEq]
      exact ⟨rfl, by push_cast; ring, decide_eq_true (by omega)⟩

/-- Where the interval of one double ends, that of the next one begins. -/
theorem high_ofRung (n : Nat) : (ofRung n).high = (ofRung (n + 1)).low := by
  rcases ofRung_succ n with h | ⟨hm, h⟩
  · rw [h, high, low, if_neg Bool.false_ne_true]
    unfold unit
    push_cast
    ring
  · have hmantissa : ((ofRung n).mantissa : ℚ) = 2 ^ 53 - 1 := by
      rw [eq_sub_iff_add_eq]
      exact_mod_cast hm
    have hunit : (2 : ℚ) ^ ((ofRung n).exponent + 1 - 2) = 2 * 2 ^ ((ofRung n).exponent - 2) := by
      rw [← zpow_one_add₀ (by norm_num)]
      congr 1
      ring
    rw [h, high, low, if_pos rfl, hmantissa]
    unfold unit
    rw [hunit]
    push_cast
    ring

theorem strictMono_low : StrictMono fun n => (ofRung n).low :=
  strictMono_nat_of_lt_succ fun n => by
    rw [← high_ofRung]
    exact low_lt_high _

/-- No rational lies in the intervals of two doubles: the end of one interval belongs to the double
with the even mantissa. -/
theorem Holds.rung_unique {m n : Nat} {q : ℚ} (hm : (ofRung m).Holds q)
    (hn : (ofRung n).Holds q) : m = n := by
  wlog hlt : m < n generalizing m n
  · rcases Nat.lt_or_ge n m with h | h
    · exact (this hn hm h).symm
    · exact (Nat.le_antisymm (Nat.le_of_not_lt hlt) h).symm
  exfalso
  have hbetween : (ofRung (m + 1)).low ≤ (ofRung n).low := strictMono_low.monotone hlt
  have hqm := hm.bounds
  have hqn := hn.bounds
  rw [high_ofRung] at hqm
  have hnext : m + 1 = n :=
    strictMono_low.injective (le_antisymm hbetween (hqn.1.trans hqm.2))
  subst hnext
  have hparity := mantissa_ofRung_mod m
  have hparity' := mantissa_ofRung_mod (m + 1)
  unfold Holds at hm hn
  rw [high_ofRung] at hm
  split at hm
  · split at hn
    · omega
    · exact absurd (hn.1.trans_le hm.2) (lt_irrefl _)
  · exact absurd (hm.2.trans_le hqn.1) (lt_irrefl _)

end Magnitude

end Decimal

open Decimal Magnitude

theorem holds_shortestDecimal (x : Float) :
    (ofRung (rung x.toBits)).Holds (shortestDecimal x).value := by
  unfold shortestDecimal
  rw [ofBits_eq]
  dsimp only
  split
  next hzero =>
    have hvalue : (⟨0, 0⟩ : Decimal).value = 0 := by simp [value]
    have hunit := (ofRung (rung x.toBits)).unit_pos
    rw [hvalue]
    refine holds_of_strict ?_ ?_
    · rw [low, hzero]
      refine mul_neg_of_neg_of_pos ?_ hunit
      split <;> norm_num
    · rw [high, hzero]
      norm_num
      exact hunit
  next hpos => exact holds_shortest (sound_ofRung _) (Nat.pos_of_ne_zero hpos)

theorem isPlain_shortestDecimal (x : Float) : (shortestDecimal x).IsPlain := by
  unfold shortestDecimal
  rw [ofBits_eq]
  dsimp only
  split
  · exact .inr rfl
  next hpos =>
    refine .inl (Nat.pos_of_ne_zero fun h0 => ?_)
    have hmantissa : (1 : ℚ) ≤ (ofRung (rung x.toBits)).mantissa :=
      Nat.one_le_cast.mpr (Nat.pos_of_ne_zero hpos)
    have hlow : 0 < (ofRung (rung x.toBits)).low := by
      refine mul_pos ?_ (unit_pos _)
      split <;> linarith
    have hholds := holds_shortest (sound_ofRung (rung x.toBits)) (Nat.pos_of_ne_zero hpos)
    rw [value, h0, Nat.cast_zero, zero_mul] at hholds
    exact absurd hholds.bounds.1 (not_le.mpr hlow)

/-- Doubles with one shortest decimal differ at most in their sign. -/
theorem rung_eq_of_value_eq {x y : Float}
    (h : (shortestDecimal x).value = (shortestDecimal y).value) : rung x.toBits = rung y.toBits :=
  (holds_shortestDecimal x).rung_unique (h ▸ holds_shortestDecimal y)

end Crew
