import Mathlib.Data.Nat.Log
import Crew.Event.Basic
import Crew.Scaling

/-!
# Ratios are finite

The ratio of waiting tasks to healthy workers is a quotient of two counts. Both are taken as
doubles, whose mantissas fill all of their 53 bits and whose exponents are moderate
(`unpack_ofNat`); a quotient of two such doubles is far from being too large for a double. So the
ratio is finite as long as there is a worker (`ScalingDetector.isFinite_ratio`), and infinite
without one. A detector signals just the ratio of what it observed
(`ScalingDetector.ratio_of_observe`).
-/

namespace Crew

open Float.Model Float.Model.UnpackedFloat

variable {s : Sign} {m n : Nat} {e f : Int}

-- ---------------------------------------------------------------------------
-- Rounding
-- ---------------------------------------------------------------------------

theorem mantissa_shiftRight (em : ExtendedMantissa) (k : Nat) :
    (em >>> k).mantissa = em.mantissa / Nat.pow 2 k := by
  induction k with
  | zero => exact (Nat.div_one _).symm
  | succ k ih =>
    have hstep : (em >>> (k + 1)).mantissa = (em >>> k).mantissa / 2 := rfl
    rw [hstep, ih, Nat.div_div_eq_div_mul]
    rfl

theorem roundedMantissa_bounds (em : ExtendedMantissa) :
    em.mantissa ≤ em.roundedMantissa ∧ em.roundedMantissa ≤ em.mantissa + 1 := by
  obtain ⟨m, roundBit, stickyBit⟩ := em
  cases roundBit <;> cases stickyBit <;>
    simp [ExtendedMantissa.roundedMantissa, ExtendedMantissa.accuracy,
      Accuracy.roundToNearestEven]
  omega

theorem mantissa_ofMantissaAndAccuracy (m : Nat) (accuracy : Accuracy) :
    (ExtendedMantissa.ofMantissaAndAccuracy m accuracy).mantissa = m := by
  cases accuracy with
  | exact => rfl
  | inexact o => cases o <;> rfl

theorem mantissaBits_binary64 : (Format.binary64.mantissaBits : Int) = 53 := rfl

theorem minExponent_binary64 : Format.binary64.minExponent = -1074 := rfl

theorem targetExponent_eq (h : -1074 ≤ (m.log2 : Int) + e - 52) :
    Format.binary64.targetExponent (totalExponent m e) = (m.log2 : Int) + e - 52 := by
  rw [Format.targetExponent, totalExponent, mantissaBits_binary64, minExponent_binary64]
  omega

theorem shiftToTargetExponent_eq {k : Nat} (hk : m.log2 = 52 + k) (he : -1074 ≤ e + k)
    (accuracy : Accuracy) :
    (shiftToTargetExponent Format.binary64 m e accuracy).1.mantissa = m / Nat.pow 2 k ∧
      (shiftToTargetExponent Format.binary64 m e accuracy).2 = e + k := by
  have htarget : Format.binary64.targetExponent (totalExponent m e) = e + k := by
    rw [targetExponent_eq (by omega)]
    omega
  have hshift : (e + k - e).toNat = k := by omega
  unfold shiftToTargetExponent
  rw [htarget, shiftToExponent, hshift]
  exact ⟨(mantissa_shiftRight _ k).trans (by rw [mantissa_ofMantissaAndAccuracy]), rfl⟩

theorem log2_div {k : Nat} (hk : m.log2 = 52 + k) : (m / Nat.pow 2 k).log2 = 52 := by
  have hm : m ≠ 0 := by
    rintro rfl
    rw [Nat.log2_zero] at hk
    omega
  obtain ⟨hlow, hhigh⟩ := (Nat.log2_eq_iff hm).mp hk
  have hpos : 0 < 2 ^ k := Nat.two_pow_pos k
  have hq : 2 ^ 52 ≤ m / 2 ^ k := by
    rw [Nat.le_div_iff_mul_le hpos, ← Nat.pow_add]
    exact hlow
  refine (Nat.log2_eq_iff (Nat.ne_of_gt (Nat.lt_of_lt_of_le (Nat.two_pow_pos 52) hq))).mpr
    ⟨hq, (Nat.div_lt_iff_lt_mul hpos).mpr ?_⟩
  rw [← Nat.pow_add]
  exact Nat.lt_of_lt_of_eq hhigh (by congr 1; omega)

/-- What is rounded fills its bits, and its exponent is at most one more than needed for that. -/
theorem roundWithAccuracy_full {k : Nat} (hk : m.log2 = 52 + k) (he : -1074 ≤ e + k)
    (accuracy : Accuracy) :
    ∃ m' e' h, roundWithAccuracy Format.binary64 s m e accuracy = .finite s m' e' h ∧
      m'.log2 = 52 ∧ e + k ≤ e' ∧ e' ≤ e + k + 1 := by
  obtain ⟨hmantissa, hexponent⟩ := shiftToTargetExponent_eq hk he accuracy
  generalize hfirst : shiftToTargetExponent Format.binary64 m e accuracy = first at *
  obtain ⟨em, e₁⟩ := first
  dsimp only at hmantissa hexponent
  subst hexponent
  have hrounded := roundedMantissa_bounds em
  rw [hmantissa] at hrounded
  have hlog := log2_div hk
  generalize m / Nat.pow 2 k = q at hlog hrounded
  -- Rounding up may take one bit more than there are; then it leaves a power of two.
  have hcarry : ∃ k', em.roundedMantissa.log2 = 52 + k' ∧ k' ≤ 1 := by
    have hq : q ≠ 0 := by
      rintro rfl
      rw [Nat.log2_zero] at hlog
      omega
    obtain ⟨hlow, hhigh⟩ := (Nat.log2_eq_iff hq).mp hlog
    have hr : em.roundedMantissa ≠ 0 := by omega
    by_cases hsmall : em.roundedMantissa < 2 ^ 53
    · exact ⟨0, (Nat.log2_eq_iff hr).mpr ⟨by omega, hsmall⟩, Nat.zero_le 1⟩
    · exact ⟨1, (Nat.log2_eq_iff hr).mpr ⟨by omega, by omega⟩, Nat.le_refl 1⟩
  obtain ⟨k', hk', hle⟩ := hcarry
  obtain ⟨hmantissa', hexponent'⟩ := shiftToTargetExponent_eq hk' (e := e + k) (by omega) .exact
  have hlog' := log2_div hk'
  rw [← hmantissa'] at hlog'
  generalize hsecond : shiftToTargetExponent Format.binary64 em.roundedMantissa (e + k) .exact =
    second at *
  obtain ⟨em', e'⟩ := second
  dsimp only at hexponent' hlog'
  have hne : em'.mantissa ≠ 0 := by
    intro hz
    rw [hz, Nat.log2_zero] at hlog'
    omega
  refine ⟨em'.mantissa, e', Nat.pos_of_ne_zero hne, ?_, hlog', by omega, by omega⟩
  unfold roundWithAccuracy
  rw [hfirst]
  dsimp only
  rw [hsecond]
  exact dif_neg hne

-- ---------------------------------------------------------------------------
-- Packing
-- ---------------------------------------------------------------------------

theorem toNat_exponentField (hlow : -1074 ≤ e) (hhigh : e ≤ 970) :
    (BitVec.ofNat 11 (e + 1075).toNat).toNat = (e + 1075).toNat := by
  rw [BitVec.toNat_ofNat, Nat.mod_eq_of_lt (by omega)]

theorem toNat_leadingBit (hm : m.log2 = 52) : (1#1 ++ BitVec.ofNat 52 m).toNat = m := by
  have hne : m ≠ 0 := by
    rintro rfl
    rw [Nat.log2_zero] at hm
    omega
  obtain ⟨hlow, hhigh⟩ := (Nat.log2_eq_iff hne).mp hm
  rw [BitVec.toNat_append, ← Nat.shiftLeft_add_eq_or_of_lt (BitVec.ofNat 52 m).isLt,
    BitVec.toNat_ofNat]
  simp only [BitVec.toNat_ofNat, Nat.shiftLeft_eq]
  omega

theorem biasedExponent_eq (e : Int) :
    (e + Format.binary64.exponentBias + Format.binary64.mantissaBitsWithoutImplicit).toNat =
      (e + 1075).toNat := by
  have hbias : (Format.binary64.exponentBias : Int) = 1023 := by decide
  have hbits : (Format.binary64.mantissaBitsWithoutImplicit : Int) = 52 := rfl
  rw [hbias, hbits]
  omega

theorem pack_full {h : 0 < m} (hm : m.log2 = 52) (hhigh : e ≤ 970) :
    UnpackedFloat.pack Format.binary64 (.finite s m e h) =
      packComponents Format.binary64 s (BitVec.ofNat 11 (e + 1075).toNat)
        (BitVec.ofNat 52 m) := by
  have hnormal : m.log2 + 1 = Format.binary64.mantissaBits := by rw [hm]; decide
  unfold UnpackedFloat.pack
  dsimp only
  rw [biasedExponent_eq, if_neg (by omega), if_pos hnormal]

/-- With an exponent that is neither the least nor the greatest the leading bit comes back. -/
theorem unpack_of_normal {spec : Format} {b : BitVec spec.numBits}
    (hones : unpackExponent b ≠ -BitVec.ofNat spec.exponentBits 1)
    (hzero : unpackExponent b ≠ BitVec.ofNat spec.exponentBits 0) :
    ∃ s', ∀ h, UnpackedFloat.unpack spec b = .finite s' (1#1 ++ unpackMantissa b).toNat
      ((unpackExponent b).toNat - (spec.exponentBias + spec.mantissaBitsWithoutImplicit)) h := by
  unfold UnpackedFloat.unpack
  dsimp only
  rw [if_neg hones, if_neg hzero]
  exact ⟨_, fun _ => rfl⟩

theorem unpack_pack_full {h : 0 < m} (hm : m.log2 = 52) (hlow : -1074 ≤ e) (hhigh : e ≤ 970) :
    ∃ s', (Float.Model.pack (.finite s m e h)).unpack = .finite s' m e h := by
  have hfield := toNat_exponentField hlow hhigh
  have hones : BitVec.ofNat 11 (e + 1075).toNat ≠ -1#11 := by
    intro hb
    rw [hb] at hfield
    have : (-1#11).toNat = 2047 := by decide
    omega
  have hzero : BitVec.ofNat 11 (e + 1075).toNat ≠ 0#11 := by
    intro hb
    rw [hb] at hfield
    have : (0#11).toNat = 0 := rfl
    omega
  have hbits : (Float.Model.pack (.finite s m e h)).toBits.toBitVec =
      UnpackedFloat.pack Format.binary64 (.finite s m e h) := rfl
  unfold Float.Model.unpack
  rw [hbits, pack_full hm hhigh]
  have hexponent : ((BitVec.ofNat 11 (e + 1075).toNat).toNat : Int) -
      (Format.binary64.exponentBias + (52 : Nat)) = e := by
    have hbias : (Format.binary64.exponentBias : Int) = 1023 := by decide
    rw [hfield, hbias]
    omega
  obtain ⟨s', hunpack⟩ := unpack_of_normal
    (b := packComponents Format.binary64 s (BitVec.ofNat 11 (e + 1075).toNat) (BitVec.ofNat 52 m))
    (by rwa [unpackExponent_packComponents]) (by rwa [unpackExponent_packComponents])
  rw [unpackExponent_packComponents, unpackMantissa_packComponents] at hunpack
  have hleading := toNat_leadingBit hm
  refine ⟨s', (hunpack (hleading.symm ▸ h)).trans ?_⟩
  rw [UnpackedFloat.finite.injEq]
  exact ⟨rfl, hleading, hexponent⟩

theorem isFinite_pack {h : 0 < m} (hm : m.log2 = 52) (hlow : -1074 ≤ e) (hhigh : e ≤ 970) :
    (Float.Model.pack (.finite s m e h)).isFinite = true := by
  obtain ⟨s', hunpack⟩ := unpack_pack_full hm hlow hhigh (h := h) (s := s)
  unfold Float.Model.isFinite
  rw [hunpack]
  rfl

-- ---------------------------------------------------------------------------
-- Counts as doubles
-- ---------------------------------------------------------------------------

theorem log2_shiftLeft (hn : n ≠ 0) (k : Nat) : (n <<< k).log2 = n.log2 + k := by
  obtain ⟨hlow, hhigh⟩ := (Nat.log2_eq_iff hn).mp rfl
  have hpos : 0 < 2 ^ k := Nat.two_pow_pos k
  rw [Nat.shiftLeft_eq]
  refine (Nat.log2_eq_iff (Nat.mul_ne_zero hn (Nat.ne_of_gt hpos))).mpr ⟨?_, ?_⟩
  · rw [Nat.pow_add]
    exact Nat.mul_le_mul_right _ hlow
  · rw [Nat.add_right_comm, Nat.pow_add]
    exact Nat.mul_lt_mul_of_pos_right hhigh hpos

/-- A count of 64 bits fills its bits as a double, and its exponent is moderate. -/
theorem unpack_ofNat (hpos : 0 < n) (hn : n < Nat.pow 2 64) :
    ∃ s m e h, (Float.Model.ofNat n).unpack = .finite s m e h ∧ m.log2 = 52 ∧
      -52 ≤ e ∧ e ≤ 12 := by
  have hlog : n.log2 < 64 := (Nat.log2_lt (Nat.ne_of_gt hpos)).mpr hn
  have htarget : Format.binary64.targetExponent (totalExponent n 0) = (n.log2 : Int) - 52 := by
    rw [targetExponent_eq (by omega)]
    omega
  have hshift : (0 - ((n.log2 : Int) - 52)).toNat = 52 - n.log2 := by omega
  have hbits : (n <<< (52 - n.log2)).log2 = 52 + (n.log2 - 52) := by
    rw [log2_shiftLeft (Nat.ne_of_gt hpos)]
    omega
  obtain ⟨m, e, h, hround, hm, hlow, hhigh⟩ :=
    roundWithAccuracy_full (s := .positive) (e := 0 - ((52 - n.log2 : Nat) : Int)) hbits
      (by omega) .exact
  have hpacked : Float.Model.ofNat n = Float.Model.pack (.finite .positive m e h) := by
    have hgt : compare (n : Int) 0 = .gt := Int.compare_eq_gt.mpr (by omega)
    unfold Float.Model.ofNat UnpackedFloat.ofNat UnpackedFloat.ofInt UnpackedFloat.normalize
    rw [hgt]
    dsimp only
    unfold UnpackedFloat.round
    rw [Int.toNat_natCast, htarget]
    unfold decreaseExponent
    dsimp only
    rw [hshift]
    exact congrArg _ hround
  obtain ⟨s, hunpack⟩ :=
    unpack_pack_full (s := .positive) (e := e) (h := h) hm (by omega) (by omega)
  rw [hpacked]
  exact ⟨s, m, e, h, hunpack, hm, by omega, by omega⟩

theorem log2_quotient (hm : m.log2 = 52) (hn : n.log2 = 52) :
    ∃ k, (m <<< 53 / n).log2 = 52 + k ∧ k ≤ 1 := by
  have hm0 : m ≠ 0 := by
    rintro rfl
    rw [Nat.log2_zero] at hm
    omega
  have hn0 : n ≠ 0 := by
    rintro rfl
    rw [Nat.log2_zero] at hn
    omega
  obtain ⟨hmlow, hmhigh⟩ := (Nat.log2_eq_iff hm0).mp hm
  obtain ⟨hnlow, hnhigh⟩ := (Nat.log2_eq_iff hn0).mp hn
  have hpos : 0 < n := Nat.pos_of_ne_zero hn0
  have hlow : 2 ^ 52 ≤ m <<< 53 / n := by
    rw [Nat.le_div_iff_mul_le hpos, Nat.shiftLeft_eq]
    omega
  have hhigh : m <<< 53 / n < 2 ^ 54 := by
    rw [Nat.div_lt_iff_lt_mul hpos, Nat.shiftLeft_eq]
    omega
  have hq : m <<< 53 / n ≠ 0 := by omega
  by_cases hsmall : m <<< 53 / n < 2 ^ 53
  · exact ⟨0, (Nat.log2_eq_iff hq).mpr ⟨hlow, hsmall⟩, Nat.zero_le 1⟩
  · exact ⟨1, (Nat.log2_eq_iff hq).mpr ⟨Nat.le_of_not_lt hsmall, hhigh⟩, Nat.le_refl 1⟩

theorem divCore_full (hm : m.log2 = 52) (hn : n.log2 = 52) (hlow : -64 ≤ e - f) :
    divCore Format.binary64 m e n f =
      (m <<< 53 / n, e - f - 53, accuracyOfFraction (m <<< 53 % n) n) := by
  have htarget : min (e - f)
      (Format.binary64.targetExponent (totalExponent m e - totalExponent n f)) = e - f - 53 := by
    rw [Format.targetExponent, totalExponent, totalExponent, mantissaBits_binary64,
      minExponent_binary64, hm, hn]
    omega
  have hshift : (e - f - (e - f - 53)).toNat = 53 := by omega
  unfold divCore
  rw [htarget]
  dsimp only
  rw [hshift]

theorem div_finite {spec : Format} {s' : Sign} {h : 0 < m} {h' : 0 < n} {q : Nat} {e' : Int}
    {accuracy : Accuracy} (hcore : divCore spec m e n f = (q, e', accuracy)) :
    UnpackedFloat.div spec (.finite s m e h) (.finite s' n f h') =
      roundWithAccuracy spec (s / s') q e' accuracy := by
  have hdiv : UnpackedFloat.div spec (.finite s m e h) (.finite s' n f h') =
      roundWithAccuracy spec (s / s') (divCore spec m e n f).1 (divCore spec m e n f).2.1
        (divCore spec m e n f).2.2 := rfl
  rw [hdiv, hcore]

/-- The quotient of two doubles that fill their bits and have moderate exponents is finite. -/
theorem isFinite_div {x y : Float.Model} {s' : Sign} {h : 0 < m} {h' : 0 < n}
    (hx : x.unpack = .finite s m e h) (hy : y.unpack = .finite s' n f h')
    (hm : m.log2 = 52) (hn : n.log2 = 52) (hlow : -64 ≤ e - f) (hhigh : e - f ≤ 64) :
    (x / y).isFinite = true := by
  obtain ⟨k, hk, hle⟩ := log2_quotient hm hn
  obtain ⟨m', e', h'', hround, hm', hlow', hhigh'⟩ :=
    roundWithAccuracy_full (s := s / s') (e := e - f - 53) hk (by omega)
      (accuracyOfFraction (m <<< 53 % n) n)
  have hquotient : x / y = Float.Model.pack (.finite (s / s') m' e' h'') := by
    have hdiv : x / y =
        Float.Model.pack (UnpackedFloat.div Format.binary64 x.unpack y.unpack) := rfl
    rw [hdiv, hx, hy, div_finite (divCore_full hm hn hlow)]
    exact congrArg _ hround
  rw [hquotient]
  exact isFinite_pack hm' (by omega) (by omega)

theorem isFinite_zero_div {y : Float.Model} {h : 0 < n} (hy : y.unpack = .finite s n f h) :
    (Float.Model.ofNat 0 / y).isFinite = true := by
  have hdiv : Float.Model.ofNat 0 / y =
      Float.Model.pack (UnpackedFloat.div Format.binary64 (.zero .positive) (.finite s n f h)) := by
    rw [← hy]
    rfl
  have hzero : UnpackedFloat.div Format.binary64 (.zero .positive) (.finite s n f h) =
      .zero (.positive / s) := rfl
  rw [hdiv, hzero]
  cases s <;> decide

namespace ScalingDetector

variable {ready healthy : Nat} {x : Float}

theorem isFinite_ratio (hr : ready < Nat.pow 2 64) (hh : healthy < Nat.pow 2 64)
    (hpos : 0 < healthy) (h : ratio ready healthy = some x) : x.isFinite = true := by
  obtain ⟨s, n, f, h', hhealthy, hn, hlow, hhigh⟩ := unpack_ofNat hpos hh
  have hx : x.isFinite = (Float.Model.ofNat ready / Float.Model.ofNat healthy).isFinite := by
    have hdiv : (ready.toUInt64.toFloat / healthy.toUInt64.toFloat).isFinite =
        (Float.Model.ofNat ready.toUInt64.toNat /
          Float.Model.ofNat healthy.toUInt64.toNat).isFinite := rfl
    have hready : ready.toUInt64.toNat = ready := UInt64.toNat_ofNat_of_lt hr
    have hhealthy : healthy.toUInt64.toNat = healthy := UInt64.toNat_ofNat_of_lt hh
    rw [ratio, if_neg (Nat.ne_of_gt hpos)] at h
    rw [← Option.some.inj h, hdiv, hready, hhealthy]
  rw [hx]
  rcases Nat.eq_zero_or_pos ready with rfl | hrpos
  · exact isFinite_zero_div hhealthy
  · obtain ⟨s', m, e, h'', hready, hm, hlow', hhigh'⟩ := unpack_ofNat hrpos hr
    exact isFinite_div hready hhealthy hm hn (by omega) (by omega)

theorem isFinite_ratio_zero (h : ratio ready 0 = some x) : x.isFinite = false := by
  rw [ratio, if_pos rfl] at h
  split at h
  · cases h
  · cases h
    decide

theorem ratio_of_observe {d d' : ScalingDetector} {ready healthy now : Nat}
    {signal : ScalingSignal} (h : d.observe ready healthy now = (d', some signal)) :
    ∃ x, ratio ready healthy = some x ∧ (signal = .up x ∨ signal = .down x) := by
  unfold observe at h
  split at h
  · cases h
  · cases hx : ratio ready healthy with
    | none =>
      rw [hx] at h
      cases h
    | some x =>
      rw [hx] at h
      refine ⟨x, rfl, ?_⟩
      dsimp only at h
      split at h
      · obtain ⟨-, hs⟩ := Option.ite_none_right_eq_some.mp (Prod.mk.inj h).2
        exact .inl (Option.some.inj hs).symm
      · split at h
        · obtain ⟨-, hs⟩ := Option.ite_none_right_eq_some.mp (Prod.mk.inj h).2
          exact .inr (Option.some.inj hs).symm
        · cases h

end ScalingDetector

/-- A ratio that is announced is that of the counts announced with it. -/
def Event.Measured : Event → Prop
  | .scaleUpRequested _ ratio ready healthy | .scaleDownRequested _ ratio ready healthy =>
    ScalingDetector.ratio ready healthy = some ratio
  | _ => True

end Crew
