import Crew.Proofs.Decimal.Shortest
import Crew.Proofs.Json.Same

/-!
# The bits of a double

A double is its sign and its rung, which is the rest of its bits (`eq_of_rung_eq`). Equality of
finite doubles as numbers overlooks the sign of a zero and nothing else (`eq_iff_beq`).
-/

namespace Crew

open Float.Model (Format UnpackedFloat)
open Float.Model.UnpackedFloat
open Decimal.Magnitude (rung ofRung rung_mod rung_div)

theorem eq_of_toBits_eq {x y : Float} (h : x.toBits = y.toBits) : x = y := by
  obtain ⟨⟨bits, _⟩⟩ := x
  obtain ⟨⟨bits', _⟩⟩ := y
  obtain rfl : bits = bits' := h
  rfl

/-- The sign of a double, also of a zero. -/
def isMinus (x : Float) : Bool := x.toBits.toNat / Nat.pow 2 63 = 1

/-- The sign and the rest of the bits are all there is to a double. -/
theorem eq_of_rung_eq {x y : Float} (hg : rung x.toBits = rung y.toBits)
    (hs : isMinus x = isMinus y) : x = y := by
  have hpow : Nat.pow 2 63 = 9223372036854775808 := rfl
  have hx := x.toBits.toNat_lt
  have hy := y.toBits.toNat_lt
  rw [isMinus, isMinus, decide_eq_decide, hpow] at hs
  rw [rung, rung, hpow] at hg
  exact eq_of_toBits_eq (UInt64.toNat_inj.mp (by omega))

-- ---------------------------------------------------------------------------
-- The fields of the bits
-- ---------------------------------------------------------------------------

theorem toNat_unpackMantissa (x : Float) :
    (@unpackMantissa Format.binary64 x.toBits.toBitVec).toNat = rung x.toBits % Nat.pow 2 52 := by
  rw [rung_mod]
  simp [unpackMantissa]

theorem toNat_unpackExponent (x : Float) :
    (@unpackExponent Format.binary64 x.toBits.toBitVec).toNat = rung x.toBits / Nat.pow 2 52 := by
  rw [rung_div]
  simp [unpackExponent, Nat.shiftRight_eq_div_pow]

theorem ofBitVec_unpackSign (x : Float) :
    Sign.ofBitVec (@unpackSign Format.binary64 x.toBits.toBitVec) =
      if isMinus x then .negative else .positive := by
  have hlt := x.toBits.toNat_lt
  have hpow : Nat.pow 2 63 = 9223372036854775808 := rfl
  have hs : (@unpackSign Format.binary64 x.toBits.toBitVec).toNat =
      x.toBits.toNat / 9223372036854775808 % 2 := by
    simp [unpackSign, Nat.shiftRight_eq_div_pow]
  have hzero : @unpackSign Format.binary64 x.toBits.toBitVec = 0#1 ↔
      ¬ x.toBits.toNat / Nat.pow 2 63 = 1 := by
    rw [← BitVec.toNat_inj, hs, hpow, BitVec.toNat_ofNat]
    omega
  unfold Sign.ofBitVec isMinus
  simp only [hzero, decide_eq_true_eq, ite_not]

theorem toNat_leading (v : BitVec 52) : (1#1 ++ v).toNat = Nat.pow 2 52 + v.toNat := by
  rw [BitVec.toNat_append, ← Nat.shiftLeft_add_eq_or_of_lt v.isLt]
  rfl

theorem finite_congr {s : Sign} {m n : Nat} {e f : Int} {h : 0 < m} (hm : m = n) (he : e = f) :
    ∃ h', UnpackedFloat.finite s m e h = .finite s n f h' := by
  subst hm he
  exact ⟨h, rfl⟩

/-- A finite double is a zero, or its sign with the magnitude of its rung. -/
theorem unpack_of_isFinite {x : Float} (hx : x.isFinite = true) :
    (rung x.toBits = 0 ∧ ∃ s, x.toModel.unpack = .zero s) ∨
      ∃ h, x.toModel.unpack = .finite (if isMinus x then .negative else .positive)
        (ofRung (rung x.toBits)).mantissa (ofRung (rung x.toBits)).exponent h := by
  have hunpack : x.toModel.unpack = UnpackedFloat.unpack Format.binary64 x.toBits.toBitVec := rfl
  have hfinite : (UnpackedFloat.unpack Format.binary64 x.toBits.toBitVec).isFinite = true := hx
  have hm := toNat_unpackMantissa x
  have he := toNat_unpackExponent x
  have hbias : (Format.binary64.exponentBias : Int) = 1023 := rfl
  rw [hunpack, ← ofBitVec_unpackSign]
  unfold UnpackedFloat.unpack at hfinite ⊢
  dsimp only at hfinite ⊢
  unfold ofRung
  dsimp only
  split at hfinite
  · split at hfinite <;> cases hfinite
  next hones =>
    rw [if_neg hones]
    split
    next hzero =>
      have hfield : rung x.toBits / Nat.pow 2 52 = 0 := he.symm.trans (congrArg BitVec.toNat hzero)
      split
      next hnone =>
        have hfraction : rung x.toBits % Nat.pow 2 52 = 0 :=
          hm.symm.trans (congrArg BitVec.toNat hnone)
        refine .inl ⟨?_, _, rfl⟩
        rw [← Nat.div_add_mod (rung x.toBits) (Nat.pow 2 52), hfield, hfraction]
      next hsome =>
        refine .inr (finite_congr hm ?_)
        rw [he, hfield, hbias]
        rfl
    next hnormal =>
      have hfield : rung x.toBits / Nat.pow 2 52 ≠ 0 := fun h0 =>
        hnormal (BitVec.eq_of_toNat_eq (he.trans h0))
      refine .inr (finite_congr ?_ ?_)
      · rw [if_neg hfield, toNat_leading, hm]
      · rw [if_neg hfield, he, hbias]
        rfl

theorem ofRung_injective {m n : Nat} (hm : (ofRung m).mantissa = (ofRung n).mantissa)
    (he : (ofRung m).exponent = (ofRung n).exponent) : m = n := by
  have hpow : Nat.pow 2 52 = 4503599627370496 := rfl
  have hmodm := Nat.mod_lt m (show 0 < Nat.pow 2 52 by decide)
  have hmodn := Nat.mod_lt n (show 0 < Nat.pow 2 52 by decide)
  unfold ofRung at hm he
  dsimp only at hm he
  rw [hpow] at hm he hmodm hmodn
  -- a mantissa below the leading bit is that of the first field, and so is its exponent
  by_cases hx : m / 4503599627370496 = 0 <;> by_cases hy : n / 4503599627370496 = 0
  · rw [if_pos hx, if_pos hy] at hm
    dsimp only at hm
    omega
  · rw [if_pos hx, if_neg hy] at hm
    dsimp only at hm
    omega
  · rw [if_neg hx, if_pos hy] at hm
    dsimp only at hm
    omega
  · rw [if_neg hx, if_neg hy] at hm he
    dsimp only at hm he
    omega

theorem rung_ne_zero {r : Nat} (h : 0 < (ofRung r).mantissa) : r ≠ 0 := by
  rintro rfl
  exact absurd h (by decide)

/-- Finite doubles are equal as numbers if they have one rung and, but for zeros, one sign. -/
theorem float_beq_iff_rung {x y : Float} (hx : x.isFinite = true) (hy : y.isFinite = true) :
    (x == y) = true ↔
      rung x.toBits = rung y.toBits ∧ (rung x.toBits = 0 ∨ isMinus x = isMinus y) := by
  rw [float_beq_iff]
  rcases unpack_of_isFinite hx with ⟨hx0, s, hx⟩ | ⟨hmx, hx⟩ <;>
    rcases unpack_of_isFinite hy with ⟨hy0, t, hy⟩ | ⟨hmy, hy⟩ <;> rw [hx, hy]
  · simp [comparand, hx0, hy0]
  · have hne := rung_ne_zero hmy
    simp [comparand, hx0, hne.symm]
  · have hne := rung_ne_zero hmx
    simp [comparand, hy0, hne]
  · have hne := rung_ne_zero hmx
    have hsigns : (if isMinus x then Sign.negative else .positive) =
        (if isMinus y then .negative else .positive) ↔ isMinus x = isMinus y := by
      cases isMinus x <;> cases isMinus y <;> simp
    simp only [comparand, Option.some.injEq, UnpackedFloat.finite.injEq, hsigns, ne_eq,
      reduceCtorEq, not_false_eq_true, and_true, hne, false_or]
    constructor
    · rintro ⟨hs, hm, he⟩
      exact ⟨ofRung_injective hm he, hs⟩
    · rintro ⟨hr, hs⟩
      exact ⟨hs, by rw [hr], by rw [hr]⟩

/-- The double is a zero with a minus. -/
def isMinusZero (x : Float) : Bool := isMinus x && rung x.toBits = 0

/-- Equality as numbers overlooks nothing but the sign of zeros. -/
theorem eq_iff_beq {x y : Float} (hx : x.isFinite = true) (hy : y.isFinite = true) :
    x = y ↔ (x == y) = true ∧ isMinusZero x = isMinusZero y := by
  rw [float_beq_iff_rung hx hy]
  constructor
  · rintro rfl
    exact ⟨⟨rfl, .inr rfl⟩, rfl⟩
  · rintro ⟨⟨hr, hs⟩, hz⟩
    refine eq_of_rung_eq hr ?_
    rcases hs with h0 | hs
    · simpa [isMinusZero, ← hr, h0] using hz
    · exact hs

-- ---------------------------------------------------------------------------
-- Numbers
-- ---------------------------------------------------------------------------

namespace Number

def IsFinite : Number → Prop
  | .int _ => True
  | .real x => x.isFinite = true

instance : (n : Number) → Decidable n.IsFinite
  | .int _ => inferInstanceAs (Decidable True)
  | .real x => inferInstanceAs (Decidable (x.isFinite = true))

def isMinusZero : Number → Bool
  | .int _ => false
  | .real x => Crew.isMinusZero x

theorem eq_iff_same {m n : Number} (hm : m.IsFinite) (hn : n.IsFinite) :
    m = n ↔ m.same n = true ∧ m.isMinusZero = n.isMinusZero := by
  cases m with
  | int m =>
    cases n with
    | int n => simp [same, isMinusZero]
    | real y => simp [same]
  | real x =>
    cases n with
    | int n => simp [same]
    | real y =>
      rw [real.injEq]
      exact eq_iff_beq hm hn

theorem same_refl {n : Number} (hn : n.IsFinite) : n.same n = true :=
  ((eq_iff_same hn hn).mp rfl).1

end Number

end Crew
