import Mathlib
import Crew.Json.Value

/-!
# Equality of JSON values as values

`Json.same` is symmetric and transitive. It is not reflexive: what is no number does not equal
itself.
-/

namespace Crew

open Float.Model (UnpackedFloat)
open Float.Model.UnpackedFloat (Sign)

/-- What two doubles share if they are equal: a zero loses its sign. -/
def comparand : UnpackedFloat → Option UnpackedFloat
  | .notANumber => none
  | .zero _ => some (.zero .positive)
  | x => some x

theorem compare_sign_eq_iff (s t : Sign) : compare s t = .eq ↔ s = t := by
  cases s <;> cases t <;> simp [compare]

theorem beq_eq_true_iff (x y : UnpackedFloat) :
    x.beq y = true ↔ comparand x = comparand y ∧ comparand x ≠ none := by
  cases x with
  | infinity s =>
    cases y with
    | infinity t => simp [UnpackedFloat.beq, UnpackedFloat.compare, comparand, compare_sign_eq_iff]
    | _ => cases s <;> simp [UnpackedFloat.beq, UnpackedFloat.compare, comparand]
  | notANumber => simp [UnpackedFloat.beq, UnpackedFloat.compare, comparand]
  | zero s =>
    cases y with
    | infinity t | finite t => cases t <;> simp [UnpackedFloat.beq, UnpackedFloat.compare, comparand]
    | _ => simp [UnpackedFloat.beq, UnpackedFloat.compare, comparand]
  | finite s m e hm =>
    cases y with
    | infinity t | zero t =>
      cases s <;> cases t <;> simp [UnpackedFloat.beq, UnpackedFloat.compare, comparand]
    | notANumber => simp [UnpackedFloat.beq, UnpackedFloat.compare, comparand]
    | finite t n f hn =>
      cases s <;> cases t <;>
        simp [UnpackedFloat.beq, UnpackedFloat.compare, comparand, Ordering.then_eq_eq, and_comm]

theorem float_beq_iff (x y : Float) : (x == y) = true ↔
    comparand x.toModel.unpack = comparand y.toModel.unpack ∧
      comparand x.toModel.unpack ≠ none :=
  beq_eq_true_iff _ _

namespace Number

theorem same_symm {m n : Number} (h : m.same n = true) : n.same m = true := by
  cases m with
  | int m =>
    cases n with
    | int n =>
      obtain rfl : m = n := by simpa [same] using h
      exact h
    | real y => exact h
  | real x =>
    cases n with
    | int n => exact h
    | real y =>
      obtain ⟨he, hx⟩ := (float_beq_iff x y).mp h
      exact (float_beq_iff y x).mpr ⟨he.symm, he ▸ hx⟩

theorem same_trans {m n k : Number} (hm : m.same n = true) (hn : n.same k = true) :
    m.same k = true := by
  cases m with
  | int m =>
    cases n with
    | int n =>
      obtain rfl : m = n := by simpa [same] using hm
      exact hn
    | real y => cases hm
  | real x =>
    cases n with
    | int n => cases hm
    | real y =>
      cases k with
      | int k => cases hn
      | real z =>
        obtain ⟨hxy, hx⟩ := (float_beq_iff x y).mp hm
        obtain ⟨hyz, -⟩ := (float_beq_iff y z).mp hn
        exact (float_beq_iff x z).mpr ⟨hxy.trans hyz, hx⟩

end Number

namespace Json

mutual
theorem same_symm {a b : Json} (h : a.same b = true) : b.same a = true := by
  match a, b with
  | .null, .null => rfl
  | .bool x, .bool y =>
    obtain rfl : x = y := by simpa [same] using h
    exact h
  | .number m, .number n => exact Number.same_symm h
  | .string s, .string t =>
    obtain rfl : s = t := by simpa [same] using h
    exact h
  | .array xs, .array ys => exact sameItems_symm h
  | .object xs, .object ys => exact sameMembers_symm h
theorem sameItems_symm {xs ys : List Json} (h : sameItems xs ys = true) :
    sameItems ys xs = true := by
  match xs, ys with
  | [], [] => rfl
  | x :: xs, y :: ys =>
    rw [sameItems, Bool.and_eq_true] at h ⊢
    exact ⟨same_symm h.1, sameItems_symm h.2⟩
theorem sameMembers_symm {xs ys : List (String × Json)} (h : sameMembers xs ys = true) :
    sameMembers ys xs = true := by
  match xs, ys with
  | [], [] => rfl
  | (k, x) :: xs, (l, y) :: ys =>
    simp only [sameMembers, Bool.and_eq_true, beq_iff_eq] at h ⊢
    exact ⟨⟨h.1.1.symm, same_symm h.1.2⟩, sameMembers_symm h.2⟩
end

mutual
theorem same_trans {a b c : Json} (hab : a.same b = true) (hbc : b.same c = true) :
    a.same c = true := by
  match a, b, c with
  | .null, .null, .null => rfl
  | .bool x, .bool y, .bool z =>
    obtain rfl : x = y := by simpa [same] using hab
    exact hbc
  | .number m, .number n, .number k => exact Number.same_trans hab hbc
  | .string s, .string t, .string u =>
    obtain rfl : s = t := by simpa [same] using hab
    exact hbc
  | .array xs, .array ys, .array zs => exact sameItems_trans hab hbc
  | .object xs, .object ys, .object zs => exact sameMembers_trans hab hbc
theorem sameItems_trans {xs ys zs : List Json} (hxy : sameItems xs ys = true)
    (hyz : sameItems ys zs = true) : sameItems xs zs = true := by
  match xs, ys, zs with
  | [], [], [] => rfl
  | x :: xs, y :: ys, z :: zs =>
    rw [sameItems, Bool.and_eq_true] at hxy hyz ⊢
    exact ⟨same_trans hxy.1 hyz.1, sameItems_trans hxy.2 hyz.2⟩
theorem sameMembers_trans {xs ys zs : List (String × Json)} (hxy : sameMembers xs ys = true)
    (hyz : sameMembers ys zs = true) : sameMembers xs zs = true := by
  match xs, ys, zs with
  | [], [], [] => rfl
  | (k, x) :: xs, (l, y) :: ys, (m, z) :: zs =>
    simp only [sameMembers, Bool.and_eq_true, beq_iff_eq] at hxy hyz ⊢
    exact ⟨⟨hxy.1.1.trans hyz.1.1, same_trans hxy.1.2 hyz.1.2⟩, sameMembers_trans hxy.2 hyz.2⟩
end

end Json

end Crew
