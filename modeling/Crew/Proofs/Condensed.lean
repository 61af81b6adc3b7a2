import Mathlib.Data.List.Basic
import Mathlib.Data.List.Induction

/-!
# Lists without their repetitions
-/

namespace Crew

variable {α : Type} [BEq α] {xs once : List α}

/-- The members of a list once each, in the order in which they first come. -/
structure Condensed (xs once : List α) : Prop where
  mem : ∀ x, x ∈ once ↔ x ∈ xs
  ordered : once.Pairwise fun a b => xs.idxOf a < xs.idxOf b

theorem Condensed.nodup (h : Condensed xs once) : once.Nodup :=
  h.ordered.imp fun hlt he => absurd (he ▸ hlt) (Nat.lt_irrefl _)

variable [LawfulBEq α]

theorem eraseDups_concat (xs : List α) (x : α) : (xs ++ [x]).eraseDups =
    if x ∈ xs then xs.eraseDups else xs.eraseDups ++ [x] := by
  rw [List.eraseDups_append]
  split
  next hm => simp [List.removeAll, hm]
  next hm => simp [List.removeAll, hm, List.eraseDups_cons]

theorem eraseDups_of_nodup (h : xs.Nodup) : xs.eraseDups = xs := by
  induction xs with
  | nil => rfl
  | cons x xs ih =>
    obtain ⟨hx, hxs⟩ := List.nodup_cons.mp h
    have hkept : xs.filter (fun y => !(y == x)) = xs := by
      refine List.filter_eq_self.mpr fun y hy => ?_
      rw [beq_false_of_ne (ne_of_mem_of_not_mem hy hx)]
      rfl
    rw [List.eraseDups_cons, hkept, ih hxs]

theorem Condensed.eraseDups (xs : List α) : Condensed xs xs.eraseDups := by
  refine ⟨fun x => List.mem_eraseDups, ?_⟩
  induction xs using List.reverseRecOn with
  | nil => exact List.Pairwise.nil
  | append_singleton xs x ih =>
    have hlift : xs.eraseDups.Pairwise fun a b =>
        (xs ++ [x]).idxOf a < (xs ++ [x]).idxOf b := by
      refine ih.imp_of_mem fun {a b} ha hb hlt => ?_
      rwa [List.idxOf_append_of_mem (List.mem_eraseDups.mp ha),
        List.idxOf_append_of_mem (List.mem_eraseDups.mp hb)]
    rw [eraseDups_concat]
    split
    · exact hlift
    next hm =>
      refine List.pairwise_append.mpr ⟨hlift, List.pairwise_singleton _ _, fun a ha b hb => ?_⟩
      have ha := List.mem_eraseDups.mp ha
      rw [List.mem_singleton.mp hb, List.idxOf_append_of_mem ha, List.idxOf_append_of_notMem hm]
      exact Nat.lt_add_right _ (List.idxOf_lt_length_of_mem ha)

theorem find?_eraseDups (p : α → Bool) (xs : List α) : xs.eraseDups.find? p = xs.find? p := by
  induction xs using List.reverseRecOn with
  | nil => rfl
  | append_singleton xs x ih =>
    rw [eraseDups_concat, List.find?_append]
    split
    next hm =>
      rw [ih]
      cases hf : xs.find? p with
      | some found => rfl
      | none => simp [List.find?_eq_none.mp hf x hm]
    next hm => rw [List.find?_append, ih]

end Crew
