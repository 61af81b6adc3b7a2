import Crew.Proofs.Json.Decimals
import Crew.Proofs.Json.Texts

/-!
# Distinct values have distinct texts

The compact text of a value with finite numbers stands for no other value, whatever follows it
(`distinct_of_isFinite`). Such values are one and the same if they are equal as values and their
zeros have the same signs (`eq_iff_same`).
-/

namespace Crew.Json

open Outline

def IsFinite (j : Json) : Prop := ∀ n ∈ j.numbers, n.IsFinite

instance (j : Json) : Decidable j.IsFinite := List.decidableBAll _ _

theorem isFinite_array {items : List Json} :
    (Json.array items).IsFinite ↔ ∀ j ∈ items, j.IsFinite := forall_mem_numbersOfItems

theorem isFinite_object {members : List (String × Json)} :
    (Json.object members).IsFinite ↔ ∀ m ∈ members, m.2.IsFinite := forall_mem_numbersOfMembers

-- ---------------------------------------------------------------------------
-- The first character
-- ---------------------------------------------------------------------------

inductive Kind where
  | null
  | bool
  | number
  | string
  | array
  | object
  deriving DecidableEq

def kind : Json → Kind
  | .null => .null
  | .bool _ => .bool
  | .number _ => .number
  | .string _ => .string
  | .array _ => .array
  | .object _ => .object

def Kind.ofChar? (c : Char) : Option Kind :=
  if c = 'n' then some .null
  else if c = 't' ∨ c = 'f' then some .bool
  else if c = '-' ∨ c.isDigit then some .number
  else if c = '"' then some .string
  else if c = '[' then some .array
  else if c = '\x7b' then some .object
  else none

theorem Kind.ofChar?_number {c : Char} (h : c = '-' ∨ c.isDigit = true) :
    ofChar? c = some .number := by
  have hne (d : Char) (hd : d.isDigit = false) (hm : d ≠ '-') : c ≠ d := by
    rintro rfl
    rcases h with h | h
    · exact hm h
    · rw [hd] at h
      cases h
  unfold ofChar?
  rw [if_neg (hne 'n' rfl (by decide)),
    if_neg (not_or.mpr ⟨hne 't' rfl (by decide), hne 'f' rfl (by decide)⟩), if_pos h]

theorem head_compact {j : Json} (hj : j.IsFinite) :
    ∃ c rest, j.compact.toList = c :: rest ∧ Kind.ofChar? c = some j.kind := by
  cases j with
  | null => exact ⟨'n', _, rfl, rfl⟩
  | bool b =>
    cases b with
    | false => exact ⟨'f', _, rfl, rfl⟩
    | true => exact ⟨'t', _, rfl, rfl⟩
  | number n =>
    obtain ⟨c, rest, hcs, hc⟩ := Number.head_render (hj n List.mem_cons_self)
    exact ⟨c, rest, hcs, Kind.ofChar?_number hc⟩
  | string s => exact ⟨'"', _, toList_quote s, rfl⟩
  | array items => exact ⟨'[', _, toList_compact_array items, rfl⟩
  | object members => exact ⟨'\x7b', _, toList_compact_object members, rfl⟩

variable {s t : List Char}

theorem kind_eq_of_append {a b : Json} (ha : a.IsFinite) (hb : b.IsFinite)
    (h : a.compact.toList ++ s = b.compact.toList ++ t) : a.kind = b.kind := by
  obtain ⟨c, rest, hc, hkind⟩ := head_compact ha
  obtain ⟨d, rest', hd, hkind'⟩ := head_compact hb
  rw [hc, hd] at h
  rw [(List.cons.inj h).1, hkind'] at hkind
  exact (Option.some.inj hkind).symm

-- ---------------------------------------------------------------------------
-- Strings and lists
-- ---------------------------------------------------------------------------

theorem quote_append_inj {k l : String} (h : (quote k).toList ++ s = (quote l).toList ++ t) :
    k = l ∧ s = t := by
  have hread : read 1 ((quote k).toList ++ s) = _ := read_quote k s
  rw [h, read_quote] at hread
  simp only [Prod.mk.injEq, Outline.string.injEq, Option.some.injEq] at hread
  exact ⟨hread.1.symm, hread.2.symm⟩

section

variable {α : Type} {text : α → List Char} {close : Char} {xs ys : List α}

def joined (text : α → List Char) : List α → List Char
  | [] => []
  | [x] => text x
  | x :: y :: rest => text x ++ ',' :: joined text (y :: rest)

theorem toList_compactItems (items : List Json) :
    (compactItems items).toList = joined (·.compact.toList) items := by
  match items with
  | [] => rfl
  | [x] => rfl
  | x :: y :: rest => rw [toList_compactItems_cons, toList_compactItems (y :: rest), joined]

def memberText (m : String × Json) : List Char := (quote m.1).toList ++ ':' :: m.2.compact.toList

theorem toList_compactMembers (members : List (String × Json)) :
    (compactMembers members).toList = joined memberText members := by
  match members with
  | [] => rfl
  | [(k, x)] => exact toList_compactMembers_single k x
  | (k, x) :: m :: rest =>
    rw [toList_compactMembers_cons, toList_compactMembers (m :: rest), joined, memberText,
      List.append_assoc, List.cons_append]

/-- What follows the first of several texts: the others, each after a comma, and then `tail`. -/
def followed (text : α → List Char) (tail : List Char) : List α → List Char
  | [] => tail
  | x :: xs => ',' :: (text x ++ followed text tail xs)

theorem joined_cons (text : α → List Char) (tail : List Char) (x : α) (xs : List α) :
    joined text (x :: xs) ++ tail = text x ++ followed text tail xs := by
  induction xs generalizing x with
  | nil => rfl
  | cons y ys ih => rw [joined, List.append_assoc, List.cons_append, ih y, followed]

variable (hends : ∀ s, EndsNumeral (close :: s)) (hclose : close ≠ ',')

include hends in
theorem endsNumeral_followed : EndsNumeral (followed text (close :: s) xs) := by
  cases xs with
  | nil => exact hends s
  | cons x xs => exact endsNumeral_comma _

/-- The elements of both lists are determined by their texts. -/
def Separate (text : α → List Char) (xs ys : List α) : Prop :=
  ∀ x ∈ xs, ∀ y ∈ ys, ∀ s t, EndsNumeral s → EndsNumeral t → text x ++ s = text y ++ t →
    x = y ∧ s = t

include hends hclose in
theorem followed_inj (hinj : Separate text xs ys)
    (h : followed text (close :: s) xs = followed text (close :: t) ys) : xs = ys ∧ s = t := by
  induction xs generalizing ys with
  | nil =>
    cases ys with
    | nil => exact ⟨rfl, (List.cons.inj h).2⟩
    | cons y ys => exact absurd (List.cons.inj h).1 hclose
  | cons x xs ih =>
    cases ys with
    | nil => exact absurd (List.cons.inj h).1.symm hclose
    | cons y ys =>
      obtain ⟨rfl, hrest⟩ := hinj x List.mem_cons_self y List.mem_cons_self _ _
        (endsNumeral_followed hends) (endsNumeral_followed hends) (List.cons.inj h).2
      obtain ⟨rfl, hst⟩ := ih (fun z hz w hw =>
        hinj z (List.mem_cons_of_mem x hz) w (List.mem_cons_of_mem x hw)) hrest
      exact ⟨rfl, hst⟩

include hends hclose in
/-- Up to the closing character a list is determined by its text if its elements are by theirs and
none of them begins like the end of the list. -/
theorem joined_append_inj (hinj : Separate text xs ys)
    (hopen : ∀ x, x ∈ xs ∨ x ∈ ys → ∀ tail, (text x ++ tail).head? ≠ some close)
    (h : joined text xs ++ close :: s = joined text ys ++ close :: t) : xs = ys ∧ s = t := by
  cases xs with
  | nil =>
    cases ys with
    | nil => exact ⟨rfl, (List.cons.inj h).2⟩
    | cons y ys =>
      rw [joined_cons] at h
      exact absurd (congrArg List.head? h).symm (hopen y (.inr List.mem_cons_self) _)
  | cons x xs =>
    rw [joined_cons] at h
    cases ys with
    | nil => exact absurd (congrArg List.head? h) (hopen x (.inl List.mem_cons_self) _)
    | cons y ys =>
      rw [joined_cons] at h
      obtain ⟨rfl, hrest⟩ := hinj x List.mem_cons_self y List.mem_cons_self _ _
        (endsNumeral_followed hends) (endsNumeral_followed hends) h
      obtain ⟨rfl, hst⟩ := followed_inj hends hclose (fun z hz w hw =>
        hinj z (List.mem_cons_of_mem x hz) w (List.mem_cons_of_mem x hw)) hrest
      exact ⟨rfl, hst⟩

end

-- ---------------------------------------------------------------------------
-- Values
-- ---------------------------------------------------------------------------

theorem head?_compact {j : Json} (hj : j.IsFinite) (tail : List Char) :
    (j.compact.toList ++ tail).head? ≠ some ']' := by
  obtain ⟨c, rest, hc, hkind⟩ := head_compact hj
  rw [hc]
  rintro ⟨⟩
  cases hkind

/-- The text of the value stands for no other value, whatever follows it. -/
def Distinct (a : Json) : Prop :=
  ∀ ⦃b : Json⦄ ⦃s t : List Char⦄, b.IsFinite → EndsNumeral s → EndsNumeral t →
    a.compact.toList ++ s = b.compact.toList ++ t → a = b ∧ s = t

theorem distinct_null : Distinct .null := by
  intro b s t hb _ _ h
  have hkind := kind_eq_of_append (a := .null) nofun hb h
  cases b with
  | null => exact ⟨rfl, List.append_cancel_left h⟩
  | _ => cases hkind

theorem distinct_bool (p : Bool) : Distinct (.bool p) := by
  intro b s t hb _ _ h
  have hkind := kind_eq_of_append (a := .bool p) nofun hb h
  cases b with
  | bool q =>
    have hfirst := congrArg List.head? h
    have hpq : p = q := by cases p <;> cases q <;> first | rfl | cases hfirst
    subst hpq
    exact ⟨rfl, List.append_cancel_left h⟩
  | _ => cases hkind

theorem distinct_number {m : Number} (hm : (Json.number m).IsFinite) : Distinct (.number m) := by
  intro b s t hb hs ht h
  have hkind := kind_eq_of_append hm hb h
  cases b with
  | number n =>
    obtain ⟨rfl, hst⟩ := Number.render_append_inj (hm m List.mem_cons_self)
      (hb n List.mem_cons_self) hs ht h
    exact ⟨rfl, hst⟩
  | _ => cases hkind

theorem distinct_string (k : String) : Distinct (.string k) := by
  intro b s t hb _ _ h
  have hkind := kind_eq_of_append (a := .string k) nofun hb h
  cases b with
  | string l =>
    obtain ⟨rfl, hst⟩ := quote_append_inj h
    exact ⟨rfl, hst⟩
  | _ => cases hkind

theorem distinct_array {xs : List Json} (hxs : (Json.array xs).IsFinite)
    (hdistinct : ∀ x ∈ xs, Distinct x) : Distinct (.array xs) := by
  intro b s t hb hs ht h
  have hkind := kind_eq_of_append hxs hb h
  cases b with
  | array ys =>
    have hx := isFinite_array.mp hxs
    have hy := isFinite_array.mp hb
    have hseparate : Separate (·.compact.toList) xs ys :=
      fun x hx y hmem s t hs ht h => hdistinct x hx (hy y hmem) hs ht h
    have hopen : ∀ x, x ∈ xs ∨ x ∈ ys → ∀ tail, (x.compact.toList ++ tail).head? ≠ some ']' :=
      fun x hmem => head?_compact (hmem.elim (hx x) (hy x))
    rw [toList_compact_array, toList_compact_array, toList_compactItems, toList_compactItems,
      List.cons_append, List.cons_append, List.append_assoc, List.append_assoc] at h
    obtain ⟨rfl, hst⟩ :=
      joined_append_inj endsNumeral_bracket (by decide) hseparate hopen (List.cons.inj h).2
    exact ⟨rfl, hst⟩
  | _ => cases hkind

theorem distinct_object {xs : List (String × Json)} (hxs : (Json.object xs).IsFinite)
    (hdistinct : ∀ m ∈ xs, Distinct m.2) : Distinct (.object xs) := by
  intro b s t hb hs ht h
  have hkind := kind_eq_of_append hxs hb h
  cases b with
  | object ys =>
    have hy := isFinite_object.mp hb
    have hseparate : Separate memberText xs ys := by
      intro m hm n hn s t hs ht h
      rw [memberText, memberText, List.append_assoc, List.append_assoc] at h
      obtain ⟨hkey, hrest⟩ := quote_append_inj h
      obtain ⟨hvalue, hst⟩ := hdistinct m hm (hy n hn) hs ht (List.cons.inj hrest).2
      exact ⟨Prod.ext hkey hvalue, hst⟩
    have hopen : ∀ m, m ∈ xs ∨ m ∈ ys → ∀ tail, (memberText m ++ tail).head? ≠ some '\x7d' := by
      intro m _ tail
      rw [memberText, toList_quote]
      nofun
    rw [toList_compact_object, toList_compact_object, toList_compactMembers,
      toList_compactMembers, List.cons_append, List.cons_append, List.append_assoc,
      List.append_assoc] at h
    obtain ⟨rfl, hst⟩ :=
      joined_append_inj endsNumeral_brace (by decide) hseparate hopen (List.cons.inj h).2
    exact ⟨rfl, hst⟩
  | _ => cases hkind

mutual
theorem distinct_of_isFinite {a : Json} (ha : a.IsFinite) : Distinct a := by
  match a with
  | .null => exact distinct_null
  | .bool p => exact distinct_bool p
  | .number m => exact distinct_number ha
  | .string k => exact distinct_string k
  | .array xs => exact distinct_array ha (distinct_items ha)
  | .object xs => exact distinct_object ha (distinct_members ha)
theorem distinct_items {xs : List Json} (hxs : ∀ n ∈ numbersOfItems xs, n.IsFinite) :
    ∀ x ∈ xs, Distinct x := by
  match xs with
  | [] => nofun
  | x :: xs =>
    obtain ⟨hx, hxs⟩ := List.forall_mem_append.mp hxs
    exact List.forall_mem_cons.mpr ⟨distinct_of_isFinite hx, distinct_items hxs⟩
theorem distinct_members {xs : List (String × Json)}
    (hxs : ∀ n ∈ numbersOfMembers xs, n.IsFinite) : ∀ m ∈ xs, Distinct m.2 := by
  match xs with
  | [] => nofun
  | (k, x) :: xs =>
    obtain ⟨hx, hxs⟩ := List.forall_mem_append.mp hxs
    exact List.forall_mem_cons.mpr ⟨distinct_of_isFinite hx, distinct_members hxs⟩
end

theorem compact_injective {a b : Json} (ha : a.IsFinite) (hb : b.IsFinite)
    (h : a.compact = b.compact) : a = b :=
  (distinct_of_isFinite ha hb endsNumeral_nil endsNumeral_nil (by rw [h])).1

-- ---------------------------------------------------------------------------
-- Equality as values
-- ---------------------------------------------------------------------------

/-- Which of the numbers within a value are zeros with a minus. -/
def minusZeros (j : Json) : List Bool := j.numbers.map (·.isMinusZero)

mutual
theorem same_refl {a : Json} (ha : a.IsFinite) : a.same a = true := by
  match a with
  | .null => rfl
  | .bool p => exact beq_self_eq_true p
  | .number n => exact Number.same_refl (ha n List.mem_cons_self)
  | .string s => exact beq_self_eq_true s
  | .array xs => exact sameItems_refl ha
  | .object xs => exact sameMembers_refl ha
theorem sameItems_refl {xs : List Json} (hxs : ∀ n ∈ numbersOfItems xs, n.IsFinite) :
    sameItems xs xs = true := by
  match xs with
  | [] => rfl
  | x :: xs =>
    obtain ⟨hx, hxs⟩ := List.forall_mem_append.mp hxs
    rw [sameItems, same_refl hx, sameItems_refl hxs]
    rfl
theorem sameMembers_refl {xs : List (String × Json)}
    (hxs : ∀ n ∈ numbersOfMembers xs, n.IsFinite) : sameMembers xs xs = true := by
  match xs with
  | [] => rfl
  | (k, x) :: xs =>
    obtain ⟨hx, hxs⟩ := List.forall_mem_append.mp hxs
    rw [sameMembers, same_refl hx, sameMembers_refl hxs, beq_self_eq_true]
    rfl
end

/-- Values that are equal as such have their numbers at the same places. -/
def Matches {α : Type} (a b : α) (m n : List Number) : Prop :=
  m.length = n.length ∧ (m.map (·.isMinusZero) = n.map (·.isMinusZero) → a = b)

theorem Matches.append {α β : Type} {a b : α} {as bs : β} {m n ms ns : List Number}
    (h : Matches a b m n) (hs : Matches as bs ms ns) :
    Matches (a, as) (b, bs) (m ++ ms) (n ++ ns) := by
  obtain ⟨hlength, heq⟩ := h
  obtain ⟨hlengths, heqs⟩ := hs
  refine ⟨by rw [List.length_append, List.length_append, hlength, hlengths], fun hz => ?_⟩
  rw [List.map_append, List.map_append] at hz
  obtain ⟨hz, hzs⟩ := List.append_inj hz (by rw [List.length_map, List.length_map, hlength])
  rw [heq hz, heqs hzs]

mutual
theorem matches_of_same {a b : Json} (ha : a.IsFinite) (hb : b.IsFinite)
    (h : a.same b = true) : Matches a b a.numbers b.numbers := by
  match a, b with
  | .null, .null => exact ⟨rfl, fun _ => rfl⟩
  | .bool p, .bool q =>
    obtain rfl : p = q := by simpa [same] using h
    exact ⟨rfl, fun _ => rfl⟩
  | .number m, .number n =>
    refine ⟨rfl, fun hz => congrArg Json.number ?_⟩
    exact (Number.eq_iff_same (ha m List.mem_cons_self) (hb n List.mem_cons_self)).mpr
      ⟨h, (List.cons.inj hz).1⟩
  | .string s, .string t =>
    obtain rfl : s = t := by simpa [same] using h
    exact ⟨rfl, fun _ => rfl⟩
  | .array xs, .array ys =>
    obtain ⟨hlength, heq⟩ := matches_of_sameItems ha hb h
    exact ⟨hlength, fun hz => congrArg Json.array (heq hz)⟩
  | .object xs, .object ys =>
    obtain ⟨hlength, heq⟩ := matches_of_sameMembers ha hb h
    exact ⟨hlength, fun hz => congrArg Json.object (heq hz)⟩
theorem matches_of_sameItems {xs ys : List Json} (hxs : ∀ n ∈ numbersOfItems xs, n.IsFinite)
    (hys : ∀ n ∈ numbersOfItems ys, n.IsFinite) (h : sameItems xs ys = true) :
    Matches xs ys (numbersOfItems xs) (numbersOfItems ys) := by
  match xs, ys with
  | [], [] => exact ⟨rfl, fun _ => rfl⟩
  | x :: xs, y :: ys =>
    obtain ⟨hx, hxs⟩ := List.forall_mem_append.mp hxs
    obtain ⟨hy, hys⟩ := List.forall_mem_append.mp hys
    rw [sameItems, Bool.and_eq_true] at h
    obtain ⟨hlength, heq⟩ := (matches_of_same hx hy h.1).append (matches_of_sameItems hxs hys h.2)
    refine ⟨hlength, fun hz => ?_⟩
    obtain ⟨rfl, rfl⟩ := Prod.mk.inj (heq hz)
    rfl
theorem matches_of_sameMembers {xs ys : List (String × Json)}
    (hxs : ∀ n ∈ numbersOfMembers xs, n.IsFinite) (hys : ∀ n ∈ numbersOfMembers ys, n.IsFinite)
    (h : sameMembers xs ys = true) :
    Matches xs ys (numbersOfMembers xs) (numbersOfMembers ys) := by
  match xs, ys with
  | [], [] => exact ⟨rfl, fun _ => rfl⟩
  | (k, x) :: xs, (l, y) :: ys =>
    obtain ⟨hx, hxs⟩ := List.forall_mem_append.mp hxs
    obtain ⟨hy, hys⟩ := List.forall_mem_append.mp hys
    simp only [sameMembers, Bool.and_eq_true, beq_iff_eq] at h
    obtain ⟨⟨hkey, h⟩, hs⟩ := h
    obtain ⟨hlength, heq⟩ := (matches_of_same hx hy h).append (matches_of_sameMembers hxs hys hs)
    refine ⟨hlength, fun hz => ?_⟩
    obtain ⟨rfl, rfl⟩ := Prod.mk.inj (heq hz)
    rw [hkey]
end

/-- Equality as values overlooks nothing but the signs of zeros. -/
theorem eq_iff_same {a b : Json} (ha : a.IsFinite) (hb : b.IsFinite) :
    a = b ↔ a.same b = true ∧ a.minusZeros = b.minusZeros := by
  constructor
  · rintro rfl
    exact ⟨same_refl ha, rfl⟩
  · rintro ⟨h, hz⟩
    exact (matches_of_same ha hb h).2 hz

end Crew.Json
