import Crew.Proofs.Json.Numbers
import Crew.Proofs.Json.Strings

/-!
# Texts are read as they are written

The outline of a value's compact text is the outline of the value (`Outline.ofText_compact`), for
every value whose numbers last. Strings, keys and the nesting of containers are kept whatever they
are.
-/

namespace Crew.Json

mutual
def numbers : Json → List Number
  | .number n => [n]
  | .array items => numbersOfItems items
  | .object members => numbersOfMembers members
  | _ => []
def numbersOfItems : List Json → List Number
  | [] => []
  | x :: xs => numbers x ++ numbersOfItems xs
def numbersOfMembers : List (String × Json) → List Number
  | [] => []
  | (_, x) :: xs => numbers x ++ numbersOfMembers xs
end

theorem forall_mem_numbersOfItems {p : Number → Prop} {items : List Json} :
    (∀ n ∈ numbersOfItems items, p n) ↔ ∀ j ∈ items, ∀ n ∈ j.numbers, p n := by
  induction items with
  | nil => simp [numbersOfItems]
  | cons x xs ih => rw [numbersOfItems, List.forall_mem_append, List.forall_mem_cons, ih]

theorem forall_mem_numbersOfMembers {p : Number → Prop} {members : List (String × Json)} :
    (∀ n ∈ numbersOfMembers members, p n) ↔ ∀ m ∈ members, ∀ n ∈ m.2.numbers, p n := by
  induction members with
  | nil => simp [numbersOfMembers]
  | cons m ms ih => rw [numbersOfMembers, List.forall_mem_append, List.forall_mem_cons, ih]

-- ---------------------------------------------------------------------------
-- The characters of a text
-- ---------------------------------------------------------------------------

theorem toList_quote (s : String) :
    (quote s).toList = '"' :: (s.toList.flatMap escapeChar ++ ['"']) := by
  simp only [quote, String.toList_append, String.toList_ofList]
  rfl

theorem toList_compact_array (items : List Json) :
    (compact (.array items)).toList = '[' :: ((compactItems items).toList ++ [']']) := by
  simp only [compact, String.toList_append]
  rfl

theorem toList_compact_object (members : List (String × Json)) :
    (compact (.object members)).toList =
      '\x7b' :: ((compactMembers members).toList ++ ['\x7d']) := by
  simp only [compact, String.toList_append]
  rfl

theorem toList_compactItems_cons (x y : Json) (rest : List Json) :
    (compactItems (x :: y :: rest)).toList =
      x.compact.toList ++ ',' :: (compactItems (y :: rest)).toList := by
  simp only [compactItems, String.toList_append, List.append_assoc]
  rfl

theorem toList_compactMembers_single (k : String) (x : Json) :
    (compactMembers [(k, x)]).toList = (quote k).toList ++ ':' :: x.compact.toList := by
  simp only [compactMembers, String.toList_append, List.append_assoc]
  rfl

theorem toList_compactMembers_cons (k : String) (x : Json) (m : String × Json)
    (rest : List (String × Json)) :
    (compactMembers ((k, x) :: m :: rest)).toList =
      (quote k).toList ++ ':' :: (x.compact.toList ++ ',' :: (compactMembers (m :: rest)).toList) := by
  simp only [compactMembers, String.toList_append, List.append_assoc]
  rfl

/-- What the text of a value begins with is no blank and closes nothing. -/
def Opens (cs : List Char) : Prop :=
  ∃ c rest, cs = c :: rest ∧ Outline.isSpace c = false ∧ c ≠ ']'

theorem opens_cons {c : Char} (hs : Outline.isSpace c = false) (hb : c ≠ ']') (rest : List Char) :
    Opens (c :: rest) := ⟨c, rest, rfl, hs, hb⟩

theorem opens_compact (j : Json) (hn : ∀ n ∈ j.numbers, n.Lasts) : Opens j.compact.toList := by
  cases j with
  | null => exact opens_cons rfl (by decide) _
  | bool b => cases b <;> exact opens_cons rfl (by decide) _
  | number n =>
    obtain ⟨c, rest, hcs, hc⟩ := (hn n List.mem_cons_self).head_render
    rw [compact, hcs]
    rcases hc with rfl | hc
    · exact opens_cons rfl (by decide) rest
    · refine opens_cons (Outline.not_isSpace_of_isDigit hc) (fun h => ?_) rest
      rw [h] at hc
      exact absurd hc (by decide)
  | string s =>
    rw [compact, toList_quote]
    exact opens_cons rfl (by decide) _
  | array items =>
    rw [toList_compact_array]
    exact opens_cons rfl (by decide) _
  | object members =>
    rw [toList_compact_object]
    exact opens_cons rfl (by decide) _

namespace Outline

variable {fuel : Nat} {cs tail : List Char}

theorem skipSpaces_cons {c : Char} (h : isSpace c = false) (rest : List Char) :
    skipSpaces (c :: rest) = c :: rest :=
  List.dropWhile_cons_of_neg (by simp [h])

-- ---------------------------------------------------------------------------
-- What is read of each kind of value
-- ---------------------------------------------------------------------------

theorem toList_quote_append (k : String) (rest : List Char) :
    (quote k).toList ++ rest = '"' :: (k.toList.flatMap escapeChar ++ '"' :: rest) := by
  rw [toList_quote, List.cons_append, List.append_assoc]
  rfl

theorem readString_quote (s : String) (rest : List Char) :
    readString ((s.toList.flatMap escapeChar ++ '"' :: rest).length + 1) [] true
      (s.toList.flatMap escapeChar ++ '"' :: rest) = .ok (some s, rest) := by
  have hlength : s.toList.length < (s.toList.flatMap escapeChar ++ '"' :: rest).length + 1 := by
    have := length_le_flatMap_escapeChar s.toList
    rw [List.length_append]
    omega
  rw [readString_flatMap _ _ hlength, List.reverse_nil, List.nil_append, String.ofList_toList]

theorem read_quote (s : String) (tail : List Char) :
    read (fuel + 1) ((quote s).toList ++ tail) = (.string (some s), some tail) := by
  rw [toList_quote_append]
  unfold read
  rw [skipSpaces_cons rfl]
  dsimp only
  rw [if_neg (by decide), if_neg (by decide), if_neg (by decide), if_pos rfl, readString_quote]

theorem read_array (h : Opens cs) :
    read (fuel + 1) ('[' :: cs) =
      (.array (readItems fuel cs).1 (readItems fuel cs).2.1, (readItems fuel cs).2.2) := by
  obtain ⟨c, rest, rfl, hs, hb⟩ := h
  unfold read
  rw [skipSpaces_cons rfl]
  dsimp only
  rw [if_neg (by decide), if_neg (by decide), if_neg (by decide), if_neg (by decide), if_pos rfl,
    skipSpaces_cons hs]
  dsimp only
  rw [if_neg hb]

theorem read_object (rest : List Char) :
    read (fuel + 1) ('\x7b' :: '"' :: rest) =
      (.object (readMembers fuel ('"' :: rest)).1 (readMembers fuel ('"' :: rest)).2.1,
        (readMembers fuel ('"' :: rest)).2.2) := by
  unfold read
  rw [skipSpaces_cons rfl]
  dsimp only
  rw [if_neg (by decide), if_neg (by decide), if_neg (by decide), if_neg (by decide),
    if_neg (by decide), if_pos rfl, skipSpaces_cons rfl]
  dsimp only
  rw [if_neg (by decide)]

theorem readItems_last {item : Outline} (h : read fuel cs = (item, some (']' :: tail))) :
    readItems (fuel + 1) cs = ([item], none, some tail) := by
  unfold readItems
  rw [h]
  rfl

theorem readItems_comma {item : Outline} {items : List Outline} {stop : Option Break}
    {after : Option (List Char)} (h : read fuel cs = (item, some (',' :: tail)))
    (hrest : readItems fuel tail = (items, stop, after)) :
    readItems (fuel + 1) cs = (item :: items, stop, after) := by
  unfold readItems
  rw [h]
  dsimp only
  rw [skipSpaces_cons rfl]
  dsimp only
  rw [if_neg (by decide), if_pos rfl, hrest]

theorem readMembers_last {k : String} {value : Outline}
    (h : read fuel cs = (value, some ('\x7d' :: tail))) :
    readMembers (fuel + 1) ((quote k).toList ++ ':' :: cs) =
      ([(some k, value)], none, some tail) := by
  rw [toList_quote_append]
  unfold readMembers
  rw [skipSpaces_cons rfl]
  dsimp only
  rw [if_neg (by decide), readString_quote]
  dsimp only
  rw [skipSpaces_cons rfl]
  dsimp only
  rw [if_neg (by decide), h]
  dsimp only
  rw [skipSpaces_cons rfl]
  dsimp only
  rw [if_pos rfl]

theorem readMembers_comma {k : String} {value : Outline}
    {members : List (Option String × Outline)} {stop : Option Break} {after : Option (List Char)}
    (h : read fuel cs = (value, some (',' :: tail)))
    (hrest : readMembers fuel tail = (members, stop, after)) :
    readMembers (fuel + 1) ((quote k).toList ++ ':' :: cs) =
      ((some k, value) :: members, stop, after) := by
  rw [toList_quote_append]
  unfold readMembers
  rw [skipSpaces_cons rfl]
  dsimp only
  rw [if_neg (by decide), readString_quote]
  dsimp only
  rw [skipSpaces_cons rfl]
  dsimp only
  rw [if_neg (by decide), h]
  dsimp only
  rw [skipSpaces_cons rfl]
  dsimp only
  rw [if_neg (by decide), if_pos rfl, hrest]

end Outline

-- ---------------------------------------------------------------------------
-- Whole texts
-- ---------------------------------------------------------------------------

theorem endsNumeral_comma (rest : List Char) : Outline.EndsNumeral (',' :: rest) :=
  Outline.endsNumeral_cons rfl (by decide) (by decide) (by decide) rest

theorem endsNumeral_bracket (rest : List Char) : Outline.EndsNumeral (']' :: rest) :=
  Outline.endsNumeral_cons rfl (by decide) (by decide) (by decide) rest

theorem endsNumeral_brace (rest : List Char) : Outline.EndsNumeral ('\x7d' :: rest) :=
  Outline.endsNumeral_cons rfl (by decide) (by decide) (by decide) rest

open Outline

theorem opens_compactItems (x : Json) (xs : List Json) (tail : List Char)
    (hn : ∀ n ∈ x.numbers, n.Lasts) : Opens ((compactItems (x :: xs)).toList ++ tail) := by
  obtain ⟨c, rest, hcs, hs, hb⟩ := opens_compact x hn
  cases xs with
  | nil =>
    rw [compactItems, hcs]
    exact opens_cons hs hb _
  | cons y ys =>
    rw [toList_compactItems_cons, hcs]
    exact opens_cons hs hb _

theorem opens_compactMembers (k : String) (x : Json) (ms : List (String × Json))
    (tail : List Char) :
    ∃ rest, (compactMembers ((k, x) :: ms)).toList ++ tail = '"' :: rest := by
  cases ms with
  | nil =>
    rw [toList_compactMembers_single, toList_quote]
    exact ⟨_, rfl⟩
  | cons m ms =>
    rw [toList_compactMembers_cons, toList_quote]
    exact ⟨_, rfl⟩

/-- With this much fuel every value whose text is not longer is read from it. -/
def ReadsValues (fuel : Nat) : Prop :=
  ∀ (j : Json) (tail : List Char), (∀ n ∈ j.numbers, n.Lasts) → EndsNumeral tail →
    j.compact.toList.length ≤ fuel → read fuel (j.compact.toList ++ tail) = (ofJson j, some tail)

def ReadsItems (fuel : Nat) : Prop :=
  ∀ (x : Json) (xs : List Json) (tail : List Char), (∀ n ∈ numbersOfItems (x :: xs), n.Lasts) →
    (compactItems (x :: xs)).toList.length < fuel →
    readItems fuel ((compactItems (x :: xs)).toList ++ ']' :: tail) =
      (ofJsonItems (x :: xs), none, some tail)

def ReadsMembers (fuel : Nat) : Prop :=
  ∀ (k : String) (x : Json) (ms : List (String × Json)) (tail : List Char),
    (∀ n ∈ numbersOfMembers ((k, x) :: ms), n.Lasts) →
    (compactMembers ((k, x) :: ms)).toList.length < fuel →
    readMembers fuel ((compactMembers ((k, x) :: ms)).toList ++ '\x7d' :: tail) =
      (ofJsonMembers ((k, x) :: ms), none, some tail)

variable {fuel : Nat}

theorem readsValues_zero : ReadsValues 0 := by
  intro j tail hn ht hf
  obtain ⟨c, rest, hcs, -⟩ := opens_compact j hn
  rw [hcs] at hf
  exact absurd hf (Nat.not_succ_le_zero _)

theorem readsValues_succ (hi : ReadsItems fuel) (hm : ReadsMembers fuel) :
    ReadsValues (fuel + 1) := by
  intro j tail hn ht hf
  cases j with
  | null => rfl
  | bool b => cases b <;> rfl
  | number n => exact (hn n List.mem_cons_self).read_append ht fuel
  | string s => exact read_quote s tail
  | array items =>
    cases items with
    | nil => rfl
    | cons x xs =>
      rw [toList_compact_array] at hf ⊢
      rw [List.length_cons, List.length_append] at hf
      have hx : ∀ n ∈ x.numbers, n.Lasts := fun n h => hn n (List.mem_append_left _ h)
      rw [List.cons_append, List.append_assoc, read_array (opens_compactItems x xs _ hx),
        List.singleton_append, hi x xs tail hn (Nat.le_of_succ_le_succ hf)]
      rfl
  | object members =>
    cases members with
    | nil => rfl
    | cons m ms =>
      obtain ⟨k, x⟩ := m
      rw [toList_compact_object] at hf ⊢
      rw [List.length_cons, List.length_append] at hf
      obtain ⟨rest, hcs⟩ := opens_compactMembers k x ms ('\x7d' :: tail)
      rw [List.cons_append, List.append_assoc, List.singleton_append, hcs, read_object, ← hcs,
        hm k x ms tail hn (Nat.le_of_succ_le_succ hf)]
      rfl

theorem readsItems_succ (hv : ReadsValues fuel) (hi : ReadsItems fuel) :
    ReadsItems (fuel + 1) := by
  intro x xs tail hn hf
  have hx : ∀ n ∈ x.numbers, n.Lasts := fun n h => hn n (List.mem_append_left _ h)
  cases xs with
  | nil =>
    exact readItems_last (hv x _ hx (endsNumeral_bracket tail) (Nat.le_of_lt_succ hf))
  | cons y ys =>
    have hys : ∀ n ∈ numbersOfItems (y :: ys), n.Lasts :=
      fun n h => hn n (List.mem_append_right _ h)
    rw [toList_compactItems_cons, List.length_append, List.length_cons] at hf
    rw [toList_compactItems_cons, List.append_assoc, List.cons_append]
    exact readItems_comma (hv x _ hx (endsNumeral_comma _) (by omega))
      (hi y ys tail hys (by omega))

theorem readsMembers_succ (hv : ReadsValues fuel) (hm : ReadsMembers fuel) :
    ReadsMembers (fuel + 1) := by
  intro k x ms tail hn hf
  have hx : ∀ n ∈ x.numbers, n.Lasts := fun n h => hn n (List.mem_append_left _ h)
  cases ms with
  | nil =>
    rw [toList_compactMembers_single, List.length_append, List.length_cons] at hf
    rw [toList_compactMembers_single, List.append_assoc, List.cons_append]
    exact readMembers_last (hv x _ hx (endsNumeral_brace tail) (by omega))
  | cons m ms =>
    obtain ⟨l, y⟩ := m
    have hms : ∀ n ∈ numbersOfMembers ((l, y) :: ms), n.Lasts :=
      fun n h => hn n (List.mem_append_right _ h)
    rw [toList_compactMembers_cons, List.length_append, List.length_cons, List.length_append,
      List.length_cons] at hf
    rw [toList_compactMembers_cons, List.append_assoc, List.cons_append, List.append_assoc,
      List.cons_append]
    exact readMembers_comma (hv x _ hx (endsNumeral_comma _) (by omega))
      (hm l y ms tail hms (by omega))

/-- The length of a text is fuel enough to read it. -/
theorem readsValues (fuel : Nat) : ReadsValues fuel := by
  have hall : ReadsValues fuel ∧ ReadsItems fuel ∧ ReadsMembers fuel := by
    induction fuel with
    | zero => exact ⟨readsValues_zero, fun _ _ _ _ hf => absurd hf (Nat.not_lt_zero _),
        fun _ _ _ _ _ hf => absurd hf (Nat.not_lt_zero _)⟩
    | succ fuel ih =>
      obtain ⟨hv, hi, hm⟩ := ih
      exact ⟨readsValues_succ hi hm, readsItems_succ hv hi, readsMembers_succ hv hm⟩
  exact hall.1

/-- The outline of a value's text is that of the value, and nothing follows it. -/
theorem Outline.ofText_compact (j : Json) (hn : ∀ n ∈ j.numbers, n.Lasts) :
    ofText j.compact = (ofJson j, false) := by
  have hread := readsValues (2 * j.compact.toList.length + 2) j [] hn endsNumeral_nil
    (by omega)
  rw [List.append_nil] at hread
  unfold ofText
  dsimp only
  rw [hread]
  rfl

end Crew.Json
