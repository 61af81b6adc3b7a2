/-!
# Tables

Rows under distinct keys, kept in the order in which their keys first came. Insertion under a
known key replaces the row where it stands; every other operation keeps the order too.

Each operation is described by what it does to `get?` and to `keys`. That the keys are distinct is
not part of the type: it holds of the empty table and is kept by every operation.
-/

namespace Crew

structure Table (κ α : Type) where
  rows : List (κ × α) := []
  deriving Repr, DecidableEq, Inhabited

namespace Table

variable {κ α : Type}

def empty : Table κ α := {}

def keys (t : Table κ α) : List κ := t.rows.map (·.1)

def values (t : Table κ α) : List α := t.rows.map (·.2)

def size (t : Table κ α) : Nat := t.rows.length

def map {β : Type} (t : Table κ α) (f : α → β) : Table κ β :=
  ⟨t.rows.map fun row => (row.1, f row.2)⟩

@[simp] theorem keys_map {β : Type} (t : Table κ α) (f : α → β) : (t.map f).keys = t.keys := by
  simp [map, keys, Function.comp_def]

variable [DecidableEq κ]

def get? (t : Table κ α) (key : κ) : Option α :=
  (t.rows.find? (·.1 = key)).map (·.2)

def contains (t : Table κ α) (key : κ) : Bool := (t.get? key).isSome

@[simp] theorem get?_empty (key : κ) : (empty : Table κ α).get? key = none := rfl

theorem contains_iff_mem_keys (t : Table κ α) (key : κ) : t.contains key ↔ key ∈ t.keys := by
  simp [contains, get?, keys]

theorem get?_eq_none_iff (t : Table κ α) (key : κ) : t.get? key = none ↔ key ∉ t.keys := by
  rw [← contains_iff_mem_keys]
  simp [contains]

def modify (t : Table κ α) (key : κ) (f : α → α) : Table κ α :=
  ⟨t.rows.map fun row => if row.1 = key then (row.1, f row.2) else row⟩

@[simp] theorem keys_modify (t : Table κ α) (key : κ) (f : α → α) :
    (t.modify key f).keys = t.keys := by
  simp only [modify, keys, List.map_map]
  apply List.map_congr_left
  intro row _
  by_cases h : row.1 = key <;> simp [h]

theorem get?_modify (t : Table κ α) (key other : κ) (f : α → α) :
    (t.modify key f).get? other = if other = key then (t.get? other).map f else t.get? other := by
  have hp : ((fun row : κ × α => decide (row.1 = other)) ∘
      fun row => if row.1 = key then (row.1, f row.2) else row) =
        fun row => decide (row.1 = other) := by
    funext row
    by_cases h : row.1 = key <;> simp [h]
  simp only [get?, modify, List.find?_map, hp]
  cases h : t.rows.find? fun row => row.1 = other with
  | none => simp
  | some row =>
    have hr : row.1 = other := by simpa using List.find?_some h
    by_cases hk : other = key <;> simp [hr, hk]

/-- Replace the row of `key`, or add one at the end. -/
def insert (t : Table κ α) (key : κ) (value : α) : Table κ α :=
  if t.contains key then t.modify key fun _ => value else ⟨t.rows ++ [(key, value)]⟩

theorem keys_insert (t : Table κ α) (key : κ) (value : α) :
    (t.insert key value).keys = if t.contains key then t.keys else t.keys ++ [key] := by
  unfold insert
  split
  · exact t.keys_modify key _
  · simp [keys]

theorem get?_insert (t : Table κ α) (key other : κ) (value : α) :
    (t.insert key value).get? other = if other = key then some value else t.get? other := by
  unfold insert
  split
  next h =>
    rw [get?_modify]
    split
    next he =>
      subst he
      obtain ⟨old, ho⟩ := Option.isSome_iff_exists.mp h
      simp [ho]
    · rfl
  next h =>
    have hk : t.get? key = none := by simpa [contains] using h
    by_cases he : other = key
    · subst he
      simp only [get?, Option.map_eq_none_iff] at hk
      simp [get?, List.find?_append, hk]
    · simp [get?, List.find?_append, he, Ne.symm he]

theorem mem_keys_insert {t : Table κ α} {key other : κ} {value : α} :
    other ∈ (t.insert key value).keys ↔ other = key ∨ other ∈ t.keys := by
  rw [keys_insert]
  split
  next h =>
    rw [contains_iff_mem_keys] at h
    exact ⟨.inr, fun hor => hor.elim (fun he => he ▸ h) id⟩
  next h => simp [or_comm]

@[simp] theorem get?_map {β : Type} (t : Table κ α) (f : α → β) (key : κ) :
    (t.map f).get? key = (t.get? key).map f := by
  simp [get?, map, List.find?_map, Function.comp_def]

/-- Insert the given rows one after the other; a later row of a key replaces an earlier one. -/
def insertAll (t : Table κ α) (rows : List (κ × α)) : Table κ α :=
  rows.foldl (fun t row => t.insert row.1 row.2) t

theorem mem_keys_insertAll {t : Table κ α} {key : κ} {rows : List (κ × α)} :
    key ∈ (t.insertAll rows).keys ↔ key ∈ rows.map (·.1) ∨ key ∈ t.keys := by
  induction rows generalizing t with
  | nil => simp [insertAll]
  | cons row rest ih =>
    have hcons : t.insertAll (row :: rest) = (t.insert row.1 row.2).insertAll rest := rfl
    rw [hcons, ih, mem_keys_insert, List.map_cons, List.mem_cons, or_left_comm, or_assoc]

theorem get?_insertAll (t : Table κ α) {rows : List (κ × α)} (h : (rows.map (·.1)).Nodup)
    (key : κ) : (t.insertAll rows).get? key = (get? ⟨rows⟩ key).or (t.get? key) := by
  induction rows generalizing t with
  | nil => rfl
  | cons row rest ih =>
    obtain ⟨hnot, hrest⟩ := List.nodup_cons.mp h
    have hcons : t.insertAll (row :: rest) = (t.insert row.1 row.2).insertAll rest := rfl
    rw [hcons, ih _ hrest, get?_insert]
    by_cases he : key = row.1
    · subst he
      have hnone : get? ⟨rest⟩ row.1 = none := (get?_eq_none_iff _ _).mpr hnot
      rw [hnone]
      simp [get?]
    · simp [he, Ne.symm he, get?]

def ofList (rows : List (κ × α)) : Table κ α := empty.insertAll rows

end Table

end Crew
