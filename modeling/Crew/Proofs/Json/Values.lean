import Crew.Proofs.Json.Numerals

/-!
# Values read as values

A value whose objects have ascending keys is what its own outline is read as
(`Outline.toJson_ofJson`), unless it nests deeper than its reader goes. Whatever its keys are, such
an outline can be taken into memory (`Outline.buffer_ofJson`).
-/

namespace Crew.Json

mutual
def depth : Json → Nat
  | .array items => depthOfItems items + 1
  | .object members => depthOfMembers members + 1
  | _ => 0
def depthOfItems : List Json → Nat
  | [] => 0
  | x :: xs => max (depth x) (depthOfItems xs)
def depthOfMembers : List (String × Json) → Nat
  | [] => 0
  | (_, x) :: xs => max (depth x) (depthOfMembers xs)
end

def Ascending (members : List (String × Json)) : Prop := (members.map (·.1)).Pairwise (· < ·)

mutual
/-- The keys of each object within the value ascend. -/
def Ordered : Json → Prop
  | .array items => OrderedItems items
  | .object members => Ascending members ∧ OrderedMembers members
  | _ => True
def OrderedItems : List Json → Prop
  | [] => True
  | x :: xs => Ordered x ∧ OrderedItems xs
def OrderedMembers : List (String × Json) → Prop
  | [] => True
  | (_, x) :: xs => Ordered x ∧ OrderedMembers xs
end

instance (members : List (String × Json)) : Decidable (Ascending members) :=
  inferInstanceAs (Decidable ((members.map (·.1)).Pairwise (· < ·)))

mutual
def decOrdered : (j : Json) → Decidable j.Ordered
  | .null | .bool _ | .number _ | .string _ => isTrue trivial
  | .array items => decOrderedItems items
  | .object members =>
    match decOrderedMembers members with
    | isTrue h => decidable_of_iff (Ascending members) ⟨fun ha => ⟨ha, h⟩, And.left⟩
    | isFalse h => isFalse fun ho => h ho.2
def decOrderedItems : (items : List Json) → Decidable (OrderedItems items)
  | [] => isTrue trivial
  | x :: xs =>
    match decOrdered x, decOrderedItems xs with
    | isTrue hx, isTrue hxs => isTrue ⟨hx, hxs⟩
    | isFalse hx, _ => isFalse fun h => hx h.1
    | _, isFalse hxs => isFalse fun h => hxs h.2
def decOrderedMembers : (members : List (String × Json)) → Decidable (OrderedMembers members)
  | [] => isTrue trivial
  | (_, x) :: ms =>
    match decOrdered x, decOrderedMembers ms with
    | isTrue hx, isTrue hms => isTrue ⟨hx, hms⟩
    | isFalse hx, _ => isFalse fun h => hx h.1
    | _, isFalse hms => isFalse fun h => hms h.2
end

instance : DecidablePred Ordered := decOrdered

theorem insertMember_of_forall_lt {key : String} {value : Json} {members : List (String × Json)}
    (h : ∀ m ∈ members, m.1 < key) :
    insertMember key value members = members ++ [(key, value)] := by
  induction members with
  | nil => rfl
  | cons m ms ih =>
    obtain ⟨k, v⟩ := m
    obtain ⟨hk, hms⟩ := List.forall_mem_cons.mp h
    rw [insertMember, if_neg (String.lt_asymm hk), if_neg (String.ne_of_lt hk).symm, ih hms]
    rfl

theorem sorted_of_ascending {members : List (String × Json)} (h : Ascending members) :
    sorted members = .object members := by
  have hfold (ms done : List (String × Json)) (h : Ascending (done ++ ms)) :
      ms.foldl (fun acc m => insertMember m.1 m.2 acc) done = done ++ ms := by
    induction ms generalizing done with
    | nil => exact (List.append_nil done).symm
    | cons m ms ih =>
      have hlt : ∀ d ∈ done, d.1 < m.1 := by
        unfold Ascending at h
        rw [List.map_append, List.pairwise_append] at h
        exact fun d hd => h.2.2 d.1 (List.mem_map_of_mem hd) m.1 List.mem_cons_self
      rw [List.foldl_cons, insertMember_of_forall_lt hlt, ih, List.append_assoc]
      · rfl
      · rw [List.append_assoc]
        exact h
  rw [sorted, hfold members [] h]
  rfl

namespace Outline

mutual
theorem toJson_ofJson {ctx : Context} {j : Json} (hd : j.depth ≤ ctx.depth) (ho : j.Ordered) :
    (ofJson j).toJson ctx = .ok j := by
  match j with
  | .null | .bool _ | .number _ | .string _ => rfl
  | .array items =>
    obtain ⟨origin, d⟩ := ctx
    cases d with
    | zero => exact absurd hd (Nat.not_succ_le_zero _)
    | succ d =>
      have hitems : toJsonItems ⟨origin, d⟩ (ofJsonItems items) = .ok items :=
        toJsonItems_ofJsonItems (Nat.le_of_succ_le_succ hd) ho
      exact bind_eq_ok.mpr ⟨⟨origin, d⟩, rfl, bind_eq_ok.mpr ⟨items, hitems, rfl⟩⟩
  | .object members =>
    obtain ⟨origin, d⟩ := ctx
    cases d with
    | zero => exact absurd hd (Nat.not_succ_le_zero _)
    | succ d =>
      have hmembers : toJsonMembers ⟨origin, d⟩ (ofJsonMembers members) = .ok members :=
        toJsonMembers_ofJsonMembers (Nat.le_of_succ_le_succ hd) ho.2
      have hsorted : (ofJson (.object members)).toJson ⟨origin, d + 1⟩ = .ok (sorted members) :=
        bind_eq_ok.mpr ⟨⟨origin, d⟩, rfl, bind_eq_ok.mpr ⟨members, hmembers, rfl⟩⟩
      rw [hsorted, sorted_of_ascending ho.1]
theorem toJsonItems_ofJsonItems {ctx : Context} {items : List Json}
    (hd : depthOfItems items ≤ ctx.depth) (ho : OrderedItems items) :
    toJsonItems ctx (ofJsonItems items) = .ok items := by
  match items with
  | [] => rfl
  | x :: xs =>
    rw [ofJsonItems, toJsonItems, toJson_ofJson (Nat.le_trans (Nat.le_max_left _ _) hd) ho.1,
      toJsonItems_ofJsonItems (Nat.le_trans (Nat.le_max_right _ _) hd) ho.2]
    rfl
theorem toJsonMembers_ofJsonMembers {ctx : Context} {members : List (String × Json)}
    (hd : depthOfMembers members ≤ ctx.depth) (ho : OrderedMembers members) :
    toJsonMembers ctx (ofJsonMembers members) = .ok members := by
  match members with
  | [] => rfl
  | (k, x) :: ms =>
    rw [ofJsonMembers, toJsonMembers, toJson_ofJson (Nat.le_trans (Nat.le_max_left _ _) hd) ho.1,
      toJsonMembers_ofJsonMembers (Nat.le_trans (Nat.le_max_right _ _) hd) ho.2]
    rfl
end

mutual
/-- Taking a value into memory fails only where the value nests too deep. -/
theorem exists_toJson_ofJson {ctx : Context} {j : Json} (hd : j.depth ≤ ctx.depth) :
    ∃ value, (ofJson j).toJson ctx = .ok value := by
  match j with
  | .null | .bool _ | .number _ | .string _ => exact ⟨_, rfl⟩
  | .array items =>
    obtain ⟨origin, d⟩ := ctx
    cases d with
    | zero => exact absurd hd (Nat.not_succ_le_zero _)
    | succ d =>
      obtain ⟨values, hvalues⟩ : ∃ values, toJsonItems ⟨origin, d⟩ (ofJsonItems items) = .ok values :=
        exists_toJsonItems_ofJsonItems (Nat.le_of_succ_le_succ hd)
      exact ⟨.array values, bind_eq_ok.mpr ⟨⟨origin, d⟩, rfl, bind_eq_ok.mpr ⟨values, hvalues, rfl⟩⟩⟩
  | .object members =>
    obtain ⟨origin, d⟩ := ctx
    cases d with
    | zero => exact absurd hd (Nat.not_succ_le_zero _)
    | succ d =>
      obtain ⟨values, hvalues⟩ :
          ∃ values, toJsonMembers ⟨origin, d⟩ (ofJsonMembers members) = .ok values :=
        exists_toJsonMembers_ofJsonMembers (Nat.le_of_succ_le_succ hd)
      exact ⟨sorted values,
        bind_eq_ok.mpr ⟨⟨origin, d⟩, rfl, bind_eq_ok.mpr ⟨values, hvalues, rfl⟩⟩⟩
theorem exists_toJsonItems_ofJsonItems {ctx : Context} {items : List Json}
    (hd : depthOfItems items ≤ ctx.depth) :
    ∃ values, toJsonItems ctx (ofJsonItems items) = .ok values := by
  match items with
  | [] => exact ⟨[], rfl⟩
  | x :: xs =>
    obtain ⟨value, hvalue⟩ := exists_toJson_ofJson (Nat.le_trans (Nat.le_max_left _ _) hd)
    obtain ⟨values, hvalues⟩ :=
      exists_toJsonItems_ofJsonItems (Nat.le_trans (Nat.le_max_right _ _) hd)
    exact ⟨value :: values, bind_eq_ok.mpr ⟨value, hvalue, bind_eq_ok.mpr ⟨values, hvalues, rfl⟩⟩⟩
theorem exists_toJsonMembers_ofJsonMembers {ctx : Context} {members : List (String × Json)}
    (hd : depthOfMembers members ≤ ctx.depth) :
    ∃ values, toJsonMembers ctx (ofJsonMembers members) = .ok values := by
  match members with
  | [] => exact ⟨[], rfl⟩
  | (k, x) :: ms =>
    obtain ⟨value, hvalue⟩ := exists_toJson_ofJson (Nat.le_trans (Nat.le_max_left _ _) hd)
    obtain ⟨values, hvalues⟩ :=
      exists_toJsonMembers_ofJsonMembers (Nat.le_trans (Nat.le_max_right _ _) hd)
    exact ⟨(k, value) :: values,
      bind_eq_ok.mpr ⟨value, hvalue, bind_eq_ok.mpr ⟨values, hvalues, rfl⟩⟩⟩
end

theorem buffer_ofJson {ctx : Context} {j : Json} (hd : j.depth ≤ ctx.depth) :
    (ofJson j).buffer ctx = .ok (ofJson j) := by
  obtain ⟨value, hvalue⟩ := exists_toJson_ofJson hd
  exact bind_eq_ok.mpr ⟨value, hvalue, rfl⟩

end Outline

end Crew.Json
