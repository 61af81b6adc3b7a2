import Mathlib.Data.List.Forall2
import Crew.Json.Tagged
import Crew.Proofs.Json.Texts
import Crew.Proofs.Json.Values

/-!
# Records are read as they are written

What a decoder makes of a value's outline does not depend on the place of the value
(`Decoder.Reads`). A record whose members are among the declared fields, each at most once, is
read field by field (`RecordShape.reads_object`): a field that is there is read from its member,
and one that is not is absent.
-/

namespace Crew.Json

namespace Decoder

variable {α : Type} {d : Decoder α} {j : Json} {a : α}

/-- The decoder makes `a` of the value, wherever its nesting is allowed. -/
def Reads (d : Decoder α) (j : Json) (a : α) : Prop :=
  ∀ ctx : Context, j.depth ≤ ctx.depth → d ctx (.ofJson j) = .ok a

-- ---------------------------------------------------------------------------
-- Scalars
-- ---------------------------------------------------------------------------

theorem reads_json (h : j.Ordered) : json.Reads j j := fun _ hd => Outline.toJson_ofJson hd h

theorem reads_string (s : String) : string.Reads (.string s) s := fun _ _ => rfl

theorem reads_bool (b : Bool) : bool.Reads (.bool b) b := fun _ _ => rfl

theorem reads_natural {bits n : Nat} (h : n < Nat.pow 2 bits) (expected : String) :
    (natural bits expected).Reads (.nat n) n := by
  intro ctx _
  exact if_pos ⟨Int.natCast_nonneg n, Int.ofNat_lt.mpr h⟩

theorem reads_u32 {n : Nat} (h : n < Nat.pow 2 32) : u32.Reads (.nat n) n := reads_natural h _

theorem reads_u64 {n : Nat} (h : n < Nat.pow 2 64) : u64.Reads (.nat n) n := reads_natural h _

theorem reads_usize {n : Nat} (h : n < Nat.pow 2 64) : usize.Reads (.nat n) n := reads_natural h _

theorem reads_f64 (x : Float) : f64.Reads (.real x) x := fun _ _ => rfl

theorem named_of_lookup {variants : List (String × α)} {name : String}
    (h : variants.lookup name = some a) : named variants name = .ok a := by
  rw [named, h]

theorem reads_named {variants : List (String × α)} {name : String}
    (h : variants.lookup name = some a) : (variant variants).Reads (.string name) a := by
  intro ctx _
  exact named_of_lookup h

theorem identifier_ofJson {variants : List (String × α)} {name : String} {ctx : Context}
    (h : variants.lookup name = some a) :
    identifier variants ctx (.ofJson (.string name)) = .ok a := named_of_lookup h

theorem reads_option (h : d.Reads j a) (hj : j ≠ .null) : d.option.Reads j (some a) := by
  intro ctx hd
  have hvalue : d.option ctx (.ofJson j) = (d ctx (.ofJson j)).map some := by
    cases j with
    | null => exact absurd rfl hj
    | _ => rfl
  rw [hvalue, h ctx hd]
  rfl

theorem reads_option_null (d : Decoder α) : d.option.Reads .null none := fun _ _ => rfl

-- ---------------------------------------------------------------------------
-- Containers
-- ---------------------------------------------------------------------------

theorem items_of_reads {items : List Json} {values : List α} {ctx : Context}
    (h : List.Forall₂ d.Reads items values) (hd : depthOfItems items ≤ ctx.depth) :
    Decoder.items d ctx (Outline.ofJsonItems items) = .ok values := by
  induction h with
  | nil => rfl
  | cons hx _ ih =>
    have hrest := ih (Nat.le_trans (Nat.le_max_right _ _) hd)
    exact bind_eq_ok.mpr ⟨_, hx ctx (Nat.le_trans (Nat.le_max_left _ _) hd),
      bind_eq_ok.mpr ⟨_, hrest, rfl⟩⟩

theorem reads_list {items : List Json} {values : List α} (h : List.Forall₂ d.Reads items values) :
    d.list.Reads (.array items) values := by
  rintro ⟨origin, depth⟩ hd
  cases depth with
  | zero => exact absurd hd (Nat.not_succ_le_zero _)
  | succ depth =>
    exact bind_eq_ok.mpr ⟨⟨origin, depth⟩, rfl, bind_eq_ok.mpr
      ⟨_, items_of_reads h (Nat.le_of_succ_le_succ hd), rfl⟩⟩

theorem rows_of_reads {κ : Type} {key : String → Except Fault κ}
    {members : List (String × Json)} {values : List (κ × α)} {ctx : Context}
    (h : List.Forall₂ (fun m v => key m.1 = .ok v.1 ∧ d.Reads m.2 v.2) members values)
    (hd : depthOfMembers members ≤ ctx.depth) :
    rows key d ctx (Outline.ofJsonMembers members) = .ok values := by
  induction h with
  | nil => rfl
  | cons hx _ ih =>
    have hrest := ih (Nat.le_trans (Nat.le_max_right _ _) hd)
    exact bind_eq_ok.mpr ⟨_, hx.1, bind_eq_ok.mpr
      ⟨_, hx.2 ctx (Nat.le_trans (Nat.le_max_left _ _) hd), bind_eq_ok.mpr ⟨_, hrest, rfl⟩⟩⟩

theorem reads_map {κ : Type} {key : String → Except Fault κ} {members : List (String × Json)}
    {values : List (κ × α)}
    (h : List.Forall₂ (fun m v => key m.1 = .ok v.1 ∧ d.Reads m.2 v.2) members values) :
    (map key d).Reads (.object members) values := by
  rintro ⟨origin, depth⟩ hd
  cases depth with
  | zero => exact absurd hd (Nat.not_succ_le_zero _)
  | succ depth =>
    exact bind_eq_ok.mpr ⟨⟨origin, depth⟩, rfl, bind_eq_ok.mpr
      ⟨_, rows_of_reads h (Nat.le_of_succ_le_succ hd), rfl⟩⟩

end Decoder

-- ---------------------------------------------------------------------------
-- The members of a record
-- ---------------------------------------------------------------------------

/-- The members are among the fields of the record, each at most once and in their order. -/
structure RecordShape.Declares (shape : RecordShape) (members : List (String × Json)) : Prop where
  keys : (members.map (·.1)).Sublist shape.fields
  nodup : shape.fields.Nodup
  field : ∀ name ∈ shape.fields, shape.field? name = some name

theorem keys_memberIf (name : String) (value : Option Json) :
    ((memberIf name value).map (·.1)).Sublist [name] := by
  cases value with
  | none => exact List.nil_sublist _
  | some value => exact List.Sublist.refl _

@[simp]
theorem lookup_memberIf (key name : String) (value : Option Json) :
    (memberIf name value).lookup key = if key == name then value else none := by
  cases value with
  | none => exact (ite_self _).symm
  | some value =>
    rw [memberIf, List.lookup_cons]
    cases key == name <;> rfl

theorem depth_le_of_lookup {members : List (String × Json)} {name : String} {j : Json}
    (h : members.lookup name = some j) : j.depth ≤ depthOfMembers members := by
  induction members with
  | nil => cases h
  | cons m ms ih =>
    obtain ⟨k, x⟩ := m
    rw [List.lookup_cons] at h
    cases hk : name == k with
    | true =>
      rw [hk] at h
      cases h
      exact Nat.le_max_left _ _
    | false =>
      rw [hk] at h
      exact Nat.le_trans (ih h) (Nat.le_max_right _ _)

def Positioned.fail {α : Type} (position : Nat) (fault : Fault) : Positioned α :=
  Except.error (position, fault)

namespace Members

def placed (position : Nat) : List (String × Json) → List (String × Nat × Outline)
  | [] => []
  | (k, x) :: ms => (k, position, .ofJson x) :: placed (position + 1) ms

theorem lookup_placed (position : Nat) (members : List (String × Json)) (name : String) :
    ∃ p, (placed position members).lookup name =
      (members.lookup name).map fun j => (p, .ofJson j) := by
  induction members generalizing position with
  | nil => exact ⟨0, rfl⟩
  | cons m ms ih =>
    obtain ⟨k, x⟩ := m
    rw [placed, List.lookup_cons, List.lookup_cons]
    cases name == k with
    | true => exact ⟨position, rfl⟩
    | false => exact ih (position + 1)

theorem scan_ofJsonMembers {shape : RecordShape} {members : List (String × Json)}
    (hnodup : (members.map (·.1)).Nodup) (hfield : ∀ m ∈ members, shape.field? m.1 = some m.1)
    (position : Nat) (seen : List (String × Nat × Outline))
    (hseen : ∀ m ∈ members, seen.lookup m.1 = none) :
    scan shape none position seen (Outline.ofJsonMembers members) =
      (seen ++ placed position members, none) := by
  induction members generalizing position seen with
  | nil => rw [placed, List.append_nil]; rfl
  | cons m ms ih =>
    obtain ⟨k, x⟩ := m
    obtain ⟨hk, hms⟩ := List.forall_mem_cons.mp hfield
    obtain ⟨hsk, hsms⟩ := List.forall_mem_cons.mp hseen
    obtain ⟨hnot, hnodup⟩ := List.nodup_cons.mp hnodup
    have hseen' : ∀ m ∈ ms, (seen ++ [(k, position, Outline.ofJson x)]).lookup m.1 = none := by
      intro m hm
      have hne : (m.1 == k) = false :=
        beq_false_of_ne fun he => hnot (he ▸ List.mem_map_of_mem (f := (·.1)) hm)
      rw [List.lookup_append, hsms m hm, List.lookup_cons, hne]
      rfl
    rw [Outline.ofJsonMembers, scan]
    simp only [hk, hsk]
    rw [if_neg (by decide), ih hnodup hms (position + 1) _ hseen', placed, List.append_assoc]
    rfl

/-- The members of an object, and no others, with nothing wrong about them. -/
structure Holds (m : Members) (members : List (String × Json)) : Prop where
  fault : m.fault = none
  lookup : ∀ name, ∃ p, m.entries.lookup name =
    (members.lookup name).map fun j => (p, Outline.ofJson j)
  depth : depthOfMembers members ≤ m.context.depth

theorem holds_ofObject {shape : RecordShape} {members : List (String × Json)} {ctx : Context}
    (h : shape.Declares members) (hd : depthOfMembers members ≤ ctx.depth) :
    (ofObject shape ctx (Outline.ofJsonMembers members) none).Holds members := by
  have hscan := scan_ofJsonMembers (h.nodup.sublist h.keys)
    (fun m hm => h.field m.1 (h.keys.subset (List.mem_map_of_mem hm))) 0 [] (fun _ _ => rfl)
  have hentries : (ofObject shape ctx (Outline.ofJsonMembers members) none).entries =
      placed 0 members := congrArg Prod.fst hscan
  refine ⟨congrArg Prod.snd hscan, fun name => ?_, hd⟩
  rw [hentries]
  exact lookup_placed 0 members name

variable {α β : Type} {m : Members} {members : List (String × Json)} {name : String}
  {d : Decoder α} {a : α} {j : Json}

theorem Holds.field_some (h : m.Holds members) (hj : members.lookup name = some j)
    (hr : d.Reads j a) (absent : Positioned α) : m.field name d absent = .pure a := by
  obtain ⟨p, hp⟩ := h.lookup name
  rw [hj] at hp
  have hvalue := hr m.context (Nat.le_trans (depth_le_of_lookup hj) h.depth)
  rw [Members.field, hp]
  simp only [Option.map_some, hvalue]
  rfl

theorem Holds.field_none (h : m.Holds members) (hj : members.lookup name = none)
    (absent : Positioned α) : m.field name d absent = absent := by
  obtain ⟨p, hp⟩ := h.lookup name
  rw [hj] at hp
  rw [Members.field, hp]
  rfl

theorem Holds.required (h : m.Holds members) (hj : members.lookup name = some j)
    (hr : d.Reads j a) : m.required name d = .pure a :=
  h.field_some hj hr _

theorem Holds.optional (h : m.Holds members) (hj : members.lookup name = some j)
    (hr : d.Reads j a) (default : α) : m.optional name d default = .pure a :=
  h.field_some hj hr _

theorem Holds.optional_map {o : Option α} (write : α → Json) (h : m.Holds members)
    (hj : members.lookup name = o.map write)
    (hr : ∀ a, o = some a → d.Reads (write a) a ∧ write a ≠ .null) :
    m.optional name d.option none = .pure o := by
  cases o with
  | none => exact h.field_none hj _
  | some a =>
    obtain ⟨hread, hnull⟩ := hr a rfl
    exact h.field_some hj (Decoder.reads_option hread hnull) _

theorem Holds.nullable {o : Option α} (write : α → Json) (h : m.Holds members)
    (hj : members.lookup name = some (ofOption write o))
    (hr : ∀ a, o = some a → d.Reads (write a) a ∧ write a ≠ .null) :
    m.nullable name d = .pure o := by
  cases o with
  | none => exact h.field_some hj (Decoder.reads_option_null d) _
  | some a =>
    obtain ⟨hread, hnull⟩ := hr a rfl
    exact h.field_some hj (Decoder.reads_option hread hnull) _

theorem Holds.required_error {fault : Fault} (h : m.Holds members)
    (hj : members.lookup name = some j) (hr : ∀ ctx, d ctx (.ofJson j) = .error fault) :
    ∃ p, m.required name d = .fail p fault := by
  obtain ⟨p, hp⟩ := h.lookup name
  rw [hj] at hp
  have hfield (absent : Positioned α) : m.field name d absent = .fail p fault := by
    rw [Members.field, hp]
    simp only [Option.map_some, hr]
    rfl
  exact ⟨p, hfield _⟩

theorem Holds.finish_fail (h : m.Holds members) (p : Nat) (fault : Fault) :
    m.finish (.fail p fault : Positioned α) = .error fault := by
  unfold finish Positioned.fail
  rw [h.fault]

theorem Holds.finish_ok (h : m.Holds members) (a : α) : m.finish (.pure a) = .ok a := by
  unfold finish Positioned.pure
  rw [h.fault]

end Members

namespace RecordShape

variable {α : Type} {shape : RecordShape} {read : Members → Positioned α}
  {members : List (String × Json)} {a : α}

/-- What is read of a record depends on its members only. -/
theorem exists_holds (hs : shape.Declares members) {ctx : Context}
    (hd : (Json.object members).depth ≤ ctx.depth) :
    ∃ m : Members, m.Holds members ∧
      shape.decoder read ctx (.ofJson (.object members)) = m.finish (read m) := by
  obtain ⟨origin, depth⟩ := ctx
  cases depth with
  | zero => exact absurd hd (Nat.not_succ_le_zero _)
  | succ depth =>
    have hdepth : depthOfMembers members ≤ depth := Nat.le_of_succ_le_succ hd
    exact ⟨_, Members.holds_ofObject hs hdepth, rfl⟩

theorem reads_object (hs : shape.Declares members)
    (h : ∀ m : Members, m.Holds members → read m = .pure a) :
    (shape.decoder read).Reads (.object members) a := by
  intro ctx hd
  obtain ⟨m, hm, he⟩ := exists_holds hs hd
  rw [he, h m hm]
  exact hm.finish_ok a

end RecordShape

-- ---------------------------------------------------------------------------
-- Tagged values
-- ---------------------------------------------------------------------------

namespace Decoder

variable {α : Type} {tag kind title : String} {rest : List (String × Json)} {a : α}

theorem splitTag_ofJsonMembers {variants : List (String × α)} {ctx : Context}
    (hrest : ∀ m ∈ rest, m.1 ≠ tag) (hd : depthOfMembers rest ≤ ctx.depth) (found : Option α) :
    splitTag tag variants ctx found (Outline.ofJsonMembers rest) =
      .ok (found, Outline.ofJsonMembers rest) := by
  induction rest with
  | nil => rfl
  | cons m ms ih =>
    obtain ⟨k, x⟩ := m
    obtain ⟨hk, hms⟩ := List.forall_mem_cons.mp hrest
    have hx := Outline.buffer_ofJson (Nat.le_trans (Nat.le_max_left _ _) hd)
    have hsplit := ih hms (Nat.le_trans (Nat.le_max_right _ _) hd)
    rw [Outline.ofJsonMembers, splitTag, if_neg hk, hx, bind_eq_ok]
    exact ⟨_, rfl, bind_eq_ok.mpr ⟨_, hsplit, rfl⟩⟩

/-- A value that is written with its tag first is read as the alternative that the tag names, and
for that it is taken into memory. -/
theorem tagged_ofJson {variants : List (String × Decoder α)} {fields : Decoder α}
    (hv : variants.lookup kind = some fields) (hrest : ∀ m ∈ rest, m.1 ≠ tag)
    {ctx : Context} (hd : (Json.object rest).depth ≤ ctx.depth) :
    tagged title tag variants ctx (.ofJson (.object ((tag, .string kind) :: rest))) =
      fields { ctx with origin := .buffer } (.ofJson (.object rest)) := by
  obtain ⟨origin, depth⟩ := ctx
  cases depth with
  | zero => exact absurd hd (Nat.not_succ_le_zero _)
  | succ depth =>
    have hdepth : depthOfMembers rest ≤ depth := Nat.le_of_succ_le_succ hd
    have hsplit : splitTag tag variants ⟨origin, depth⟩ none
        (Outline.ofJsonMembers ((tag, .string kind) :: rest)) =
        .ok (some fields, Outline.ofJsonMembers rest) := by
      rw [Outline.ofJsonMembers, splitTag, if_pos rfl, Option.isSome_none, if_neg (by decide)]
      refine bind_eq_ok.mpr ⟨fields, identifier_ofJson hv, ?_⟩
      exact splitTag_ofJsonMembers hrest hdepth _
    unfold tagged
    rw [Outline.ofJson]
    simp only [Context.enter, hsplit, bind, Except.bind, Outline.stopFault]
    rfl

theorem depth_cons_string (tag kind : String) (rest : List (String × Json)) :
    (Json.object ((tag, .string kind) :: rest)).depth = (Json.object rest).depth :=
  congrArg (· + 1) (Nat.zero_max _)

theorem reads_tagged {variants : List (String × Decoder α)} {fields : Decoder α}
    (hv : variants.lookup kind = some fields) (hrest : ∀ m ∈ rest, m.1 ≠ tag)
    (h : fields.Reads (.object rest) a) :
    (tagged title tag variants).Reads (.object ((tag, .string kind) :: rest)) a := by
  intro ctx hd
  rw [depth_cons_string] at hd
  rw [tagged_ofJson hv hrest hd]
  exact h { ctx with origin := .buffer } hd

theorem reads_adjacent {shape : TagShape} {variants : List (String × Alternative α)}
    {alternative : Alternative α} {content : Json} (hv : variants.lookup kind = some alternative)
    (hne : shape.content ≠ shape.tag) (h : alternative.content.Reads content a) :
    (adjacent shape variants).Reads
      (.object [(shape.tag, .string kind), (shape.content, content)]) a := by
  rintro ⟨origin, depth⟩ hd
  cases depth with
  | zero => exact absurd hd (Nat.not_succ_le_zero _)
  | succ depth =>
    have hcontent : alternative.content ⟨origin, depth⟩ (.ofJson content) = .ok a := by
      refine h _ (Nat.le_trans ?_ (Nat.le_of_succ_le_succ hd))
      exact Nat.le_trans (Nat.le_max_left _ _) (Nat.le_max_right _ _)
    have htag : variant variants ⟨origin, depth⟩ (.ofJson (.string kind)) = .ok alternative :=
      named_of_lookup hv
    unfold adjacent
    simp only [Outline.ofJson, Outline.ofJsonMembers] at htag ⊢
    simp only [Context.enter, Outline.nextMember, Outline.noFurther, Outline.stopFault,
      List.mem_cons, List.not_mem_nil, true_or, or_true, if_true, if_neg hne, htag, hcontent, bind,
      Except.bind, pure, Except.pure]

theorem reads_adjacent_bare {shape : TagShape} {variants : List (String × Alternative α)}
    {alternative : Alternative α} (hv : variants.lookup kind = some alternative)
    (hb : alternative.bare = some a) :
    (adjacent shape variants).Reads (.object [(shape.tag, .string kind)]) a := by
  rintro ⟨origin, depth⟩ hd
  cases depth with
  | zero => exact absurd hd (Nat.not_succ_le_zero _)
  | succ depth =>
    have htag : variant variants ⟨origin, depth⟩ (.ofJson (.string kind)) = .ok alternative :=
      named_of_lookup hv
    unfold adjacent
    simp only [Outline.ofJson, Outline.ofJsonMembers] at htag ⊢
    simp only [Context.enter, Outline.nextMember, Outline.stopFault, List.mem_cons,
      List.not_mem_nil, true_or, if_true, htag, hb, bind, Except.bind, pure, Except.pure]

theorem reads_noFields (a : α) : (noFields a).Reads (.object rest) a := fun _ _ => rfl

-- ---------------------------------------------------------------------------
-- Texts
-- ---------------------------------------------------------------------------

end Decoder

/-- All numbers are legible, and nothing nests deeper than texts are read. -/
structure Legible (j : Json) : Prop where
  numbers : ∀ n ∈ j.numbers, n.Legible
  depth : j.depth ≤ 127

instance (j : Json) : Decidable j.Legible :=
  decidable_of_iff ((∀ n ∈ j.numbers, n.Legible) ∧ j.depth ≤ 127)
    ⟨fun h => ⟨h.1, h.2⟩, fun h => ⟨h.numbers, h.depth⟩⟩

/-- What a decoder makes of a value it makes of the value's text. -/
theorem Decoder.decodeText_compact {α : Type} (d : Decoder α) {j : Json} (h : j.Legible) :
    decodeText d j.compact = d {} (.ofJson j) := by
  unfold decodeText
  rw [Outline.ofText_compact j fun n hn => (h.numbers n hn).lasts]
  dsimp only
  cases d {} (.ofJson j) <;> rfl

theorem Decoder.Reads.decodeText {α : Type} {d : Decoder α} {j : Json} {a : α} (h : d.Reads j a)
    (hl : j.Legible) : decodeText d j.compact = .ok a :=
  (Decoder.decodeText_compact d hl).trans (h {} hl.depth)

end Crew.Json
