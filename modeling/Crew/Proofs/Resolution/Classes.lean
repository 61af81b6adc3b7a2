import Crew.Proofs.Json.Distinct
import Crew.Proofs.Resolution.Decision

/-!
# What the classes of a vote tell apart

Payloads that vote by the value at a pointer are of one class if these values are the same, to the
signs of their zeros, and else only if one of them is the text of the other (`classOf_eq_iff`). The
groups that a vote counts are cut in the same way (`classes_agree`).
-/

namespace Crew

namespace Json

/-- The string that has the text of another value, which is no string itself. -/
def IsTextOf (text value : Json) : Prop :=
  value.kind ≠ .string ∧ text = .string value.compact

/-- Equal as values and in the signs of their zeros, or one is the text of the other. -/
def Alike (v w : Json) : Prop :=
  (v.same w = true ∧ v.minusZeros = w.minusZeros) ∨ v.IsTextOf w ∨ w.IsTextOf v

instance (text value : Json) : Decidable (text.IsTextOf value) :=
  inferInstanceAs (Decidable (_ ∧ _))

instance (v w : Json) : Decidable (v.Alike w) := inferInstanceAs (Decidable (_ ∨ _))

end Json

namespace JsonPointer

theorem isFinite_of_follow {steps : List String} {value found : Json} (hv : value.IsFinite)
    (h : follow steps value = some found) : found.IsFinite := by
  induction steps generalizing value with
  | nil =>
    obtain rfl := Option.some.inj h
    exact hv
  | cons step rest ih =>
    cases value with
    | object members =>
      obtain ⟨next, hnext, h⟩ := Option.bind_eq_some_iff.mp h
      obtain ⟨m, hm, rfl⟩ := Option.map_eq_some_iff.mp hnext
      exact ih (Json.isFinite_object.mp hv m (List.mem_of_find?_eq_some hm)) h
    | array items =>
      obtain ⟨next, hnext, h⟩ := Option.bind_eq_some_iff.mp h
      obtain ⟨i, -, hi⟩ := Option.bind_eq_some_iff.mp hnext
      exact ih (Json.isFinite_array.mp hv next (List.mem_of_getElem? hi)) h
    | _ => cases h

end JsonPointer

namespace Classifier

open Json

variable {a b v w : Json}

-- ---------------------------------------------------------------------------
-- The class of a value
-- ---------------------------------------------------------------------------

theorem classOf_text (hn : v ≠ .null) (hs : v.kind ≠ .string) : classOf v = some v.compact := by
  cases v with
  | null => exact absurd rfl hn
  | string s => exact absurd rfl hs
  | _ => rfl

theorem classOf_eq_none_iff : classOf v = none ↔ v = .null := by
  cases v <;> simp [classOf]

theorem kind_eq_string (h : v.kind = .string) : ∃ s, v = .string s := by
  cases v with
  | string s => exact ⟨s, rfl⟩
  | _ => cases h

/-- Values have one class if they are alike. -/
theorem classOf_eq_iff (hv : v.IsFinite) (hw : w.IsFinite) (hvn : v ≠ .null) (hwn : w ≠ .null) :
    classOf v = classOf w ↔ v.Alike w := by
  rw [Alike, ← eq_iff_same hv hw]
  by_cases hvs : v.kind = .string
  · obtain ⟨s, rfl⟩ := kind_eq_string hvs
    by_cases hws : w.kind = .string
    · obtain ⟨t, rfl⟩ := kind_eq_string hws
      simp [classOf, IsTextOf, hvs, hws]
    · have hne : Json.string s ≠ w := fun h => hws (h ▸ rfl)
      rw [classOf_text hwn hws]
      simp [classOf, IsTextOf, hvs, hws, hne]
  · by_cases hws : w.kind = .string
    · obtain ⟨t, rfl⟩ := kind_eq_string hws
      have hne : v ≠ Json.string t := fun h => hvs (h ▸ rfl)
      rw [classOf_text hvn hvs]
      simp [classOf, IsTextOf, hvs, hws, hne, eq_comm]
    · have htexts : ¬ v.IsTextOf w ∧ ¬ w.IsTextOf v :=
        ⟨fun h => hvs (h.2 ▸ rfl), fun h => hws (h.2 ▸ rfl)⟩
      rw [classOf_text hvn hvs, classOf_text hwn hws, Option.some.injEq]
      simp only [htexts, or_false]
      exact ⟨compact_injective hv hw, congrArg compact⟩

-- ---------------------------------------------------------------------------
-- Payloads
-- ---------------------------------------------------------------------------

/-- Both payloads have a value to vote by, and these values are alike. -/
def VotesAlike (p : JsonPointer) (a b : Json) : Prop :=
  ∃ v w, p.find? a = some v ∧ p.find? b = some w ∧ v ≠ .null ∧ w ≠ .null ∧ v.Alike w

/-- Both payloads are of one class. -/
def Meets (classify : Json → Option String) (a b : Json) : Prop :=
  ∃ name, classify a = some name ∧ classify b = some name

theorem meets_ofPointer_iff {p : JsonPointer} (ha : a.IsFinite) (hb : b.IsFinite) :
    Meets (ofPointer p).classify a b ↔ VotesAlike p a b := by
  constructor
  · rintro ⟨name, hname, hname'⟩
    obtain ⟨v, hv, hvname⟩ := Option.bind_eq_some_iff.mp hname
    obtain ⟨w, hw, hwname⟩ := Option.bind_eq_some_iff.mp hname'
    have hvn : v ≠ .null := fun h => by simp [classOf_eq_none_iff.mpr h] at hvname
    have hwn : w ≠ .null := fun h => by simp [classOf_eq_none_iff.mpr h] at hwname
    exact ⟨v, w, hv, hw, hvn, hwn,
      (classOf_eq_iff (JsonPointer.isFinite_of_follow ha hv) (JsonPointer.isFinite_of_follow hb hw)
        hvn hwn).mp (hvname.trans hwname.symm)⟩
  · rintro ⟨v, w, hv, hw, hvn, hwn, halike⟩
    have heq := (classOf_eq_iff (JsonPointer.isFinite_of_follow ha hv)
      (JsonPointer.isFinite_of_follow hb hw) hvn hwn).mpr halike
    cases hname : classOf v with
    | none => exact absurd (classOf_eq_none_iff.mp hname) hvn
    | some name =>
      exact ⟨name, Option.bind_eq_some_iff.mpr ⟨v, hv, hname⟩,
        Option.bind_eq_some_iff.mpr ⟨w, hw, heq.symm.trans hname⟩⟩

end Classifier

namespace Resolver

open Classifier

variable {classify : Json → Option String} {line : List Candidate}

/-- A vote counts two candidates together if their payloads are of one class. -/
theorem grouped_iff {groups' : List (List Candidate)} (h : groups classify line = some groups')
    {c d : Candidate} (hc : c ∈ line) (hd : d ∈ line) :
    (∃ group ∈ groups', c ∈ group ∧ d ∈ group) ↔ Meets classify c.payload d.payload := by
  have hall : ∀ c ∈ line, (classify c.payload).isSome := by
    by_contra hno
    have hnone : ∃ c ∈ line, classify c.payload = none := by simpa using hno
    rw [groups_eq_none hnone] at h
    cases h
  obtain ⟨names, -, hm, hg⟩ := groups_eq hall
  obtain rfl := Option.some.inj (hg.symm.trans h)
  constructor
  · rintro ⟨group, hgroup, hc', hd'⟩
    obtain ⟨name, -, rfl⟩ := List.mem_map.mp hgroup
    rw [members, List.mem_filter, decide_eq_true_eq] at hc' hd'
    exact ⟨name, hc'.2, hd'.2⟩
  · rintro ⟨name, hcn, hdn⟩
    refine ⟨_, List.mem_map_of_mem ((hm name).mpr ⟨c, hc, hcn⟩), ?_, ?_⟩
    · exact List.mem_filter.mpr ⟨hc, decide_eq_true hcn⟩
    · exact List.mem_filter.mpr ⟨hd, decide_eq_true hdn⟩

end Resolver

namespace Classifier

/-- Two payloads are of one class exactly if they vote alike, and then a vote counts them together,
and no others. -/
theorem classes_agree (p : JsonPointer) :
    (∀ a b : Json, a.IsFinite → b.IsFinite →
      (Meets (ofPointer p).classify a b ↔ VotesAlike p a b)) ∧
    ∀ (line : List Candidate) (groups : List (List Candidate)),
      (∀ c ∈ line, c.payload.IsFinite) →
      Resolver.groups (ofPointer p).classify line = some groups →
      ∀ c ∈ line, ∀ d ∈ line,
        (∃ group ∈ groups, c ∈ group ∧ d ∈ group) ↔ VotesAlike p c.payload d.payload := by
  refine ⟨fun a b ha hb => meets_ofPointer_iff ha hb, fun line groups hfinite hg c hc d hd => ?_⟩
  rw [Resolver.grouped_iff hg hc hd]
  exact meets_ofPointer_iff (hfinite c hc) (hfinite d hd)

-- ---------------------------------------------------------------------------
-- Ratings
-- ---------------------------------------------------------------------------

def rating (v : Json) : Json := .object [("sev", v)]

def byRating : JsonPointer := ⟨"/sev"⟩

def ballot (worker : String) (weight : Float) (v : Json) : Candidate := ⟨worker, rating v, weight⟩

def ballots : List Candidate :=
  [ballot "a" 1 (.string "3"), ballot "b" 1 (.nat 3), ballot "c" 5 (.nat 4)]

theorem ballots_counted :
    Resolver.groups (ofPointer byRating).classify ballots =
      some [[ballot "a" 1 (.string "3"), ballot "b" 1 (.nat 3)], [ballot "c" 5 (.nat 4)]] ∧
    VotesAlike byRating (rating (.string "3")) (rating (.nat 3)) ∧
    ¬ VotesAlike byRating (rating (.nat 3)) (rating (.nat 4)) := by
  have hgroups : Resolver.groups (ofPointer byRating).classify ballots =
      some [[ballot "a" 1 (.string "3"), ballot "b" 1 (.nat 3)], [ballot "c" 5 (.nat 4)]] := by
    decide +kernel
  refine ⟨hgroups, ?_, fun halike => ?_⟩
  · exact ((classes_agree byRating).1 _ _ (by decide) (by decide)).mp
      ⟨"3", by decide +kernel, by decide +kernel⟩
  · have hcounted := ((classes_agree byRating).2 ballots _ (by decide +kernel) hgroups
      (ballot "b" 1 (.nat 3)) (by decide +kernel) (ballot "c" 5 (.nat 4)) (by decide +kernel)).mpr
        halike
    revert hcounted
    decide +kernel

/-- Both payloads have a value to vote by, and these are equal as values. -/
def VotesEqual (p : JsonPointer) (a b : Json) : Prop :=
  ∃ v w, p.find? a = some v ∧ p.find? b = some w ∧ v ≠ .null ∧ w ≠ .null ∧ v.same w = true

/-- A text is counted together with the number that it spells, and outvotes a heavier candidate with
it; the two zeros are equal and counted apart. -/
theorem classes_differ_from_values :
    Meets (ofPointer byRating).classify (rating (.string "3")) (rating (.nat 3)) ∧
    ¬ VotesEqual byRating (rating (.string "3")) (rating (.nat 3)) ∧
    (Resolver.vote (ofPointer byRating) ballots).map (·.workerId) = some "a" ∧
    ¬ Meets (ofPointer byRating).classify (rating (.real 0.0)) (rating (.real (-0.0))) ∧
    VotesEqual byRating (rating (.real 0.0)) (rating (.real (-0.0))) := by
  have hfind (v : Json) : byRating.find? (rating v) = some v := by
    have hsteps : byRating.steps = ["sev"] := by decide +kernel
    rw [JsonPointer.find?, hsteps]
    rfl
  refine ⟨⟨"3", by decide +kernel, by decide +kernel⟩, ?_, by decide +kernel, ?_, ?_⟩
  · rintro ⟨v, w, hv, hw, -, -, hsame⟩
    obtain rfl := Option.some.inj ((hfind _).symm.trans hv)
    obtain rfl := Option.some.inj ((hfind _).symm.trans hw)
    cases hsame
  · rintro ⟨name, hplus, hminus⟩
    have hclasses : (ofPointer byRating).classify (rating (.real 0.0)) ≠
        (ofPointer byRating).classify (rating (.real (-0.0))) := by
      decide +kernel
    exact hclasses (hplus.trans hminus.symm)
  · exact ⟨_, _, hfind _, hfind _, nofun, nofun, by decide +kernel⟩

end Classifier

end Crew
