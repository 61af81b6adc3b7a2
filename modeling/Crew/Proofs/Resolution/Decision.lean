import Crew.Proofs.Condensed
import Crew.Proofs.Json.Same
import Crew.Proofs.Resolution.Candidates

/-!
# How results are resolved

The main statement is `resolve_decides`. It says when each strategy applies and which candidate it
takes, in terms of the line of candidates alone.
-/

namespace Crew.Resolver

variable {classify : Json → Option String} {line group : List Candidate} {name : String}
variable {winner : Candidate}

-- ---------------------------------------------------------------------------
-- The rules
-- ---------------------------------------------------------------------------

/-- All payloads are the same value. -/
def Agree (line : List Candidate) : Prop :=
  ∀ a ∈ line, ∀ b ∈ line, a.payload.same b.payload = true

def Disputed (line : List Candidate) : Prop := 2 ≤ line.length ∧ ¬ Agree line

/-- Heavier than all before it and no lighter than those after it. -/
def Heaviest (line : List Candidate) (winner : Candidate) : Prop :=
  ∃ before after, line = before ++ winner :: after ∧
    (∀ c ∈ before, totalOrderKey c.trustWeight < totalOrderKey winner.trustWeight) ∧
    ∀ c ∈ after, totalOrderKey c.trustWeight ≤ totalOrderKey winner.trustWeight

def IsClass (classify : Json → Option String) (line : List Candidate) (name : String) : Prop :=
  ∃ c ∈ line, classify c.payload = some name

def members (classify : Json → Option String) (line : List Candidate) (name : String) :
    List Candidate :=
  line.filter fun c => classify c.payload = some name

def LeadsByCount (classify : Json → Option String) (line : List Candidate) (name : String) :
    Prop :=
  IsClass classify line name ∧ ∀ other, IsClass classify line other →
    (members classify line other).length ≤ (members classify line name).length

def LeadsByWeight (classify : Json → Option String) (line : List Candidate) (name : String) :
    Prop :=
  LeadsByCount classify line name ∧ ∀ other, LeadsByCount classify line other →
    weightOf (members classify line other) ≤ weightOf (members classify line name)

/-- The class leads alone, by count or by weight among those that lead by count. -/
def Elected (classify : Json → Option String) (line : List Candidate) (name : String) : Prop :=
  (∀ other, LeadsByCount classify line other ↔ other = name) ∨
    ∀ other, LeadsByWeight classify line other ↔ other = name

/-- The vote is held, and these are the candidates of the class that is elected. -/
def Elects (classifier : Option Classifier) (line group : List Candidate) : Prop :=
  ∃ k name, classifier = some k ∧ (∀ c ∈ line, (k.classify c.payload).isSome) ∧
    Elected k.classify line name ∧ group = members k.classify line name

def Wins (classifier : Option Classifier) (line : List Candidate) (winner : Candidate) :
    ResolutionStrategy → Prop
  | .single | .exactMatch => line.head? = some winner
  | .weightedVote => ∃ group, Elects classifier line group ∧ Heaviest group winner
  | .priorityFallback => Heaviest line winner

-- ---------------------------------------------------------------------------
-- The heaviest candidate
-- ---------------------------------------------------------------------------

theorem Heaviest.le (h : Heaviest line winner) {c : Candidate} (hc : c ∈ line) :
    totalOrderKey c.trustWeight ≤ totalOrderKey winner.trustWeight := by
  obtain ⟨before, after, rfl, hbefore, hafter⟩ := h
  rcases List.mem_append.mp hc with hc | hc
  · exact Int.le_of_lt (hbefore c hc)
  · rcases List.mem_cons.mp hc with rfl | hc
    · exact Int.le_refl _
    · exact hafter c hc

theorem mostTrusted_concat (line : List Candidate) (c : Candidate) :
    mostTrusted (line ++ [c]) = match mostTrusted line with
      | some b =>
        if totalOrderKey b.trustWeight < totalOrderKey c.trustWeight then some c else some b
      | none => some c := by
  rw [mostTrusted, List.foldl_append, ← mostTrusted]
  cases mostTrusted line <;> rfl

theorem heaviest_of_ne_nil (h : line ≠ []) :
    ∃ winner, mostTrusted line = some winner ∧ Heaviest line winner := by
  induction line using List.reverseRecOn with
  | nil => exact absurd rfl h
  | append_singleton line c ih =>
    rw [mostTrusted_concat]
    by_cases hline : line = []
    · subst hline
      exact ⟨c, rfl, [], [], rfl, by simp, by simp⟩
    · obtain ⟨best, hbest, hheavy⟩ := ih hline
      rw [hbest]
      dsimp only
      split
      next hlt =>
        exact ⟨c, rfl, line, [], rfl, fun b hb => Int.lt_of_le_of_lt (hheavy.le hb) hlt, by simp⟩
      next hlt =>
        obtain ⟨before, after, rfl, hbefore, hafter⟩ := hheavy
        refine ⟨best, rfl, before, after ++ [c], by simp, hbefore, fun b hb => ?_⟩
        rcases List.mem_append.mp hb with hb | hb
        · exact hafter b hb
        · rw [List.mem_singleton.mp hb]
          exact Int.not_lt.mp hlt

-- ---------------------------------------------------------------------------
-- The classes
-- ---------------------------------------------------------------------------

theorem mapM_classify (h : ∀ c ∈ line, (classify c.payload).isSome) :
    line.mapM (fun c => classify c.payload) =
      some (line.map fun c => (classify c.payload).getD "") := by
  induction line with
  | nil => rfl
  | cons c rest ih =>
    obtain ⟨name, hname⟩ := Option.isSome_iff_exists.mp (h c List.mem_cons_self)
    rw [List.mapM_cons, hname, ih fun d hd => h d (List.mem_cons_of_mem _ hd)]
    simp [hname]

theorem groups_eq_none (h : ∃ c ∈ line, classify c.payload = none) :
    groups classify line = none := by
  have hnone : line.mapM (fun c => classify c.payload) = none := by
    induction line with
    | nil => simp at h
    | cons c rest ih =>
      rw [List.mapM_cons]
      cases hc : classify c.payload with
      | none => rfl
      | some name =>
        obtain ⟨d, hd, hnone⟩ := h
        rcases List.mem_cons.mp hd with rfl | hd
        · rw [hc] at hnone
          cases hnone
        · simp [ih ⟨d, hd, hnone⟩]
  rw [groups, hnone]
  rfl

theorem groups_eq (h : ∀ c ∈ line, (classify c.payload).isSome) :
    ∃ names : List String, names.Nodup ∧ (∀ name, name ∈ names ↔ IsClass classify line name) ∧
      groups classify line = some (names.map (members classify line)) := by
  have hclass (name : String) {c : Candidate} (hc : c ∈ line) :
      (classify c.payload).getD "" = name ↔ classify c.payload = some name := by
    obtain ⟨own, hown⟩ := Option.isSome_iff_exists.mp (h c hc)
    simp [hown]
  refine ⟨_, (Condensed.eraseDups (line.map fun c => (classify c.payload).getD "")).nodup, ?_, ?_⟩
  · intro name
    rw [List.mem_eraseDups, List.mem_map]
    exact exists_congr fun c => and_congr_right fun hc => hclass name hc
  · have hzip : (line.map fun c => (classify c.payload).getD "").zip line =
        line.map fun c => ((classify c.payload).getD "", c) :=
      List.map_prod_right_eq_zip.symm
    rw [groups, mapM_classify h]
    simp only [Option.bind_eq_bind, Option.bind_some, Option.pure_def, hzip, Option.some.injEq]
    refine List.map_congr_left fun name _ => ?_
    rw [List.filter_map, List.map_map]
    refine (List.map_id _).trans (List.filter_congr fun c hc => ?_)
    exact decide_eq_decide.mpr (hclass name hc)

-- ---------------------------------------------------------------------------
-- The election
-- ---------------------------------------------------------------------------

section

variable {α β : Type} {rank : α → Int} {xs : List α} {x : α}

theorem mem_greatest : x ∈ greatest rank xs ↔ x ∈ xs ∧ ∀ y ∈ xs, rank y ≤ rank x := by
  simp [greatest]

theorem greatest_map (rank : β → Int) (f : α → β) (xs : List α) :
    greatest rank (xs.map f) = (greatest (rank ∘ f) xs).map f := by
  simp [greatest, List.filter_map, Function.comp_def]

theorem nodup_greatest (h : xs.Nodup) : (greatest rank xs).Nodup := h.filter _

def alone? : List α → Option α
  | [x] => some x
  | _ => none

theorem alone?_eq_some_iff : alone? xs = some x ↔ xs = [x] := by
  match xs with
  | [] => simp [alone?]
  | [y] => simp [alone?]
  | y :: z :: rest => simp [alone?]

theorem alone?_eq_none (h : ∀ x, xs ≠ [x]) : alone? xs = none := by
  match xs with
  | [] => rfl
  | [y] => exact absurd rfl (h y)
  | y :: z :: rest => rfl

theorem alone?_map (f : α → β) (xs : List α) : alone? (xs.map f) = (alone? xs).map f := by
  match xs with
  | [] => rfl
  | [y] => rfl
  | y :: z :: rest => rfl

theorem alone?_eq_some_iff_of_nodup (h : xs.Nodup) :
    alone? xs = some x ↔ ∀ y, y ∈ xs ↔ y = x := by
  rw [alone?_eq_some_iff, ← List.perm_singleton,
    List.perm_ext_iff_of_nodup h (List.nodup_singleton x)]
  simp only [List.mem_singleton]

end

def countLeaders (classify : Json → Option String) (line : List Candidate)
    (names : List String) : List String :=
  greatest (fun name => ((members classify line name).length : Int)) names

def weightLeaders (classify : Json → Option String) (line : List Candidate)
    (names : List String) : List String :=
  greatest (fun name => weightOf (members classify line name)) (countLeaders classify line names)

def elect (classify : Json → Option String) (line : List Candidate) (names : List String) :
    Option String :=
  (alone? (countLeaders classify line names)).or (alone? (weightLeaders classify line names))

variable {names : List String}

theorem mem_countLeaders (hm : ∀ name, name ∈ names ↔ IsClass classify line name) :
    name ∈ countLeaders classify line names ↔ LeadsByCount classify line name := by
  rw [countLeaders, mem_greatest, hm, LeadsByCount]
  simp only [hm, Int.ofNat_le]

theorem mem_weightLeaders (hm : ∀ name, name ∈ names ↔ IsClass classify line name) :
    name ∈ weightLeaders classify line names ↔ LeadsByWeight classify line name := by
  rw [weightLeaders, mem_greatest, mem_countLeaders hm, LeadsByWeight]
  simp only [mem_countLeaders hm]

theorem elect_eq_some_iff (hn : names.Nodup)
    (hm : ∀ name, name ∈ names ↔ IsClass classify line name) :
    elect classify line names = some name ↔ Elected classify line name := by
  have hcounted : (countLeaders classify line names).Nodup := nodup_greatest hn
  have hweighed : (weightLeaders classify line names).Nodup := nodup_greatest hcounted
  have hcount (name : String) : alone? (countLeaders classify line names) = some name ↔
      ∀ other, LeadsByCount classify line other ↔ other = name := by
    rw [alone?_eq_some_iff_of_nodup hcounted]
    simp only [mem_countLeaders hm]
  have hweight : alone? (weightLeaders classify line names) = some name ↔
      ∀ other, LeadsByWeight classify line other ↔ other = name := by
    rw [alone?_eq_some_iff_of_nodup hweighed]
    simp only [mem_weightLeaders hm]
  constructor
  · intro h
    rcases Option.or_eq_some_iff.mp h with h | ⟨-, h⟩
    · exact .inl ((hcount name).mp h)
    · exact .inr (hweight.mp h)
  · rintro (h | h)
    · exact Option.or_eq_some_iff.mpr (.inl ((hcount name).mpr h))
    · rw [elect, hweight.mpr h]
      cases halone : alone? (countLeaders classify line names) with
      | none => rfl
      | some other =>
        -- a class that leads by weight leads by count
        have hlead : LeadsByCount classify line name := ((h name).mpr rfl).1
        rw [((hcount other).mp halone name).mp hlead]
        rfl

theorem vote_eq_alone {k : Classifier} {gs : List (List Candidate)}
    (hg : groups k.classify line = some gs) :
    vote k line = ((alone? (greatest (fun g => (g.length : Int)) gs)).or
      (alone? (greatest weightOf (greatest (fun g => (g.length : Int)) gs)))).bind mostTrusted := by
  rw [vote, hg, Option.bind_eq_bind, Option.bind_some]
  split
  next g hone =>
    rw [hone]
    rfl
  next hmany =>
    rw [alone?_eq_none hmany, Option.none_or]
    split
    next g hone =>
      rw [hone]
      rfl
    next hnone =>
      rw [alone?_eq_none hnone]
      rfl

theorem vote_eq {k : Classifier} (hg : groups k.classify line =
      some (names.map (members k.classify line))) :
    vote k line = (elect k.classify line names).bind fun name =>
      mostTrusted (members k.classify line name) := by
  have hcount : greatest (fun g : List Candidate => (g.length : Int))
      (names.map (members k.classify line)) =
        (countLeaders k.classify line names).map (members k.classify line) :=
    greatest_map _ _ _
  have hweight : greatest weightOf
      ((countLeaders k.classify line names).map (members k.classify line)) =
        (weightLeaders k.classify line names).map (members k.classify line) :=
    greatest_map _ _ _
  rw [vote_eq_alone hg, hcount, hweight, alone?_map, alone?_map, ← Option.map_or, Option.bind_map]
  rfl

theorem members_ne_nil (h : IsClass classify line name) : members classify line name ≠ [] := by
  obtain ⟨c, hc, hname⟩ := h
  exact List.ne_nil_of_mem (List.mem_filter.mpr ⟨hc, decide_eq_true hname⟩)

theorem Elected.isClass (h : Elected classify line name) : IsClass classify line name := by
  rcases h with h | h
  · exact ((h name).mpr rfl).1
  · exact ((h name).mpr rfl).1.1

-- ---------------------------------------------------------------------------
-- The vote
-- ---------------------------------------------------------------------------

variable {classifier : Option Classifier}

theorem vote_of_elects (h : Elects classifier line group) :
    ∃ winner, (classifier.bind fun k => vote k line) = some winner ∧ Heaviest group winner := by
  obtain ⟨k, name, rfl, hall, helected, rfl⟩ := h
  obtain ⟨names, hn, hm, hg⟩ := groups_eq hall
  obtain ⟨winner, hwinner, hheavy⟩ := heaviest_of_ne_nil (members_ne_nil helected.isClass)
  refine ⟨winner, ?_, hheavy⟩
  rw [Option.bind_some, vote_eq hg, (elect_eq_some_iff hn hm).mpr helected, Option.bind_some,
    hwinner]

theorem vote_of_not_elects (h : ∀ group, ¬ Elects classifier line group) :
    (classifier.bind fun k => vote k line) = none := by
  cases classifier with
  | none => rfl
  | some k =>
    rw [Option.bind_some]
    by_cases hall : ∀ c ∈ line, (k.classify c.payload).isSome
    · obtain ⟨names, hn, hm, hg⟩ := groups_eq hall
      rw [vote_eq hg]
      cases he : elect k.classify line names with
      | none => rfl
      | some name =>
        exact absurd ⟨k, name, rfl, hall, (elect_eq_some_iff hn hm).mp he, rfl⟩ (h _)
    · have hnone : ∃ c ∈ line, k.classify c.payload = none := by simpa using hall
      rw [vote, groups_eq_none hnone]
      rfl

-- ---------------------------------------------------------------------------
-- The decision
-- ---------------------------------------------------------------------------

theorem agree_cons_iff {first second : Candidate} {rest : List Candidate} :
    Agree (first :: second :: rest) ↔
      ∀ c ∈ second :: rest, c.payload.same first.payload = true := by
  constructor
  · intro h c hc
    exact h c (List.mem_cons_of_mem _ hc) first List.mem_cons_self
  · intro h
    -- what equals the second payload equals itself
    have hsecond := h second List.mem_cons_self
    have hfirst : first.payload.same first.payload = true :=
      Json.same_trans (Json.same_symm hsecond) hsecond
    have hall : ∀ c ∈ first :: second :: rest, c.payload.same first.payload = true := by
      intro c hc
      rcases List.mem_cons.mp hc with rfl | hc
      · exact hfirst
      · exact h c hc
    exact fun a ha b hb => Json.same_trans (hall a ha) (Json.same_symm (hall b hb))

def IsContested (strategy : ResolutionStrategy) : Prop :=
  strategy = .weightedVote ∨ strategy = .priorityFallback

instance (strategy : ResolutionStrategy) : Decidable (IsContested strategy) :=
  inferInstanceAs (Decidable (_ ∨ _))

/-- The answer that takes a winner from a line of candidates. -/
def Takes (taskId : String) (line : List Candidate) (winner : Candidate)
    (r : CanonicalResult) : Prop :=
  r.taskId = taskId ∧ r.payload = winner.payload ∧ r.workerId = winner.workerId ∧
    r.conflict = if IsContested r.strategy then
      some ⟨taskId, r.strategy, winner, line.filter fun c => !c.payload.same winner.payload⟩
    else none

variable {taskId : String}

/-- The five ways in which a line of candidates is resolved. -/
inductive Ruling (classifier : Option Classifier) (taskId : String) :
    List Candidate → Option CanonicalResult → Prop
  | none : Ruling classifier taskId [] none
  | single (only : Candidate) :
    Ruling classifier taskId [only] (some (canonical taskId only .single none))
  | exactMatch {first : Candidate} {rest : List Candidate} (hrest : rest ≠ [])
    (ha : Agree (first :: rest)) :
    Ruling classifier taskId (first :: rest) (some (canonical taskId first .exactMatch none))
  | weightedVote {line group : List Candidate} {winner : Candidate} (hd : Disputed line)
    (he : Elects classifier line group) (hw : Heaviest group winner) :
    Ruling classifier taskId line (some (contested taskId line winner .weightedVote))
  | priorityFallback {line : List Candidate} {winner : Candidate} (hd : Disputed line)
    (he : ∀ group, ¬ Elects classifier line group) (hw : Heaviest line winner) :
    Ruling classifier taskId line (some (contested taskId line winner .priorityFallback))

theorem ruling_resolve (resolver : Resolver) (taskId : String) (results : List TaskResult)
    (trust : TrustTable) : Ruling resolver.classifier taskId (candidates results trust)
      (resolver.resolve taskId results trust) := by
  rw [resolve]
  match candidates results trust with
  | [] => exact .none
  | [only] => exact .single only
  | first :: second :: rest =>
    dsimp only
    split
    next hall =>
      exact .exactMatch (List.cons_ne_nil _ _) (agree_cons_iff.mpr (List.all_eq_true.mp hall))
    next hall =>
      have hd : Disputed (first :: second :: rest) :=
        ⟨by simp, fun ha => hall (List.all_eq_true.mpr (agree_cons_iff.mp ha))⟩
      by_cases he : ∃ group, Elects resolver.classifier (first :: second :: rest) group
      · obtain ⟨group, he⟩ := he
        obtain ⟨winner, hvote, hw⟩ := vote_of_elects he
        rw [hvote]
        exact .weightedVote hd he hw
      · obtain ⟨winner, hwinner, hw⟩ := heaviest_of_ne_nil (List.cons_ne_nil first (second :: rest))
        rw [vote_of_not_elects (not_exists.mp he), hwinner]
        exact .priorityFallback hd (not_exists.mp he) hw

theorem candidates_eq_nil_iff {results : List TaskResult} {trust : TrustTable} :
    candidates results trust = [] ↔ ∀ r ∈ results, r.outcome.isSuccess = false := by
  have hlength : (candidates results trust).length =
      (results.filter (·.outcome.isSuccess)).length := by
    rw [(lined_candidates results trust).perm.length_eq, ← List.length_map (f := (·.workerId)),
      map_workerId_answers, List.length_map]
  rw [← List.length_eq_zero_iff, hlength, List.length_eq_zero_iff]
  simp

variable {answer : Option CanonicalResult}

theorem Ruling.eq_none_iff (h : Ruling classifier taskId line answer) :
    answer = .none ↔ line = [] := by
  cases h with
  | none | single | exactMatch => simp
  | weightedVote hd | priorityFallback hd =>
    have hne : line ≠ [] := fun he => by simp [he, Disputed] at hd
    simp [hne]

theorem Ruling.strategy (h : Ruling classifier taskId line answer) :
    (answer.map (·.strategy) = some .single ↔ line.length = 1) ∧
    (answer.map (·.strategy) = some .exactMatch ↔ 2 ≤ line.length ∧ Agree line) ∧
    (answer.map (·.strategy) = some .weightedVote ↔
      Disputed line ∧ ∃ group, Elects classifier line group) ∧
    (answer.map (·.strategy) = some .priorityFallback ↔
      Disputed line ∧ ¬ ∃ group, Elects classifier line group) := by
  cases h with
  | none => simp [Disputed]
  | single only => simp [Disputed, canonical]
  | exactMatch hrest ha =>
    have hlength := List.length_pos_iff.mpr hrest
    simp [Disputed, canonical, ha, hrest]
    omega
  | weightedVote hd he hw =>
    have hne : line.length ≠ 1 := Nat.ne_of_gt hd.1
    have helects : ∃ group, Elects classifier line group := ⟨_, he⟩
    simp [contested, canonical, hd, hd.2, hne, helects]
  | priorityFallback hd he hw =>
    have hne : line.length ≠ 1 := Nat.ne_of_gt hd.1
    simp [contested, canonical, hd, hd.2, hne, he]

theorem Ruling.takes (h : Ruling classifier taskId line answer) {r : CanonicalResult}
    (hr : answer = some r) :
    ∃ winner, Wins classifier line winner r.strategy ∧ Takes taskId line winner r := by
  cases h with
  | none => cases hr
  | single only =>
    obtain rfl := Option.some.inj hr
    exact ⟨only, rfl, rfl, rfl, rfl, rfl⟩
  | exactMatch =>
    obtain rfl := Option.some.inj hr
    exact ⟨_, rfl, rfl, rfl, rfl, rfl⟩
  | weightedVote hd he hw =>
    obtain rfl := Option.some.inj hr
    exact ⟨_, ⟨_, he, hw⟩, rfl, rfl, rfl, rfl⟩
  | priorityFallback hd he hw =>
    obtain rfl := Option.some.inj hr
    exact ⟨_, hw, rfl, rfl, rfl, rfl⟩

theorem resolve_decides (resolver : Resolver) (taskId : String) (results : List TaskResult)
    (trust : TrustTable) :
    let line := candidates results trust
    let answer := resolver.resolve taskId results trust
    Lined trust results line ∧
    (answer = none ↔ ∀ r ∈ results, r.outcome.isSuccess = false) ∧
    (answer.map (·.strategy) = some .single ↔ line.length = 1) ∧
    (answer.map (·.strategy) = some .exactMatch ↔ 2 ≤ line.length ∧ Agree line) ∧
    (answer.map (·.strategy) = some .weightedVote ↔
      Disputed line ∧ ∃ group, Elects resolver.classifier line group) ∧
    (answer.map (·.strategy) = some .priorityFallback ↔
      Disputed line ∧ ¬ ∃ group, Elects resolver.classifier line group) ∧
    ∀ r, answer = some r →
      ∃ winner, Wins resolver.classifier line winner r.strategy ∧ Takes taskId line winner r := by
  intro line answer
  have hruling : Ruling resolver.classifier taskId line answer :=
    ruling_resolve resolver taskId results trust
  obtain ⟨hsingle, hexact, hvote, hfallback⟩ := hruling.strategy
  refine ⟨lined_candidates results trust, ?_, hsingle, hexact, hvote, hfallback, ?_⟩
  · rw [hruling.eq_none_iff]
    exact candidates_eq_nil_iff
  · intro r hr
    exact hruling.takes hr

end Crew.Resolver
