import Mathlib.Data.List.Basic
import Crew.Scaling

/-!
# Excursions

A detector is shown tasks and workers as they are counted from time to time. Each count stands
above the watermarks, below them or inside, and counts in a row that stand on one side are a
stretch. What a detector says is read off the counts alone: it gives a signal at the first count of
a stretch outside that comes when the debounce time has passed since the stretch began, and at no
other (`signals_exact`). So each stretch has at most one signal, and with every change of side the
detector begins anew.

Nothing is said about detectors that are not enabled; they are silent.
-/

namespace Crew

/-- The ready tasks without a worker and the healthy workers, counted at some time. -/
structure Count where
  ready : Nat
  healthy : Nat
  time : Nat
  deriving DecidableEq, Repr

inductive Side where
  | inside
  | above
  | below
  deriving DecidableEq, Repr

namespace Count

def ratio (x : Count) : Option Float := ScalingDetector.ratio x.ready x.healthy

/-- A ratio that is not defined stands inside. -/
def side (config : ScalingConfig) (x : Count) : Side :=
  match x.ratio with
  | none => .inside
  | some r =>
    if config.highWatermark < r then .above
    else if r < config.lowWatermark then .below
    else .inside

def signal? (config : ScalingConfig) (x : Count) : Option ScalingSignal :=
  match x.side config with
  | .inside => none
  | .above => x.ratio.map .up
  | .below => x.ratio.map .down

variable {config : ScalingConfig} {x : Count} {r : Float}

theorem ratio_isSome (h : x.side config ≠ .inside) : x.ratio.isSome := by
  unfold side at h
  split at h
  · exact absurd rfl h
  next hr => rw [hr]; rfl

theorem signal?_eq_up : x.signal? config = some (.up r) ↔
    x.side config = .above ∧ x.ratio = some r := by
  unfold signal?
  split <;> simp_all

theorem signal?_eq_down : x.signal? config = some (.down r) ↔
    x.side config = .below ∧ x.ratio = some r := by
  unfold signal?
  split <;> simp_all

theorem signal?_isSome : (x.signal? config).isSome ↔ x.side config ≠ .inside := by
  have hratio : x.side config ≠ .inside → x.ratio.isSome := ratio_isSome
  unfold signal?
  split <;> simp_all

end Count

namespace Band

/-- The band of a stay on a side; a stay inside is not dated. -/
def of : Side → (since : Nat) → (fired : Bool) → Band
  | .inside, _, _ => .inside
  | .above, since, fired => .above since fired
  | .below, since, fired => .below since fired

/-- Since when one has been on this side, if one is there now, and whether that was signalled. -/
def stay (b : Band) (side : Side) (now : Nat) : Nat × Bool :=
  match side, b with
  | .above, .above since fired => (since, fired)
  | .below, .below since fired => (since, fired)
  | _, _ => (now, false)

theorem stay_of_same {side : Side} (h : side ≠ .inside) (since now : Nat) (fired : Bool) :
    (of side since fired).stay side now = (since, fired) := by
  cases side with
  | inside => exact absurd rfl h
  | above | below => rfl

theorem stay_of_ne {side other : Side} (h : other ≠ side) (since now : Nat) (fired : Bool) :
    (of side since fired).stay other now = (now, false) := by
  cases side <;> cases other <;> first | rfl | exact absurd rfl h

end Band

namespace ScalingDetector

variable {config : ScalingConfig} {d : ScalingDetector} {counts : List Count} {x y : Count}
  {i j n : Nat}

def see (d : ScalingDetector) (x : Count) : ScalingDetector × Option ScalingSignal :=
  d.observe x.ready x.healthy x.time

def after (d : ScalingDetector) (counts : List Count) : ScalingDetector :=
  counts.foldl (fun d x => (d.see x).1) d

def signals (d : ScalingDetector) : List Count → List (Option ScalingSignal)
  | [] => []
  | x :: rest => (d.see x).2 :: (d.see x).1.signals rest

-- ---------------------------------------------------------------------------
-- One count
-- ---------------------------------------------------------------------------

/-- A stay that goes on keeps its beginning, and a count outside is signalled if its stay is due. -/
theorem see_eq (he : d.config.enabled) (x : Count) :
    let stay := d.band.stay (x.side d.config) x.time
    let due := d.due stay.1 x.time stay.2
    d.see x = ({ d with band := .of (x.side d.config) stay.1 (stay.2 || due) },
      if due then x.signal? d.config else none) := by
  intro stay due
  have hinside (h : x.side d.config = .inside) : ({ d with band := .inside }, none) =
      (({ d with band := .of (x.side d.config) stay.1 (stay.2 || due) },
        if due then x.signal? d.config else none) :
          ScalingDetector × Option ScalingSignal) := by
    rw [Count.signal?, h]
    simp [Band.of]
  unfold see observe
  rw [if_neg (by simp [he])]
  split
  next hr => exact hinside (by rw [Count.side, Count.ratio, hr])
  next r hr =>
    have hratio : x.ratio = some r := hr
    split
    next hhigh =>
      have hside : x.side d.config = .above := by rw [Count.side, hratio]; exact if_pos hhigh
      have hsignal : x.signal? d.config = some (.up r) := Count.signal?_eq_up.mpr ⟨hside, hratio⟩
      simp only [stay, due, hside, hsignal, Band.of, Band.stay]
      cases d.band <;> rfl
    next hhigh =>
      split
      next hlow =>
        have hside : x.side d.config = .below := by
          rw [Count.side, hratio]
          exact (if_neg hhigh).trans (if_pos hlow)
        have hsignal : x.signal? d.config = some (.down r) :=
          Count.signal?_eq_down.mpr ⟨hside, hratio⟩
        simp only [stay, due, hside, hsignal, Band.of, Band.stay]
        cases d.band <;> rfl
      next hlow =>
        refine hinside ?_
        rw [Count.side, hratio]
        exact (if_neg hhigh).trans (if_neg hlow)

theorem band_see (he : d.config.enabled) (x : Count) :
    ∃ since fired, (d.see x).1.band = .of (x.side d.config) since fired :=
  ⟨_, _, congrArg (·.1.band) (see_eq he x)⟩

theorem config_see (he : d.config.enabled) (x : Count) : (d.see x).1.config = d.config := by
  rw [see_eq he]

theorem config_after (he : d.config.enabled) (counts : List Count) :
    (d.after counts).config = d.config := by
  induction counts generalizing d with
  | nil => rfl
  | cons x rest ih =>
    have hx := config_see he x
    exact (ih (d := (d.see x).1) (by rwa [hx])).trans hx

theorem getElem?_signals (d : ScalingDetector) (counts : List Count) (i : Nat) :
    (d.signals counts)[i]? = counts[i]?.map fun x => ((d.after (counts.take i)).see x).2 := by
  induction counts generalizing d i with
  | nil => rfl
  | cons x rest ih =>
    cases i with
    | zero => rfl
    | succ i => exact ih (d.see x).1 i

theorem length_signals (d : ScalingDetector) (counts : List Count) :
    (d.signals counts).length = counts.length := by
  induction counts generalizing d with
  | nil => rfl
  | cons x rest ih => exact congrArg (· + 1) (ih _)

theorem signals_append (d : ScalingDetector) (before rest : List Count) :
    d.signals (before ++ rest) = d.signals before ++ (d.after before).signals rest := by
  induction before generalizing d with
  | nil => rfl
  | cons x before ih => exact congrArg ((d.see x).2 :: ·) (ih _)

theorem after_take_succ (d : ScalingDetector) (hx : counts[n]? = some x) :
    d.after (counts.take (n + 1)) = ((d.after (counts.take n)).see x).1 := by
  rw [List.take_add_one, hx, after, List.foldl_append]
  rfl

-- ---------------------------------------------------------------------------
-- Stretches
-- ---------------------------------------------------------------------------

/-- The counts from number `j` up to number `i` stand on one side, and the one before does not. -/
structure Stretch (config : ScalingConfig) (counts : List Count) (j i : Nat) : Prop where
  le : j ≤ i
  same : ∀ k, j ≤ k → k ≤ i → (counts[k]?).map (·.side config) = (counts[i]?).map (·.side config)
  first : ∀ k, k + 1 = j → (counts[k]?).map (·.side config) ≠ (counts[i]?).map (·.side config)

/-- Count number `i` is the first of its stretch that comes when the debounce time has passed since
the stretch began. -/
def Matures (config : ScalingConfig) (counts : List Count) (i : Nat) : Prop :=
  ∃ j began x, Stretch config counts j i ∧ counts[j]? = some began ∧ counts[i]? = some x ∧
    began.time + config.debounce ≤ x.time ∧
    ∀ k y, j ≤ k → k < i → counts[k]? = some y → y.time < began.time + config.debounce

theorem Stretch.unique {j' : Nat} (h : Stretch config counts j i)
    (h' : Stretch config counts j' i) : j = j' := by
  -- of two beginnings the later one would have a count of its own side before it
  have hle {a b : Nat} (ha : Stretch config counts a i) (hb : Stretch config counts b i) :
      b ≤ a := by
    by_contra hlt
    obtain ⟨k, rfl⟩ : ∃ k, b = k + 1 := ⟨b - 1, by omega⟩
    exact hb.first k rfl (ha.same k (by omega) (by have := hb.le; omega))
  exact Nat.le_antisymm (hle h' h) (hle h h')

theorem Stretch.zero (config : ScalingConfig) (counts : List Count) :
    Stretch config counts 0 0 :=
  ⟨Nat.le_refl _, fun k _ hk => by rw [Nat.le_zero.mp hk], nofun⟩

theorem Stretch.extend (h : Stretch config counts j n) (hx : counts[n]? = some x)
    (hy : counts[n + 1]? = some y) (hs : y.side config = x.side config) :
    Stretch config counts j (n + 1) := by
  have hnext : (counts[n + 1]?).map (·.side config) = (counts[n]?).map (·.side config) := by
    rw [hx, hy, Option.map_some, Option.map_some, hs]
  refine ⟨Nat.le_succ_of_le h.le, fun k hj hk => ?_, fun k hk => by rw [hnext]; exact h.first k hk⟩
  rcases Nat.lt_or_eq_of_le hk with hk | rfl
  · rw [hnext]
    exact h.same k hj (Nat.le_of_lt_succ hk)
  · rfl

theorem Stretch.turn (hx : counts[n]? = some x) (hy : counts[n + 1]? = some y)
    (hs : y.side config ≠ x.side config) : Stretch config counts (n + 1) (n + 1) := by
  refine ⟨Nat.le_refl _, fun k hj hk => by rw [Nat.le_antisymm hk hj], fun k hk => ?_⟩
  obtain rfl : k = n := Nat.succ.inj hk
  rw [hx, hy, Option.map_some, Option.map_some]
  exact fun he => hs (Option.some.inj he).symm

theorem time_le (hs : counts.Pairwise (·.time ≤ ·.time)) (hx : counts[j]? = some x)
    (hy : counts[i]? = some y) (hle : j ≤ i) : x.time ≤ y.time := by
  obtain ⟨hj, rfl⟩ := List.getElem?_eq_some_iff.mp hx
  obtain ⟨hi, rfl⟩ := List.getElem?_eq_some_iff.mp hy
  rcases Nat.lt_or_eq_of_le hle with hlt | rfl
  · exact List.pairwise_iff_getElem.mp hs j i hj hi hlt
  · exact Nat.le_refl _

def Reached (counts : List Count) (time j n : Nat) : Prop :=
  ∃ k y, j ≤ k ∧ k < n ∧ counts[k]? = some y ∧ time ≤ y.time

theorem not_reached_self (counts : List Count) (time n : Nat) : ¬ Reached counts time n n := by
  rintro ⟨k, _, hj, hk, -⟩
  exact absurd hk (Nat.not_lt.mpr hj)

theorem reached_succ {time : Nat} (hx : counts[n]? = some x) (hle : j ≤ n) :
    Reached counts time j (n + 1) ↔ Reached counts time j n ∨ time ≤ x.time := by
  constructor
  · rintro ⟨k, y, hj, hk, hy, hlate⟩
    rcases Nat.lt_or_eq_of_le (Nat.le_of_lt_succ hk) with hk | rfl
    · exact .inl ⟨k, y, hj, hk, hy, hlate⟩
    · obtain rfl : x = y := Option.some.inj (hx.symm.trans hy)
      exact .inr hlate
  · rintro (⟨k, y, hj, hk, hy, hlate⟩ | hlate)
    · exact ⟨k, y, hj, Nat.lt_succ_of_lt hk, hy, hlate⟩
    · exact ⟨n, x, hle, Nat.lt_succ_self n, hx, hlate⟩

theorem stay_after (he : config.enabled) (hs : counts.Pairwise (·.time ≤ ·.time))
    (hx : counts[n]? = some x) : ∃ j began, Stretch config counts j n ∧
      counts[j]? = some began ∧ (x.side config ≠ .inside → ∃ fired : Bool,
        (after { config } (counts.take n)).band.stay (x.side config) x.time =
          (began.time, fired) ∧
        (fired ↔ Reached counts (began.time + config.debounce) j n)) := by
  induction n generalizing x with
  | zero =>
    refine ⟨0, x, .zero config counts, hx, fun hside => ⟨false, ?_, ?_⟩⟩
    · exact @Band.stay_of_ne .inside _ hside 0 x.time false
    · simp [not_reached_self]
  | succ n ih =>
    have hlt := (List.getElem?_eq_some_iff.mp hx).1
    obtain ⟨w, hw⟩ : ∃ w, counts[n]? = some w :=
      ⟨_, List.getElem?_eq_getElem (Nat.lt_of_succ_lt hlt)⟩
    obtain ⟨j, began, hstretch, hbegan, hstay⟩ := ih hw
    have hconfig : (after { config } (counts.take n)).config = config := config_after he _
    rw [after_take_succ _ hw, see_eq (by rwa [hconfig]), hconfig]
    dsimp only
    by_cases hside : x.side config = w.side config
    · refine ⟨j, began, hstretch.extend hw hx hside, hbegan, fun hout => ?_⟩
      obtain ⟨fired, hsame, hfired⟩ := hstay (hside ▸ hout)
      rw [hsame, hside, Band.stay_of_same (hside ▸ hout)]
      refine ⟨_, rfl, ?_⟩
      have hle := time_le hs hbegan hw hstretch.le
      rw [reached_succ hw hstretch.le, ← hfired, Bool.or_eq_true, due, hconfig, Bool.and_eq_true,
        decide_eq_true_eq]
      cases fired <;> simp
      omega
    · refine ⟨n + 1, x, .turn hw hx hside, hx, fun _ => ⟨false, ?_, ?_⟩⟩
      · exact Band.stay_of_ne hside _ _ _
      · simp [not_reached_self]

-- ---------------------------------------------------------------------------
-- Signals
-- ---------------------------------------------------------------------------

theorem signals_eq_some_iff (he : config.enabled) (hs : counts.Pairwise (·.time ≤ ·.time))
    (hx : counts[i]? = some x) (signal : ScalingSignal) :
    (signals { config } counts)[i]? = some (some signal) ↔
      x.signal? config = some signal ∧ Matures config counts i := by
  obtain ⟨j, began, hstretch, hbegan, hstay⟩ := stay_after he hs hx
  have hconfig : (after { config } (counts.take i)).config = config := config_after he _
  rw [getElem?_signals, hx, Option.map_some, Option.some.injEq, see_eq (by rwa [hconfig]), hconfig,
    Option.ite_none_right_eq_some, and_comm]
  refine and_congr_right fun hsignal => ?_
  obtain ⟨fired, hsame, hfired⟩ := hstay (Count.signal?_isSome.mp (by rw [hsignal]; rfl))
  have hle := time_le hs hbegan hx hstretch.le
  rw [hsame, due, hconfig, Bool.and_eq_true, Bool.not_eq_true', decide_eq_true_eq,
    ← Bool.not_eq_true, hfired]
  constructor
  · rintro ⟨hfirst, hlate⟩
    refine ⟨j, began, x, hstretch, hbegan, hx, by omega, fun k y hj hk hy => ?_⟩
    exact Nat.lt_of_not_le fun hlate => hfirst ⟨k, y, hj, hk, hy, hlate⟩
  · rintro ⟨j', began', x', hstretch', hbegan', hx', hlate, hfirst⟩
    obtain rfl := hstretch.unique hstretch'
    obtain rfl : began = began' := Option.some.inj (hbegan.symm.trans hbegan')
    obtain rfl : x = x' := Option.some.inj (hx.symm.trans hx')
    refine ⟨?_, by omega⟩
    rintro ⟨k, y, hj, hk, hy, hearly⟩
    exact absurd hearly (Nat.not_le.mpr (hfirst k y hj hk hy))

theorem Matures.unique {i' : Nat} (h : Matures config counts i) (h' : Matures config counts i')
    (hj : Stretch config counts j i) (hj' : Stretch config counts j i') : i = i' := by
  have hle {a b : Nat} (ha : Matures config counts a) (hb : Matures config counts b)
      (hja : Stretch config counts j a) (hjb : Stretch config counts j b) : b ≤ a := by
    obtain ⟨k, began, x, hka, hbegan, hx, hlate, -⟩ := ha
    obtain ⟨l, began', -, hlb, hbegan', -, -, hfirst⟩ := hb
    obtain rfl := hka.unique hja
    obtain rfl := hlb.unique hjb
    obtain rfl : began = began' := Option.some.inj (hbegan.symm.trans hbegan')
    exact Nat.le_of_not_lt fun hlt => Nat.not_lt.mpr hlate (hfirst a x hja.le hlt hx)
  exact Nat.le_antisymm (hle h' h hj' hj) (hle h h' hj hj')

theorem see_of_turn (he : d.config.enabled) {since : Nat} {fired : Bool}
    (hb : d.band = .of (y.side d.config) since fired) (hs : y.side d.config ≠ x.side d.config) :
    d.see x = see { config := d.config } x := by
  have hstay : d.band.stay (x.side d.config) x.time =
      Band.inside.stay (x.side d.config) x.time := by
    rw [hb, Band.stay_of_ne (Ne.symm hs)]
    cases x.side d.config <;> rfl
  rw [see_eq he, see_eq (d := { config := d.config }) he, hstay]
  rfl

theorem signals_of_turn (he : config.enabled) (before rest : List Count)
    (hs : ∀ y ∈ before.getLast?, y.side config ≠ x.side config) :
    signals { config } (before ++ x :: rest) =
      signals { config } before ++ signals { config } (x :: rest) := by
  rw [signals_append]
  refine congrArg (_ ++ ·) ?_
  rcases List.eq_nil_or_concat' before with rfl | ⟨init, y, rfl⟩
  · rfl
  · have hinit : (after { config } init).config = config := config_after he _
    have hconfig : (after { config } (init ++ [y])).config = config := config_after he _
    have hlast : after { config } (init ++ [y]) = ((after { config } init).see y).1 := by
      rw [after, List.foldl_append]
      rfl
    obtain ⟨since, fired, hband⟩ := band_see (d := after { config } init) (by rwa [hinit]) y
    rw [← hlast, hinit] at hband
    have hsee := see_of_turn (x := x) (y := y) (by rwa [hconfig]) (by rw [hconfig]; exact hband)
      (by rw [hconfig]; exact hs y (by simp))
    rw [hconfig] at hsee
    rw [signals, signals, hsee]

/-- What an enabled detector says to counts at times that do not run backwards. A count is answered
with the signal of its side and its ratio exactly if it is the first of its stretch that comes when
the debounce time has passed since the stretch began. So of each stretch at most one count is
answered, and after a count on another side all is as if there had been no counts before. -/
theorem signals_exact (he : config.enabled) (hs : counts.Pairwise (·.time ≤ ·.time)) :
    (signals { config } counts).length = counts.length ∧
    (∀ i x, counts[i]? = some x → ∀ r,
      ((signals { config } counts)[i]? = some (some (.up r)) ↔
        x.side config = .above ∧ x.ratio = some r ∧ Matures config counts i) ∧
      ((signals { config } counts)[i]? = some (some (.down r)) ↔
        x.side config = .below ∧ x.ratio = some r ∧ Matures config counts i)) ∧
    (∀ j i i' s s', Stretch config counts j i → Stretch config counts j i' →
      (signals { config } counts)[i]? = some (some s) →
      (signals { config } counts)[i']? = some (some s') → i = i') ∧
    ∀ before x rest, counts = before ++ x :: rest →
      (∀ y ∈ before.getLast?, y.side config ≠ x.side config) →
      signals { config } counts = signals { config } before ++ signals { config } (x :: rest) := by
  have hmatures {i : Nat} {signal : ScalingSignal}
      (h : (signals { config } counts)[i]? = some (some signal)) : Matures config counts i := by
    have hlt := (List.getElem?_eq_some_iff.mp h).1
    rw [length_signals] at hlt
    exact ((signals_eq_some_iff he hs (List.getElem?_eq_getElem hlt) signal).mp h).2
  refine ⟨length_signals _ _, fun i x hx r => ⟨?_, ?_⟩, fun j i i' s s' hj hj' h h' => ?_, ?_⟩
  · rw [signals_eq_some_iff he hs hx, Count.signal?_eq_up, and_assoc]
  · rw [signals_eq_some_iff he hs hx, Count.signal?_eq_down, and_assoc]
  · exact (hmatures h).unique (hmatures h') hj hj'
  · rintro before x rest rfl hturn
    exact signals_of_turn he before rest hturn

/-- One stretch above is signalled once, a second one after a count inside again, and the one below
that follows it at once has a signal of its own. -/
theorem signals_three_times :
    let config : ScalingConfig :=
      { enabled := true, highWatermark := 2.0, lowWatermark := 0.5, debounce := 100 }
    let counts : List Count :=
      [⟨10, 2, 0⟩, ⟨10, 2, 50⟩, ⟨10, 2, 100⟩, ⟨12, 2, 300⟩, ⟨2, 2, 400⟩, ⟨10, 2, 500⟩, ⟨1, 0, 600⟩,
        ⟨0, 4, 650⟩, ⟨0, 4, 750⟩]
    signals { config } counts = [none, none, some (.up 5.0), none, none, none,
        some (.up (1.0 / 0.0)), none, some (.down 0.0)] ∧
      Matures config counts 2 ∧ ¬ Matures config counts 3 ∧ Matures config counts 8 ∧
      signals { config } counts =
        signals { config } (counts.take 7) ++ signals { config } (counts.drop 7) := by
  intro config counts
  have hsaid : signals { config } counts = [none, none, some (.up 5.0), none, none, none,
      some (.up (1.0 / 0.0)), none, some (.down 0.0)] := by decide +kernel
  have hside : Count.side config ⟨12, 2, 300⟩ = .above := by decide +kernel
  have hratio : Count.ratio ⟨12, 2, 300⟩ = some 6.0 := by decide +kernel
  obtain ⟨-, hexact, -, hturn⟩ := @signals_exact config counts rfl (by decide)
  refine ⟨hsaid, ((hexact 2 ⟨10, 2, 100⟩ rfl 5.0).1.mp (by rw [hsaid]; rfl)).2.2, fun hlate => ?_,
    ((hexact 8 ⟨0, 4, 750⟩ rfl 0.0).2.mp (by rw [hsaid]; rfl)).2.2,
    hturn (counts.take 7) ⟨0, 4, 650⟩ [⟨0, 4, 750⟩] rfl (by decide +kernel)⟩
  have hsignal := (hexact 3 ⟨12, 2, 300⟩ rfl 6.0).1.mpr ⟨hside, hratio, hlate⟩
  rw [hsaid] at hsignal
  cases hsignal

end ScalingDetector

end Crew
