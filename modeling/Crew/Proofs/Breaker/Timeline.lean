import Mathlib.Data.List.Induction
import Crew.Breaker

/-!
# The timeline of a circuit breaker

A fresh breaker hears of outcomes and is asked for its health, at times that do not run backwards.
`Reaction` lists everything that one such occasion can do. The state of the breaker is then read off
what it heard and announced: how many failures came in a row, when it last opened, and in which
order it opened, half-opened and closed (`breaker_timeline`).

Nothing is said about who asks, nor about the load of the worker while its circuit is half open.
-/

namespace Crew

inductive Signal where
  | failure
  | success
  | refresh
  deriving DecidableEq, Repr

structure Occasion where
  time : Nat
  signal : Signal
  deriving DecidableEq, Repr

namespace BreakerRules

def hear (rules : BreakerRules) (b : Breaker) (e : Occasion) : Breaker × Option BreakerTransition :=
  match e.signal with
  | .failure => rules.onFailure b e.time
  | .success => rules.onSuccess b
  | .refresh => rules.refresh b e.time

def after (rules : BreakerRules) (events : List Occasion) : Breaker :=
  events.foldl (fun b e => (rules.hear b e).1) {}

/-- The transitions that a breaker announces from some state on, with their times. -/
def announces (rules : BreakerRules) (b : Breaker) : List Occasion → List (Nat × BreakerTransition)
  | [] => []
  | e :: rest =>
    ((rules.hear b e).2.map fun t => (e.time, t)).toList ++ rules.announces (rules.hear b e).1 rest

def log (rules : BreakerRules) (events : List Occasion) : List (Nat × BreakerTransition) :=
  rules.announces {} events

variable {rules : BreakerRules} {b b' : Breaker} {e : Occasion} {said : Option BreakerTransition}
  {events : List Occasion}

@[simp] theorem after_concat :
    rules.after (events ++ [e]) = (rules.hear (rules.after events) e).1 := by
  simp [after]

theorem announces_append (before rest : List Occasion) (b : Breaker) :
    rules.announces b (before ++ rest) =
      rules.announces b before ++
        rules.announces (before.foldl (fun b e => (rules.hear b e).1) b) rest := by
  induction before generalizing b with
  | nil => rfl
  | cons e before ih => simp [announces, ih]

@[simp] theorem log_concat : rules.log (events ++ [e]) =
    rules.log events ++
      ((rules.hear (rules.after events) e).2.map fun t => (e.time, t)).toList := by
  rw [log, announces_append]
  simp [announces, log, after]

-- ---------------------------------------------------------------------------
-- One occasion
-- ---------------------------------------------------------------------------

/-- The failures counted after one more; the counter stops at its limit. -/
def raised (b : Breaker) : Nat := min (b.failures + 1) Task.counterLimit

def Due (rules : BreakerRules) (b : Breaker) (now : Nat) : Prop :=
  b.health = .circuitOpen ∧ ∃ opened, b.openedAt = some opened ∧ rules.cooldown ≤ now - opened

/-- All that an occasion can do to a breaker, and what is announced of it. -/
inductive Reaction (rules : BreakerRules) (b : Breaker) (e : Occasion) :
    Breaker → Option BreakerTransition → Prop
  | counts (hs : e.signal = .failure) (hd : b.health ≠ .degraded)
      (hh : b.health = .healthy → raised b < rules.threshold) :
      Reaction rules b e { b with failures := raised b } none
  | opens (hs : e.signal = .failure)
      (hh : b.health = .healthy ∧ rules.threshold ≤ raised b ∨ b.health = .degraded) :
      Reaction rules b e
        { b with failures := raised b, health := .circuitOpen, openedAt := some e.time }
        (some .opened)
  | forgives (hs : e.signal = .success) (hd : b.health ≠ .degraded) :
      Reaction rules b e { b with failures := 0 } none
  | closes (hs : e.signal = .success) (hd : b.health = .degraded) :
      Reaction rules b e { health := .healthy, failures := 0, openedAt := none } (some .closed)
  | stays (hs : e.signal = .refresh) (hd : ¬ rules.Due b e.time) : Reaction rules b e b none
  | halfOpens (hs : e.signal = .refresh) (hd : rules.Due b e.time) :
      Reaction rules b e { b with health := .degraded } (some .halfOpened)

theorem hear_reaction (rules : BreakerRules) (b : Breaker) (e : Occasion) :
    Reaction rules b e (rules.hear b e).1 (rules.hear b e).2 := by
  unfold hear
  split
  next hs =>
    unfold onFailure
    dsimp only
    split
    next hh =>
      split
      next hle => exact .opens hs (.inl ⟨hh, hle⟩)
      next hlt => exact .counts hs (by simp [hh]) fun _ => Nat.lt_of_not_le hlt
    next hh => exact .opens hs (.inr hh)
    next hh => exact .counts hs (by simp [hh]) (by simp [hh])
  next hs =>
    unfold onSuccess
    split
    next hh => exact .closes hs hh
    next hh => exact .forgives hs (by simp [hh])
    next hh => exact .forgives hs (by simp [hh])
  next hs =>
    unfold refresh
    split
    next opened hh ho =>
      split
      next hle => exact .halfOpens hs ⟨hh, opened, ho, hle⟩
      next hlt =>
        refine .stays hs ?_
        rintro ⟨-, opened', ho', hle⟩
        obtain rfl := Option.some.inj (ho.symm.trans ho')
        exact hlt hle
    next hno =>
      refine .stays hs ?_
      rintro ⟨hh, opened, ho, -⟩
      exact hno opened hh ho

theorem Reaction.opened_iff (h : Reaction rules b e b' said) : said = some .opened ↔
    e.signal = .failure ∧
      (b.health = .healthy ∧ rules.threshold ≤ raised b ∨ b.health = .degraded) := by
  cases h with
  | counts hs hd hh =>
    refine ⟨fun h => (nomatch h), ?_⟩
    rintro ⟨-, ⟨h, hle⟩ | h⟩
    · exact absurd (hh h) (Nat.not_lt.mpr hle)
    · exact absurd h hd
  | opens hs hh => exact ⟨fun _ => ⟨hs, hh⟩, fun _ => rfl⟩
  | _ hs => simp [hs]

theorem Reaction.halfOpened_iff (h : Reaction rules b e b' said) : said = some .halfOpened ↔
    e.signal = .refresh ∧ rules.Due b e.time := by
  cases h with
  | stays hs hd => simp [hd]
  | halfOpens hs hd => exact ⟨fun _ => ⟨hs, hd⟩, fun _ => rfl⟩
  | _ hs => simp [hs]

theorem Reaction.closed_iff (h : Reaction rules b e b' said) : said = some .closed ↔
    e.signal = .success ∧ b.health = .degraded := by
  cases h with
  | forgives hs hd => simp [hd]
  | closes hs hd => exact ⟨fun _ => ⟨hs, hd⟩, fun _ => rfl⟩
  | _ hs => simp [hs]

-- ---------------------------------------------------------------------------
-- Failures in a row
-- ---------------------------------------------------------------------------

def streak (events : List Occasion) : Nat :=
  (events.reverse.takeWhile (·.signal ≠ .success)).countP (·.signal = .failure)

theorem streak_concat : streak (events ++ [e]) =
    match e.signal with
    | .failure => streak events + 1
    | .success => 0
    | .refresh => streak events := by
  cases hs : e.signal <;> simp [streak, hs]

theorem Reaction.failures (h : Reaction rules b e b' said) : b'.failures =
    match e.signal with
    | .failure => raised b
    | .success => 0
    | .refresh => b.failures := by
  cases h with
  | _ hs => rw [hs]

/-- The counter holds the failures in a row, whatever the health was when they came in. -/
theorem failures_after (rules : BreakerRules) (events : List Occasion) :
    (rules.after events).failures = min (streak events) Task.counterLimit := by
  induction events using List.reverseRecOn with
  | nil => rfl
  | append_singleton events e ih =>
    rw [after_concat, (hear_reaction rules (rules.after events) e).failures, streak_concat]
    cases e.signal with
    | failure =>
      dsimp only
      rw [raised, ih]
      omega
    | success => rfl
    | refresh => exact ih

-- ---------------------------------------------------------------------------
-- The state of a breaker and what it has announced
-- ---------------------------------------------------------------------------

/-- So many times opened and then half-opened. -/
def trials (n : Nat) : List BreakerTransition := (List.replicate n [.opened, .halfOpened]).flatten

/-- All that is announced from the first opening of a closed breaker until it closes again. -/
def outage (n : Nat) : List BreakerTransition := trials (n + 1) ++ [.closed]

theorem trials_succ (n : Nat) : trials (n + 1) = trials n ++ [.opened, .halfOpened] := by
  simp [trials, List.replicate_succ']

/-- What has been announced by a breaker in a state of health. -/
def Announced : Health → List BreakerTransition → Prop
  | .healthy, kinds => ∃ ns : List Nat, kinds = ns.flatMap outage
  | .circuitOpen, kinds =>
    ∃ (ns : List Nat) (n : Nat), kinds = ns.flatMap outage ++ trials n ++ [.opened]
  | .degraded, kinds => ∃ (ns : List Nat) (n : Nat), kinds = ns.flatMap outage ++ trials (n + 1)

theorem Announced.isPrefix {health : Health} {kinds : List BreakerTransition}
    (h : Announced health kinds) : ∃ ns : List Nat, kinds <+: ns.flatMap outage := by
  cases health with
  | healthy =>
    obtain ⟨ns, rfl⟩ := h
    exact ⟨ns, List.prefix_rfl⟩
  | circuitOpen =>
    obtain ⟨ns, n, rfl⟩ := h
    refine ⟨ns ++ [n], [.halfOpened, .closed], ?_⟩
    simp [outage, trials_succ]
  | degraded =>
    obtain ⟨ns, n, rfl⟩ := h
    refine ⟨ns ++ [n], [.closed], ?_⟩
    simp [outage]

def lastOpening (log : List (Nat × BreakerTransition)) : Option (Nat × BreakerTransition) :=
  (log.filter (·.2 = .opened)).getLast?

/-- What a breaker knows agrees with what it has announced. -/
structure Agrees (rules : BreakerRules) (b : Breaker) (log : List (Nat × BreakerTransition)) :
    Prop where
  announced : Announced b.health (log.map (·.2))
  healthy : b.health = .healthy → b.failures < rules.threshold ∧ b.openedAt = none
  opened : b.health ≠ .healthy →
    ∃ t, b.openedAt = some t ∧ lastOpening log = some (t, .opened)

theorem Agrees.reaction {log : List (Nat × BreakerTransition)} (h : rules.Agrees b log)
    (ht : 0 < rules.threshold) (hr : Reaction rules b e b' said) :
    rules.Agrees b' (log ++ (said.map fun t => (e.time, t)).toList) := by
  cases hr with
  | counts hs hd hh =>
    refine ⟨?_, fun hn => ⟨hh hn, (h.healthy hn).2⟩, ?_⟩
    · simpa using h.announced
    · simpa using h.opened
  | forgives hs hd =>
    refine ⟨?_, fun hn => ⟨ht, (h.healthy hn).2⟩, ?_⟩
    · simpa using h.announced
    · simpa using h.opened
  | stays hs hd => simpa using h
  | opens hs hh =>
    refine ⟨?_, fun hn => (nomatch hn), fun _ => ⟨e.time, rfl, ?_⟩⟩
    · have ha := h.announced
      rcases hh with ⟨hh, -⟩ | hh
      · rw [hh] at ha
        obtain ⟨ns, hns⟩ := ha
        exact ⟨ns, 0, by simp [hns, trials]⟩
      · rw [hh] at ha
        obtain ⟨ns, n, hns⟩ := ha
        exact ⟨ns, n + 1, by simp [hns]⟩
    · simp [lastOpening]
  | halfOpens hs hd =>
    refine ⟨?_, fun hn => (nomatch hn), fun _ => ?_⟩
    · have ha := h.announced
      rw [hd.1] at ha
      obtain ⟨ns, n, hns⟩ := ha
      exact ⟨ns, n, by simp [hns, trials_succ]⟩
    · simpa [lastOpening] using h.opened (by simp [hd.1])
  | closes hs hd =>
    refine ⟨?_, fun _ => ⟨ht, rfl⟩, fun hn => absurd rfl hn⟩
    have ha := h.announced
    rw [hd] at ha
    obtain ⟨ns, n, hns⟩ := ha
    exact ⟨ns ++ [n], by simp [hns, outage]⟩

theorem agrees_after (ht : 0 < rules.threshold) (events : List Occasion) :
    rules.Agrees (rules.after events) (rules.log events) := by
  induction events using List.reverseRecOn with
  | nil => exact ⟨⟨[], rfl⟩, fun _ => ⟨ht, rfl⟩, fun h => absurd rfl h⟩
  | append_singleton events e ih =>
    rw [after_concat, log_concat]
    exact ih.reaction ht (hear_reaction _ _ _)

-- ---------------------------------------------------------------------------
-- While a breaker is open
-- ---------------------------------------------------------------------------

/-- Whatever is heard of an open breaker before its cooldown has passed leaves it open. -/
theorem open_foldl {opened : Nat} {between : List Occasion} (hh : b.health = .circuitOpen)
    (ho : b.openedAt = some opened) (hle : ∀ e ∈ between, opened ≤ e.time)
    (hlt : ∀ e ∈ between, e.signal = .refresh → e.time < opened + rules.cooldown) :
    (between.foldl (fun b e => (rules.hear b e).1) b).health = .circuitOpen ∧
      (between.foldl (fun b e => (rules.hear b e).1) b).openedAt = some opened := by
  induction between generalizing b with
  | nil => exact ⟨hh, ho⟩
  | cons e rest ih =>
    have hstep : (rules.hear b e).1.health = .circuitOpen ∧
        (rules.hear b e).1.openedAt = some opened := by
      have hr := hear_reaction rules b e
      generalize rules.hear b e = heard at hr
      obtain ⟨b', said⟩ := heard
      cases hr with
      | counts | forgives | stays => exact ⟨hh, ho⟩
      | opens _ hd => simp [hh] at hd
      | closes _ hd => simp [hh] at hd
      | halfOpens hs hd =>
        obtain ⟨-, opened', ho', hcool⟩ := hd
        obtain rfl := Option.some.inj (ho.symm.trans ho')
        have := hle e List.mem_cons_self
        have := hlt e List.mem_cons_self hs
        omega
    exact ih hstep.1 hstep.2 (fun r hr => hle r (List.mem_cons_of_mem _ hr))
      fun r hr => hlt r (List.mem_cons_of_mem _ hr)

/-- A breaker opens on this occasion, and no refresh of those in between comes late enough to
half-open it. -/
def OpensBefore (rules : BreakerRules) (before : List Occasion) (o : Occasion)
    (between : List Occasion) : Prop :=
  (rules.hear (rules.after before) o).2 = some .opened ∧
    ∀ r ∈ between, r.signal = .refresh → r.time < o.time + rules.cooldown

theorem OpensBefore.open {before between : List Occasion} {o : Occasion}
    (h : rules.OpensBefore before o between) (hle : ∀ r ∈ between, o.time ≤ r.time) :
    (rules.after (before ++ o :: between)).health = .circuitOpen ∧
      (rules.after (before ++ o :: between)).openedAt = some o.time := by
  have hsplit : rules.after (before ++ o :: between) =
      between.foldl (fun b e => (rules.hear b e).1) (rules.hear (rules.after before) o).1 := by
    simp [after]
  have hr := hear_reaction rules (rules.after before) o
  rw [h.1] at hr
  rw [hsplit]
  refine open_foldl ?_ ?_ hle h.2
  · generalize (rules.hear (rules.after before) o).1 = b' at hr
    cases hr
    rfl
  · generalize (rules.hear (rules.after before) o).1 = b' at hr
    cases hr
    rfl

/-- An open breaker has opened at the time it holds, and nothing has ended that since. -/
theorem exists_opensBefore (h : (rules.after events).health = .circuitOpen) :
    ∃ before o between, events = before ++ o :: between ∧ rules.OpensBefore before o between ∧
      (rules.after events).openedAt = some o.time := by
  induction events using List.reverseRecOn with
  | nil => cases h
  | append_singleton events e ih =>
    rw [after_concat] at h ⊢
    have hr := hear_reaction rules (rules.after events) e
    generalize hheard : rules.hear (rules.after events) e = heard at hr h
    obtain ⟨b', said⟩ := heard
    -- what leaves the breaker open is one more occasion in between
    have extend (hh : (rules.after events).health = .circuitOpen)
        (hlt : ∀ opened, (rules.after events).openedAt = some opened → e.signal = .refresh →
          e.time < opened + rules.cooldown) :
        ∃ before o between, events ++ [e] = before ++ o :: between ∧
          rules.OpensBefore before o between ∧ (rules.after events).openedAt = some o.time := by
      obtain ⟨before, o, between, rfl, ⟨hopens, hbetween⟩, ho⟩ := ih hh
      refine ⟨before, o, between ++ [e], by simp, ⟨hopens, fun r hr => ?_⟩, ho⟩
      rcases List.mem_append.mp hr with hr | hr
      · exact hbetween r hr
      · obtain rfl := List.mem_singleton.mp hr
        exact hlt o.time ho
    cases hr with
    | counts hs => exact extend h fun _ _ hs' => by simp [hs] at hs'
    | forgives hs => exact extend h fun _ _ hs' => by simp [hs] at hs'
    | stays hs hd =>
      refine extend h fun opened ho _ => ?_
      have hcool : ¬ rules.cooldown ≤ e.time - opened := fun hcool => hd ⟨h, opened, ho, hcool⟩
      omega
    | opens =>
      refine ⟨events, e, [], rfl, ⟨?_, List.forall_mem_nil _⟩, rfl⟩
      rw [hheard]
    | closes => cases h
    | halfOpens => cases h

/-- An open breaker is due on the first refresh that comes when its cooldown has passed. -/
theorem due_iff (hs : (events ++ [e]).Pairwise (·.time ≤ ·.time)) :
    rules.Due (rules.after events) e.time ↔
      ∃ before o between, events = before ++ o :: between ∧ rules.OpensBefore before o between ∧
        o.time + rules.cooldown ≤ e.time := by
  have hle {before between : List Occasion} {o : Occasion} (h : events = before ++ o :: between) :
      o.time ≤ e.time ∧ ∀ r ∈ between, o.time ≤ r.time := by
    subst h
    simp only [List.append_assoc, List.cons_append] at hs
    have htail := (List.pairwise_append.mp hs).2.1
    rw [List.pairwise_cons] at htail
    exact ⟨htail.1 e (by simp), fun r hr => htail.1 r (List.mem_append_left _ hr)⟩
  constructor
  · rintro ⟨hh, opened, ho, hcool⟩
    obtain ⟨before, o, between, hsplit, hopens, ho'⟩ := exists_opensBefore hh
    obtain rfl := Option.some.inj (ho.symm.trans ho')
    have := (hle hsplit).1
    exact ⟨before, o, between, hsplit, hopens, by omega⟩
  · rintro ⟨before, o, between, rfl, hopens, hcool⟩
    obtain ⟨hh, ho⟩ := hopens.open (hle rfl).2
    exact ⟨hh, o.time, ho, by omega⟩

/-- What a fresh breaker comes to, in whatever order it hears of outcomes and is asked for its
health. A closed breaker has fewer failures in a row than it takes, one that is not closed knows
when it last opened; it opens, half-opens and closes in turns, each on exactly the occasions named;
and from its opening until the cooldown has passed nothing changes its health or that time. -/
theorem breaker_timeline {threshold cooldown : Nat} {events : List Occasion}
    (ht : threshold ≤ Task.counterLimit) (hs : events.Pairwise (·.time ≤ ·.time)) :
    let rules := ofLimits threshold cooldown
    let limit := max threshold 1
    ((rules.after events).health = .healthy →
      (rules.after events).failures < limit ∧ (rules.after events).openedAt = none) ∧
    ((rules.after events).health ≠ .healthy → ∃ t, (rules.after events).openedAt = some t ∧
      lastOpening (rules.log events) = some (t, .opened)) ∧
    (∃ ns : List Nat, (rules.log events).map (·.2) <+: ns.flatMap outage) ∧
    (∀ before e rest, events = before ++ e :: rest →
      ((rules.hear (rules.after before) e).2 = some .opened ↔ e.signal = .failure ∧
        ((rules.after before).health = .healthy ∧ streak before + 1 = limit ∨
          (rules.after before).health = .degraded)) ∧
      ((rules.hear (rules.after before) e).2 = some .halfOpened ↔ e.signal = .refresh ∧
        ∃ earlier o between, before = earlier ++ o :: between ∧
          (rules.hear (rules.after earlier) o).2 = some .opened ∧
          (∀ r ∈ between, r.signal = .refresh → r.time < o.time + cooldown) ∧
          o.time + cooldown ≤ e.time) ∧
      ((rules.hear (rules.after before) e).2 = some .closed ↔ e.signal = .success ∧
        (rules.after before).health = .degraded)) ∧
    (∀ before o between rest, events = before ++ o :: between ++ rest →
      (rules.hear (rules.after before) o).2 = some .opened →
      (∀ r ∈ between, r.signal = .refresh → r.time < o.time + cooldown) →
      (rules.after (before ++ o :: between)).health = .circuitOpen ∧
        (rules.after (before ++ o :: between)).openedAt = some o.time) := by
  intro rules limit
  have hpos : 0 < rules.threshold := Nat.lt_of_lt_of_le Nat.one_pos (Nat.le_max_right _ _)
  have hagrees (events : List Occasion) := agrees_after hpos events
  refine ⟨(hagrees events).healthy, (hagrees events).opened, (hagrees events).announced.isPrefix,
    ?_, ?_⟩
  · rintro before e rest rfl
    have hr := hear_reaction rules (rules.after before) e
    refine ⟨?_, ?_, hr.closed_iff⟩
    · rw [hr.opened_iff]
      refine and_congr_right fun _ => or_congr_left (and_congr_right fun hh => ?_)
      have hlt := ((hagrees before).healthy hh).1
      have hlimit : rules.threshold = limit := rfl
      have hmax : limit ≤ Task.counterLimit := Nat.max_le.mpr ⟨ht, by decide⟩
      rw [raised, failures_after]
      rw [failures_after] at hlt
      omega
    · have hsorted : (before ++ [e]).Pairwise (·.time ≤ ·.time) :=
        hs.sublist ((List.Sublist.refl before).append (by simp))
      rw [hr.halfOpened_iff, due_iff hsorted]
      simp only [OpensBefore, and_assoc]
      rfl
  · rintro before o between rest rfl hopened hlt
    rw [List.append_assoc, List.cons_append] at hs
    have htail := List.pairwise_cons.mp (List.pairwise_append.mp hs).2.1
    exact OpensBefore.open ⟨hopened, hlt⟩ fun r hr => htail.1 r (List.mem_append_left _ hr)

/-- Two failures open a breaker; late outcomes and an early refresh leave it open, it is half open
on the first refresh after its cooldown, and a success closes it. -/
theorem breaker_reopens :
    let rules := ofLimits 2 10
    let events : List Occasion :=
      [⟨0, .failure⟩, ⟨1, .failure⟩, ⟨4, .failure⟩, ⟨5, .success⟩, ⟨9, .refresh⟩, ⟨11, .refresh⟩,
        ⟨12, .failure⟩, ⟨30, .refresh⟩, ⟨31, .success⟩]
    rules.log events = [(1, .opened), (11, .halfOpened), (12, .opened), (30, .halfOpened),
        (31, .closed)] ∧
      (rules.after events).health = .healthy ∧ (rules.after events).openedAt = none ∧
      (rules.after (events.take 5)).openedAt = some 1 := by
  intro rules events
  have hs : events.Pairwise (·.time ≤ ·.time) := by decide
  obtain ⟨hhealthy, -, -, -, hopen⟩ := @breaker_timeline 2 10 events (by decide) hs
  have hlast : (rules.after events).health = .healthy := by decide
  exact ⟨by decide, hlast, (hhealthy hlast).2,
    (hopen [⟨0, .failure⟩] ⟨1, .failure⟩ [⟨4, .failure⟩, ⟨5, .success⟩, ⟨9, .refresh⟩] _ rfl
      (by decide) (by decide)).2⟩

end BreakerRules

end Crew
