import Mathlib.Algebra.BigOperators.Group.List.Basic
import Mathlib.Data.List.Induction
import Crew.Proofs.Run.Budget
import Crew.Proofs.Run.Reported

/-!
# What is announced of one task

The events of one task are a tale: calls are sent out for an attempt, another attempt is announced,
and at last the task ends (`Tale`). What a tale allows is said in terms of the words themselves:
which number an attempt has (`Tale.sent_eq`), that the announced attempt is the next one
(`Tale.again_eq`), and that nothing comes after the end (`Tale.nil_of_ended`).

A change to the progress of a task is told by certain words (`Progress.news`). If they were said so
far, the words of a task are a tale that ends as its progress does (`Progress.Told`).
-/

namespace Crew

inductive Word where
  | sent (attempt : Nat)
  | again (attempt : Nat)
  | ended (status : TaskStatus) (attempts : Nat)
  deriving DecidableEq, Repr

namespace Word

def isSent : Word → Bool
  | .sent _ => true
  | _ => false

def isAgain : Word → Bool
  | .again _ => true
  | _ => false

def isEnded : Word → Bool
  | .ended .. => true
  | _ => false

def ending? : Word → Option (TaskStatus × Nat)
  | .ended status attempts => some (status, attempts)
  | _ => none

end Word

/-- An event in the course of a run, neither its start nor its end. -/
def Event.IsInner : Event → Prop
  | .runStarted .. | .runFinished .. => False
  | _ => True

def Event.word? (id : String) : Event → Option Word
  | .taskDispatched _ taskId _ attempt => if taskId = id then some (.sent attempt) else none
  | .taskRetryScheduled _ taskId attempt .. => if taskId = id then some (.again attempt) else none
  | .taskResolved _ taskId status attempts =>
    if taskId = id then some (.ended status attempts) else none
  | _ => none

def Event.speaks (id : String) (kind : Word → Bool) (e : Event) : Bool := (e.word? id).any kind

theorem Event.word?_of_taskId?_ne {e : Event} {id : String} (h : e.taskId? ≠ some id) :
    e.word? id = none := by
  cases e <;> simp_all [taskId?, word?]

theorem Event.isSome_word? {e : Event} {id : String} (h : e.taskId? = some id) :
    (e.word? id).isSome := by
  cases e <;> simp_all [taskId?, word?]

def wordsOf (log : List Event) (id : String) : List Word := log.filterMap (Event.word? id)

@[simp] theorem wordsOf_nil (id : String) : wordsOf [] id = [] := rfl

@[simp] theorem wordsOf_append (log more : List Event) (id : String) :
    wordsOf (log ++ more) id = wordsOf log id ++ wordsOf more id :=
  List.filterMap_append

theorem wordsOf_cons (e : Event) (log : List Event) (id : String) :
    wordsOf (e :: log) id = (e.word? id).toList ++ wordsOf log id := by
  cases h : e.word? id <;> simp [wordsOf, h]

theorem countP_speaks (log : List Event) (id : String) (kind : Word → Bool) :
    log.countP (·.speaks id kind) = (wordsOf log id).countP kind := by
  rw [wordsOf, List.countP_filterMap]
  refine List.countP_congr fun e _ => ?_
  cases h : e.word? id <;> simp [Event.speaks, h]

/-- What is said is said of one task: over all tasks together it is counted once. -/
theorem sum_countP_speaks {ids : List String} (hn : ids.Nodup) (kind : Word → Bool)
    {log : List Event} (hin : ∀ e ∈ log, ∀ id, e.taskId? = some id → id ∈ ids) :
    (ids.map fun id => log.countP (·.speaks id kind)).sum =
      log.countP fun e => e.taskId?.any fun id => e.speaks id kind := by
  have hsum (f : String → Bool) (ids : List String) :
      (ids.map fun id => if f id then 1 else 0).sum = ids.countP f := by
    induction ids with
    | nil => rfl
    | cons id rest ih => rw [List.map_cons, List.sum_cons, ih, List.countP_cons, Nat.add_comm]
  induction log with
  | nil => simp
  | cons e rest ih =>
    obtain ⟨he, hrest⟩ := List.forall_mem_cons.mp hin
    simp only [List.countP_cons]
    rw [List.sum_map_add, ih hrest, hsum]
    congr 1
    cases ht : e.taskId? with
    | none =>
      refine List.countP_eq_zero.mpr fun id _ => ?_
      simp [Event.speaks, Event.word?_of_taskId?_ne (by simp [ht] : e.taskId? ≠ some id)]
    | some t =>
      have hone : ids.countP (e.speaks · kind) =
          ids.countP fun id => id == t && e.speaks t kind := by
        refine List.countP_congr fun id _ => ?_
        by_cases hid : id = t
        · simp [hid]
        · have hne : e.taskId? ≠ some id := by simp [ht, Ne.symm hid]
          simp [hid, Event.speaks, Event.word?_of_taskId?_ne hne]
      rw [hone]
      cases hk : e.speaks t kind with
      | false => simp [hk]
      | true =>
        have hcount : ids.countP (· == t) = 1 := (hn.count).trans (if_pos (he t ht))
        simpa [hk] using hcount

-- ---------------------------------------------------------------------------
-- Tales
-- ---------------------------------------------------------------------------

/-- Where a tale stands: how many more attempts were announced, whether calls were sent out since
the last of these announcements, and how the task ended. -/
structure Tale where
  retries : Nat := 0
  isOpen : Bool := false
  ending : Option (TaskStatus × Nat) := none
  deriving DecidableEq, Repr

namespace Tale

variable {t t' : Tale} {w : Word} {words before between after : List Word} {n m : Nat}

/-- The next word of a tale, if it may come now. -/
def hear (t : Tale) : Word → Option Tale
  | .sent n => if t.ending = none ∧ n = t.retries + 1 then some { t with isOpen := true } else none
  | .again n =>
    if t.ending = none ∧ t.isOpen ∧ n = t.retries + 2 then
      some { t with retries := t.retries + 1, isOpen := false }
    else none
  | .ended status attempts =>
    if t.ending = none then some { t with ending := some (status, attempts) } else none

def hearAll (t : Tale) (words : List Word) : Option Tale := words.foldlM hear t

theorem hearAll_append : t.hearAll (before ++ after) = (t.hearAll before).bind (hearAll · after) :=
  List.foldlM_append

theorem hearAll_cons : t.hearAll (w :: after) = (t.hear w).bind (hearAll · after) :=
  List.foldlM_cons

theorem hearAll_eq_append : t.hearAll (before ++ after) = some t' ↔
    ∃ s, t.hearAll before = some s ∧ s.hearAll after = some t' := by
  rw [hearAll_append, Option.bind_eq_some_iff]

theorem hearAll_eq_cons : t.hearAll (w :: after) = some t' ↔
    ∃ s, t.hear w = some s ∧ s.hearAll after = some t' := by
  rw [hearAll_cons, Option.bind_eq_some_iff]

theorem hear_sent : t.hear (.sent n) = some t' ↔
    t.ending = none ∧ n = t.retries + 1 ∧ { t with isOpen := true } = t' := by
  simp only [hear, Option.ite_none_right_eq_some, Option.some.injEq, and_assoc]

theorem hear_again : t.hear (.again n) = some t' ↔
    t.ending = none ∧ t.isOpen ∧ n = t.retries + 2 ∧
      { t with retries := t.retries + 1, isOpen := false } = t' := by
  simp only [hear, Option.ite_none_right_eq_some, Option.some.injEq, and_assoc]

theorem hear_ended {status : TaskStatus} : t.hear (.ended status n) = some t' ↔
    t.ending = none ∧ { t with ending := some (status, n) } = t' := by
  simp only [hear, Option.ite_none_right_eq_some, Option.some.injEq]

theorem ending_eq_none_of_hear (h : t.hear w = some t') : t.ending = none := by
  cases w with
  | sent => exact (hear_sent.mp h).1
  | again => exact (hear_again.mp h).1
  | ended => exact (hear_ended.mp h).1

theorem retries_hear (h : t.hear w = some t') :
    t'.retries = t.retries + if w.isAgain then 1 else 0 := by
  cases w with
  | sent => obtain ⟨-, -, rfl⟩ := hear_sent.mp h; rfl
  | again => obtain ⟨-, -, -, rfl⟩ := hear_again.mp h; rfl
  | ended => obtain ⟨-, rfl⟩ := hear_ended.mp h; rfl

theorem retries_hearAll (h : t.hearAll words = some t') :
    t'.retries = t.retries + words.countP (·.isAgain) := by
  induction words generalizing t with
  | nil => cases h; rfl
  | cons w rest ih =>
    obtain ⟨s, hw, hrest⟩ := hearAll_eq_cons.mp h
    rw [ih hrest, retries_hear hw, List.countP_cons]
    omega

theorem nil_of_ended (h : t.hearAll words = some t') (he : t.ending ≠ none) : words = [] := by
  cases words with
  | nil => rfl
  | cons w rest =>
    obtain ⟨s, hw, -⟩ := hearAll_eq_cons.mp h
    exact absurd (ending_eq_none_of_hear hw) he

theorem ending_hearAll (h : t.hearAll words = some t') (he : t.ending = none) :
    words.filterMap Word.ending? = t'.ending.toList := by
  induction words generalizing t with
  | nil => cases h; rw [he]; rfl
  | cons w rest ih =>
    obtain ⟨s, hw, hrest⟩ := hearAll_eq_cons.mp h
    cases w with
    | sent =>
      obtain ⟨-, -, rfl⟩ := hear_sent.mp hw
      exact ih hrest he
    | again =>
      obtain ⟨-, -, -, rfl⟩ := hear_again.mp hw
      exact ih hrest he
    | ended status attempts =>
      obtain ⟨-, rfl⟩ := hear_ended.mp hw
      obtain rfl := nil_of_ended hrest (by simp)
      cases hrest
      rfl

theorem countP_isAgain_of_closed (h : t.hearAll words = some t') (ho : t.isOpen = false)
    (hn : ∀ w ∈ words, w.isSent = false) : words.countP (·.isAgain) = 0 := by
  induction words generalizing t with
  | nil => rfl
  | cons w rest ih =>
    obtain ⟨hw₀, hrest₀⟩ := List.forall_mem_cons.mp hn
    obtain ⟨s, hw, hrest⟩ := hearAll_eq_cons.mp h
    cases w with
    | sent => cases hw₀
    | again => exact absurd (hear_again.mp hw).2.1 (by simp [ho])
    | ended =>
      obtain ⟨-, rfl⟩ := hear_ended.mp hw
      rw [List.countP_cons, ih hrest ho hrest₀]
      rfl

def Tells (words : List Word) (t : Tale) : Prop := hearAll {} words = some t

theorem sent_eq (h : Tells (before ++ .sent n :: after) t) : n = 1 + before.countP (·.isAgain) := by
  obtain ⟨s, hbefore, hrest⟩ := hearAll_eq_append.mp h
  obtain ⟨s', hw, -⟩ := hearAll_eq_cons.mp hrest
  rw [(hear_sent.mp hw).2.1, retries_hearAll hbefore, Nat.zero_add, Nat.add_comm]

theorem again_eq (h : Tells (before ++ .again n :: (between ++ .sent m :: after)) t)
    (hn : ∀ w ∈ between, w.isSent = false) : m = n := by
  obtain ⟨s, hbefore, hrest⟩ := hearAll_eq_append.mp h
  obtain ⟨s', hw, hrest⟩ := hearAll_eq_cons.mp hrest
  obtain ⟨-, -, hnumber, rfl⟩ := hear_again.mp hw
  obtain ⟨s'', hbetween, hrest⟩ := hearAll_eq_append.mp hrest
  obtain ⟨_, hsent, -⟩ := hearAll_eq_cons.mp hrest
  have hretries := retries_hearAll hbetween
  rw [countP_isAgain_of_closed hbetween rfl hn] at hretries
  rw [(hear_sent.mp hsent).2.1, hretries, hnumber]

theorem nil_of_tells {status : TaskStatus} (h : Tells (before ++ .ended status n :: after) t) :
    after = [] := by
  obtain ⟨s, -, hrest⟩ := hearAll_eq_append.mp h
  obtain ⟨s', hw, hrest⟩ := hearAll_eq_cons.mp hrest
  obtain ⟨-, rfl⟩ := hear_ended.mp hw
  exact nil_of_ended hrest (by simp)

theorem isEnded_eq_false (h : Tells (words ++ [w]) t) : ∀ v ∈ words, v.isEnded = false := by
  intro v hv
  obtain ⟨before, after, rfl⟩ := List.append_of_mem hv
  cases v with
  | sent | again => rfl
  | ended status n =>
    rw [List.append_assoc, List.cons_append] at h
    exact absurd (nil_of_tells h) (by simp)

theorem Tells.prefix (h : Tells (before ++ after) t) : ∃ s, Tells before s := by
  obtain ⟨s, hs, -⟩ := hearAll_eq_append.mp h
  exact ⟨s, hs⟩

theorem hearAll_singleton : t.hearAll [w] = t.hear w := by
  rw [hearAll_cons]
  cases t.hear w <;> rfl

theorem hearAll_replicate {k : Nat} (hk : 0 < k) (he : t.ending = none) (hn : n = t.retries + 1) :
    t.hearAll (List.replicate k (.sent n)) = some { t with isOpen := true } := by
  have hsent {t : Tale} (he : t.ending = none) (hn : n = t.retries + 1) :
      t.hear (.sent n) = some { t with isOpen := true } := hear_sent.mpr ⟨he, hn, rfl⟩
  induction k generalizing t with
  | zero => cases hk
  | succ k ih =>
    rw [List.replicate_succ, hearAll_cons, hsent he hn, Option.bind_some]
    cases k with
    | zero => rfl
    | succ k => exact ih (Nat.succ_pos k) he hn

theorem tells_concat : Tells (words ++ [w]) t' ↔ ∃ t, Tells words t ∧ t.hear w = some t' := by
  simp only [Tells, hearAll_eq_append, hearAll_singleton]

theorem exists_sent_of_isOpen (h : Tells words t) (ho : t.isOpen) : ∃ w ∈ words, w.isSent := by
  induction words using List.reverseRecOn generalizing t with
  | nil =>
    cases h
    cases ho
  | append_singleton words w ih =>
    obtain ⟨s, hs, hw⟩ := tells_concat.mp h
    cases w with
    | sent n => exact ⟨.sent n, by simp, rfl⟩
    | again =>
      obtain ⟨-, -, -, rfl⟩ := hear_again.mp hw
      cases ho
    | ended =>
      obtain ⟨-, rfl⟩ := hear_ended.mp hw
      obtain ⟨v, hv, hsent⟩ := ih hs ho
      exact ⟨v, List.mem_append_left _ hv, hsent⟩

end Tale

/-- The events of each task are in order: calls are of the attempt after the retries announced
before, a retry announces the attempt of the calls that come next, and an ended task is not
mentioned again. -/
structure Chronological (log : List Event) : Prop where
  sent : ∀ {before after runId id workerId attempt},
    log = before ++ .taskDispatched runId id workerId attempt :: after →
      attempt = 1 + before.countP (·.speaks id Word.isAgain)
  again : ∀ {before between after runId runId' id workerId attempt attempt' delay error},
    log = before ++ .taskRetryScheduled runId id attempt delay error ::
        (between ++ .taskDispatched runId' id workerId attempt' :: after) →
      (∀ e ∈ between, e.speaks id Word.isSent = false) → attempt' = attempt
  ended : ∀ {before after runId id status attempts},
    log = before ++ .taskResolved runId id status attempts :: after →
      ∀ e ∈ after, e.taskId? ≠ some id

theorem chronological_of_tells {log : List Event} (h : ∀ id, ∃ t, Tale.Tells (wordsOf log id) t) :
    Chronological log := by
  refine ⟨fun {_ _ _ id _ _} hlog => ?_, fun {_ _ _ _ _ id _ _ _ _ _} hlog hn => ?_,
    fun {_ _ _ id _ _} hlog e he htask => ?_⟩
  · obtain ⟨t, ht⟩ := h id
    simp only [hlog, wordsOf_append, wordsOf_cons, Event.word?, if_pos, Option.toList_some,
      List.singleton_append] at ht
    rw [countP_speaks]
    exact Tale.sent_eq ht
  · obtain ⟨t, ht⟩ := h id
    simp only [hlog, wordsOf_append, wordsOf_cons, Event.word?, if_pos, Option.toList_some,
      List.singleton_append] at ht
    refine Tale.again_eq ht fun w hw => ?_
    obtain ⟨e, he, hword⟩ := List.mem_filterMap.mp hw
    simpa [Event.speaks, hword] using hn e he
  · obtain ⟨t, ht⟩ := h id
    simp only [hlog, wordsOf_append, wordsOf_cons, Event.word?, if_pos, Option.toList_some,
      List.singleton_append] at ht
    have hnone := List.filterMap_eq_nil_iff.mp (Tale.nil_of_tells ht) e he
    have hsome := Event.isSome_word? htask
    rw [hnone] at hsome
    cases hsome

-- ---------------------------------------------------------------------------
-- Changes to the progress of a task
-- ---------------------------------------------------------------------------

namespace Progress

variable {s : Session} {task : Task} {p p' : Progress} {n n' : Nat} {words : List Word}
  {result : Option TaskResult} {results : List TaskResult} {status : TaskStatus}

/-- The words that tell of a change: calls of a new attempt are sent out, another attempt is
announced, or the task has ended. -/
def news (p p' : Progress) : List Word :=
  if p.attempts < p'.attempts then List.replicate p'.outstanding (.sent p'.attempts)
  else if p.retriesUsed < p'.retriesUsed then [.again (p'.attempts + 1)]
  else if p.state.isTerminal = false ∧ p'.state.isTerminal then
    [.ended (TaskReport.statusOf p'.state) p'.attempts]
  else []

def ending? (p : Progress) : Option (TaskStatus × Nat) :=
  if p.state.isTerminal ∧ p.skipReason ≠ some .cancelled then
    some (TaskReport.statusOf p.state, p.attempts)
  else none

/-- The words of a task are a tale that stands where its progress does. -/
def Told (p : Progress) (words : List Word) : Prop :=
  ∃ t : Tale, Tale.Tells words t ∧ t.retries = p.retriesUsed ∧ (p.state = .running → t.isOpen) ∧
    t.ending = p.ending?

theorem news_eq_nil (ha : p'.attempts ≤ p.attempts) (hr : p'.retriesUsed ≤ p.retriesUsed)
    (ht : p'.state.isTerminal = false ∨ p.state.isTerminal) : p.news p' = [] := by
  rw [news, if_neg (Nat.not_lt.mpr ha), if_neg (Nat.not_lt.mpr hr), if_neg]
  rintro ⟨hopen, hended⟩
  rcases ht with h | h
  · cases h.symm.trans hended
  · cases h.symm.trans hopen

theorem news_self (p : Progress) : p.news p = [] :=
  news_eq_nil (Nat.le_refl _) (Nat.le_refl _) (by cases p.state.isTerminal <;> simp)

theorem news_sent (ha : p.attempts < p'.attempts) :
    p.news p' = List.replicate p'.outstanding (.sent p'.attempts) := if_pos ha

theorem news_again (ha : p'.attempts = p.attempts) (hr : p.retriesUsed < p'.retriesUsed) :
    p.news p' = [.again (p'.attempts + 1)] := by
  rw [news, if_neg (by omega), if_pos hr]

theorem news_ended (ha : p'.attempts = p.attempts) (hr : p'.retriesUsed = p.retriesUsed)
    (ht : p.state.isTerminal = false) (ht' : p'.state.isTerminal) :
    p.news p' = [.ended (TaskReport.statusOf p'.state) p'.attempts] := by
  rw [news, if_neg (by omega), if_neg (by omega), if_pos ⟨ht, ht'⟩]

theorem ending?_of_open (h : p.state.isTerminal = false) : p.ending? = none :=
  if_neg fun ht => by simp [h] at ht

theorem Told.retriesUsed (h : p.Told words) : p.retriesUsed = words.countP (·.isAgain) := by
  obtain ⟨t, ht, hretries, -, -⟩ := h
  rw [← hretries, Tale.retries_hearAll ht]
  exact Nat.zero_add _

theorem Told.ending (h : p.Told words) : words.filterMap Word.ending? = p.ending?.toList := by
  obtain ⟨t, ht, -, -, hending⟩ := h
  rw [Tale.ending_hearAll ht rfl, hending]

theorem told_nil : Told {} [] := ⟨{}, rfl, rfl, fun h => (nomatch h), rfl⟩

theorem Told.silent (h : p.Told words) (hnews : p.news p' = [])
    (hr : p'.retriesUsed = p.retriesUsed) (ho : p'.state = .running → p.state = .running)
    (he : p'.ending? = p.ending?) : p'.Told (words ++ p.news p') := by
  obtain ⟨t, ht, hretries, hopen, hending⟩ := h
  rw [hnews, List.append_nil]
  exact ⟨t, ht, hretries.trans hr.symm, fun hs => hopen (ho hs), hending.trans he.symm⟩

theorem Told.ends (h : p.Told words) (hp : p.state.isTerminal = false)
    (hp' : p'.state.isTerminal) (hc : p'.skipReason ≠ some .cancelled)
    (ha : p'.attempts = p.attempts) (hr : p'.retriesUsed = p.retriesUsed) :
    p'.Told (words ++ p.news p') := by
  obtain ⟨t, ht, hretries, -, hending⟩ := h
  rw [ending?_of_open hp] at hending
  rw [news_ended ha hr hp hp']
  refine ⟨_, Tale.tells_concat.mpr ⟨t, ht, Tale.hear_ended.mpr ⟨hending, rfl⟩⟩,
    hretries.trans hr.symm, fun hs => ?_, (if_pos ⟨hp', hc⟩).symm⟩
  rw [hs] at hp'
  cases hp'

theorem Told.sends (h : p.Told words) (hb : p.Budgeted task) (hp : p.state = .pending) {k : Nat}
    (hk : 0 < k) :
    Told { p.begin with outstanding := k }
      (words ++ p.news { p.begin with outstanding := k }) := by
  obtain ⟨t, ht, hretries, -, hending⟩ := h
  have hnone : p.ending? = none := ending?_of_open (by rw [hp]; rfl)
  have hnumber : p.attempts + 1 = t.retries + 1 := by rw [hb.waiting (.inl hp), hretries]
  rw [news_sent (Nat.lt_succ_self _)]
  refine ⟨_, Tale.hearAll_eq_append.mpr ⟨t, ht,
    Tale.hearAll_replicate hk (hending.trans hnone) hnumber⟩, hretries, fun _ => rfl, ?_⟩
  exact (hending.trans hnone).trans (ending?_of_open rfl).symm

theorem Told.retries (h : p.Told words) (hb : p.Budgeted task) (hp : p.state = .running)
    (hp' : p'.state.isTerminal = false) (hs : p'.state ≠ .running)
    (ha : p'.attempts = p.attempts) (hr : p'.retriesUsed = p.retriesUsed + 1) :
    p'.Told (words ++ p.news p') := by
  obtain ⟨t, ht, hretries, hopen, hending⟩ := h
  rw [ending?_of_open (by rw [hp]; rfl)] at hending
  have hnumber : p'.attempts + 1 = t.retries + 2 := by
    rw [ha, hb.tried (.inl hp), hretries]
  rw [news_again ha (by omega)]
  refine ⟨_, Tale.tells_concat.mpr ⟨t, ht,
    Tale.hear_again.mpr ⟨hending, hopen hp, hnumber, rfl⟩⟩, ?_, fun h => absurd h hs, ?_⟩
  · rw [hr, ← hretries]
  · exact hending.trans (ending?_of_open hp').symm

theorem Blamed.skipReason_eq_none (h : p.Blamed s task) (hp : p.state ≠ .skipped) :
    p.skipReason = none := by
  rw [← Option.not_isSome_iff_eq_none]
  exact fun hsome => hp (h.skipped.mpr hsome)

theorem Round.told (h : p.Round s task n p' n') (hb : p.Budgeted task) (hr : p.Blamed s task)
    (ht : p.Told words) : p'.Told (words ++ p.news p') := by
  have hreason (hp : p.state = .pending) : p.skipReason ≠ some .cancelled := by
    rw [hr.skipReason_eq_none (by simp [hp])]
    simp
  cases h with
  | same => exact ht.silent (news_self p) rfl id rfl
  | skip hp =>
    exact ht.ends (by rw [hp]; rfl) rfl (by simp [Progress.skip]) rfl rfl
  | release hp =>
    refine ht.silent (news_eq_nil (Nat.le_refl _) (Nat.le_refl _) (.inl rfl)) rfl
      (fun hs => by cases hs) ?_
    rw [ending?_of_open rfl, ending?_of_open (by rw [hp]; rfl)]
  | wait since hp =>
    exact ht.silent (news_eq_nil (Nat.le_refl _) (Nat.le_refl _) (.inl (by rw [hp]; rfl))) rfl
      id rfl
  | giveUp waited hp => exact ht.ends (by rw [hp]; rfl) rfl (hreason hp) rfl rfl
  | send hk hp => exact ht.sends hb hp hk
  | withdraw hp =>
    have hb : p.begin.abort = { p.begin with state := .pending, attempts := p.attempts } := by
      simp [Progress.begin, Progress.abort]
    rw [hb]
    refine ht.silent (news_eq_nil (Nat.le_refl _) (Nat.le_refl _) (.inl rfl)) rfl
      (fun hs => by cases hs) ?_
    rw [ending?_of_open rfl, ending?_of_open (by rw [hp]; rfl)]

theorem Return.told (h : p.Return task result n p' n') (hb : p.Budgeted task)
    (hr : p.Blamed s task) (ht : p.Told words) : p'.Told (words ++ p.news p') := by
  have hp := h.running
  have hopen : p.state.isTerminal = false := by rw [hp]; rfl
  have hreason : p.skipReason ≠ some .cancelled := by
    rw [hr.skipReason_eq_none (by simp [hp])]
    simp
  cases h with
  | hear =>
    have hstate : (p.account result).state.isTerminal = false := hopen
    refine ht.silent (news_eq_nil (Nat.le_refl _) (Nat.le_refl _) (.inl hstate)) rfl id ?_
    rw [ending?_of_open hstate, ending?_of_open hopen]
  | requeue =>
    refine ht.silent (news_eq_nil (Nat.sub_le _ _) (Nat.le_refl _) (.inl rfl)) rfl
      (fun hs => by cases hs) ?_
    rw [ending?_of_open rfl, ending?_of_open hopen]
  | close _ _ _ he =>
    cases he with
    | succeed => exact ht.ends hopen rfl hreason rfl rfl
    | backOff => exact ht.retries hb hp rfl (fun hs => nomatch hs) rfl rfl
    | exhaust => exact ht.ends hopen rfl hreason rfl rfl

theorem Told.cancel (h : p.Told words) : p.cancel.Told words := by
  unfold Progress.cancel
  split
  · exact h
  next ht =>
    obtain ⟨t, htells, hretries, -, hending⟩ := h
    refine ⟨t, htells, hretries, fun hs => (nomatch hs), hending.trans ?_⟩
    rw [ending?_of_open (by simpa using ht)]
    exact (if_neg (by simp)).symm

end Progress

end Crew
