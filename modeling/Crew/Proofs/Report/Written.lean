import Crew.Form.Report
import Crew.Proofs.Json.Records
import Crew.Proofs.Report.Averages
import Crew.Proofs.Report.Entries
import Crew.Proofs.Run.Course

/-!
# Reports are read as they are written

A report is read from its text as it was written, but for one thing: a payload that is `null` is
written as such and read as if there were none (`TaskReport.settled`).
-/

namespace Crew

open Json

namespace TaskStatus

theorem reads_toJson (s : TaskStatus) : decoder.Reads s.toJson s :=
  Decoder.reads_named (by cases s <;> rfl)

end TaskStatus

namespace ResolutionStrategy

theorem lookup_names (s : ResolutionStrategy) : names.lookup s.name = some s := by
  cases s <;> rfl

theorem reads_toJson (s : ResolutionStrategy) : decoder.Reads s.toJson s :=
  Decoder.reads_named (lookup_names s)

theorem toJson_ne_null (s : ResolutionStrategy) : s.toJson ≠ .null := Json.noConfusion

end ResolutionStrategy

namespace SkipReason

theorem reads_toJson (r : SkipReason) : decoder.Reads r.toJson r := by
  cases r with
  | dependencyFailed dependency =>
    refine Decoder.reads_tagged rfl (by simp) ?_
    refine RecordShape.reads_object ⟨.refl _, by decide, by decide⟩ fun m hm => ?_
    rw [hm.required rfl (Decoder.reads_string dependency)]
    rfl
  | cancelled =>
    exact Decoder.reads_tagged rfl (by simp) (Decoder.reads_noFields _)

theorem toJson_ne_null (r : SkipReason) : r.toJson ≠ .null := by
  cases r <;> exact Json.noConfusion

end SkipReason

namespace Candidate

theorem reads_toJson (c : Candidate) (h : c.payload.Ordered) : decoder.Reads c.toJson c := by
  refine RecordShape.reads_object ⟨.refl _, by decide, by decide⟩ fun m hm => ?_
  unfold read
  rw [hm.required rfl (Decoder.reads_string c.workerId), hm.required rfl (Decoder.reads_json h),
    hm.required rfl (Decoder.reads_f64 c.trustWeight)]
  rfl

end Candidate

namespace Conflict

def Ordered (c : Conflict) : Prop := ∀ d ∈ c.accepted :: c.discarded, d.payload.Ordered

instance : DecidablePred Ordered := fun c =>
  inferInstanceAs (Decidable (∀ d ∈ c.accepted :: c.discarded, d.payload.Ordered))

theorem reads_toJson (c : Conflict) (h : c.Ordered) : decoder.Reads c.toJson c := by
  obtain ⟨haccepted, hdiscarded⟩ := List.forall_mem_cons.mp h
  have hlist : Candidate.decoder.list.Reads (.array (c.discarded.map (·.toJson))) c.discarded :=
    Decoder.reads_list (List.forall₂_map_left_iff.mpr
      (List.forall₂_same.mpr fun d hd => d.reads_toJson (hdiscarded d hd)))
  refine RecordShape.reads_object ⟨.refl _, by decide, by decide⟩ fun m hm => ?_
  unfold read
  rw [hm.required rfl (Decoder.reads_string c.taskId), hm.required rfl c.strategy.reads_toJson,
    hm.required rfl (c.accepted.reads_toJson haccepted), hm.required rfl hlist]
  rfl

theorem toJson_ne_null (c : Conflict) : c.toJson ≠ .null := Json.noConfusion

end Conflict

namespace TaskReport

/-- What is left of an entry when it was written and read. -/
def settled (r : TaskReport) : TaskReport := { r with payload := r.payload.filter (· ≠ .null) }

structure Writable (r : TaskReport) : Prop where
  attempts : r.attempts < Nat.pow 2 32
  payload : ∀ p ∈ r.payload, p.Ordered
  conflict : ∀ c ∈ r.conflict, c.Ordered

theorem optional_payload {m : Members} {members : List (String × Json)} {payload : Option Json}
    (hm : m.Holds members) (hlookup : members.lookup "payload" = payload)
    (h : ∀ p ∈ payload, p.Ordered) :
    m.optional "payload" Decoder.json.option none = .pure (payload.filter (· ≠ .null)) := by
  cases payload with
  | none => exact hm.field_none hlookup _
  | some p =>
    by_cases hp : p = .null
    · subst hp
      exact hm.field_some hlookup (Decoder.reads_option_null _) _
    · have hkept : (some p).filter (· ≠ .null) = some p := by simp [hp]
      rw [hkept]
      exact hm.field_some hlookup (Decoder.reads_option (Decoder.reads_json (h p rfl)) hp) _

def members (r : TaskReport) : List (String × Json) :=
  [("task_id", .string r.taskId), ("status", r.status.toJson)] ++
    Json.memberIf "payload" r.payload ++
    Json.memberIf "error" (r.error.map .string) ++
    Json.memberIf "skip_reason" (r.skipReason.map (·.toJson)) ++
    [("attempts", .nat r.attempts)] ++
    Json.memberIf "worker_id" (r.workerId.map .string) ++
    Json.memberIf "resolution" (r.resolution.map (·.toJson)) ++
    Json.memberIf "conflict" (r.conflict.map (·.toJson))

theorem declares_members (r : TaskReport) : shape.Declares r.members := by
  refine ⟨?_, by decide, by decide⟩
  unfold members
  simp only [List.map_append]
  exact (((((((List.Sublist.refl ["task_id", "status"]).append (keys_memberIf _ _)).append
    (keys_memberIf _ _)).append (keys_memberIf _ _)).append (.refl ["attempts"])).append
    (keys_memberIf _ _)).append (keys_memberIf _ _)).append (keys_memberIf _ _)

theorem lookup_members (r : TaskReport) :
    r.members.lookup "task_id" = some (.string r.taskId) ∧
    r.members.lookup "status" = some r.status.toJson ∧
    r.members.lookup "payload" = r.payload ∧
    r.members.lookup "error" = r.error.map .string ∧
    r.members.lookup "skip_reason" = r.skipReason.map (·.toJson) ∧
    r.members.lookup "attempts" = some (.nat r.attempts) ∧
    r.members.lookup "worker_id" = r.workerId.map .string ∧
    r.members.lookup "resolution" = r.resolution.map (·.toJson) ∧
    r.members.lookup "conflict" = r.conflict.map (·.toJson) := by
  simp [members, List.lookup_append, List.lookup_cons]

theorem reads_toJson (r : TaskReport) (h : r.Writable) : decoder.Reads r.toJson r.settled := by
  obtain ⟨htaskId, hstatus, hpayload, herror, hskip, hattempts, hworker, hresolution, hconflict⟩ :=
    r.lookup_members
  refine RecordShape.reads_object r.declares_members fun m hm => ?_
  unfold read
  rw [hm.required htaskId (Decoder.reads_string r.taskId),
    hm.required hstatus r.status.reads_toJson, optional_payload hm hpayload h.payload,
    hm.optional_map .string herror fun e _ => ⟨Decoder.reads_string e, nofun⟩,
    hm.optional_map (·.toJson) hskip fun s _ => ⟨s.reads_toJson, s.toJson_ne_null⟩,
    hm.required hattempts (Decoder.reads_u32 h.attempts),
    hm.optional_map .string hworker fun w _ => ⟨Decoder.reads_string w, nofun⟩,
    hm.optional_map (·.toJson) hresolution fun s _ => ⟨s.reads_toJson, s.toJson_ne_null⟩,
    hm.optional_map (·.toJson) hconflict fun c hc =>
      ⟨c.reads_toJson (h.conflict c hc), c.toJson_ne_null⟩]
  rfl

end TaskReport

namespace ReportSummary

theorem lookup_eq_none {counts : List (ResolutionStrategy × Nat)} {s : ResolutionStrategy}
    (h : s ∉ counts.map (·.1)) : counts.lookup s = none :=
  List.lookup_eq_none_iff.mpr fun row hrow =>
    bne_iff_ne.mpr fun he => h (List.mem_map.mpr ⟨row, hrow, he.symm⟩)

theorem lookup_reverse {counts : List (ResolutionStrategy × Nat)} (h : (counts.map (·.1)).Nodup)
    (s : ResolutionStrategy) : counts.reverse.lookup s = counts.lookup s := by
  induction counts with
  | nil => rfl
  | cons row rest ih =>
    obtain ⟨t, n⟩ := row
    obtain ⟨hnot, hrest⟩ := List.nodup_cons.mp h
    rw [List.reverse_cons, List.lookup_append, ih hrest, List.lookup_cons, List.lookup_cons]
    by_cases hs : s = t
    · subst hs
      rw [lookup_eq_none hnot, beq_self_eq_true]
      rfl
    · rw [beq_false_of_ne hs]
      exact Option.or_none

theorem filterMap_lookup {counts : List (ResolutionStrategy × Nat)}
    {strategies : List ResolutionStrategy} (h : (counts.map (·.1)).Sublist strategies)
    (hn : strategies.Nodup) :
    strategies.filterMap (fun s => (counts.lookup s).map fun n => (s, n)) = counts := by
  induction strategies generalizing counts with
  | nil => exact (List.map_eq_nil_iff.mp (List.sublist_nil.mp h)).symm
  | cons t rest ih =>
    obtain ⟨hnot, hrest⟩ := List.nodup_cons.mp hn
    cases counts with
    | nil => exact ih (List.nil_sublist _) hrest
    | cons row counts =>
      obtain ⟨u, n⟩ := row
      by_cases hu : u = t
      · subst hu
        have hsub := List.cons_sublist_cons.mp h
        have hlookup : ∀ s ∈ rest, List.lookup s ((u, n) :: counts) = counts.lookup s := by
          intro s hs
          have hne : s ≠ u := fun he => hnot (he ▸ hs)
          rw [List.lookup_cons, beq_false_of_ne hne]
        have hself : List.lookup u ((u, n) :: counts) = some n := by
          rw [List.lookup_cons, beq_self_eq_true]
        rw [List.filterMap_cons, hself, List.filterMap_congr fun s hs => by rw [hlookup s hs],
          ih hsub hrest]
        rfl
      · have hsub : (((u, n) :: counts).map (·.1)).Sublist rest := List.Sublist.of_cons_of_ne hu h
        have habsent : List.lookup t ((u, n) :: counts) = none :=
          lookup_eq_none fun ht => hnot (hsub.subset ht)
        rw [List.filterMap_cons, habsent]
        exact ih hsub hrest

theorem arrange_of_sublist {counts : List (ResolutionStrategy × Nat)}
    (h : (counts.map (·.1)).Sublist ResolutionStrategy.all) : arrange counts = counts := by
  have hreverse (s : ResolutionStrategy) : counts.reverse.lookup s = counts.lookup s :=
    lookup_reverse (List.Nodup.sublist h (by decide)) s
  unfold arrange
  simp only [hreverse]
  exact filterMap_lookup h (by decide)

structure Writable (s : ReportSummary) : Prop where
  counts : ∀ n ∈ [s.totalTasks, s.succeeded, s.permanentlyFailed, s.skipped, s.totalAttempts,
    s.totalRetries, s.conflicts, s.averageTask, s.peakInFlight, s.duration], n < Nat.pow 2 64
  resolutions : ∀ row ∈ s.resolutions, row.2 < Nat.pow 2 64
  arranged : (s.resolutions.map (·.1)).Sublist ResolutionStrategy.all

theorem reads_countsToJson {counts : List (ResolutionStrategy × Nat)}
    (hsize : ∀ row ∈ counts, row.2 < Nat.pow 2 64)
    (harranged : (counts.map (·.1)).Sublist ResolutionStrategy.all) :
    countsDecoder.Reads (countsToJson counts) counts := by
  intro ctx hd
  unfold countsDecoder countsToJson
  have hrows := Decoder.reads_map (List.forall₂_map_left_iff.mpr (List.forall₂_same.mpr
    fun row hrow => ⟨Decoder.named_of_lookup row.1.lookup_names,
      Decoder.reads_usize (hsize row hrow)⟩)) ctx hd
  rw [hrows]
  exact congrArg Except.ok (arrange_of_sublist harranged)

theorem reads_toJson (s : ReportSummary) (h : s.Writable) : decoder.Reads s.toJson s := by
  have hcounts := h.counts
  simp only [List.forall_mem_cons, List.not_mem_nil, false_imp_iff, implies_true, and_true]
    at hcounts
  obtain ⟨htasks, hsucceeded, hfailed, hskipped, hattempts, hretries, hconflicts, haverage, hpeak,
    hduration⟩ := hcounts
  refine RecordShape.reads_object ⟨.refl _, by decide, by decide⟩ fun m hm => ?_
  unfold read
  rw [hm.required rfl (Decoder.reads_usize htasks), hm.required rfl (Decoder.reads_usize hsucceeded),
    hm.required rfl (Decoder.reads_usize hfailed), hm.required rfl (Decoder.reads_usize hskipped),
    hm.required rfl (Decoder.reads_u64 hattempts), hm.required rfl (Decoder.reads_u64 hretries),
    hm.required rfl (Decoder.reads_usize hconflicts),
    hm.optional rfl (reads_countsToJson h.resolutions h.arranged),
    hm.optional rfl (Decoder.reads_u64 haverage), hm.required rfl (Decoder.reads_usize hpeak),
    hm.required rfl (Decoder.reads_u64 hduration)]
  rfl

end ReportSummary

namespace Report

/-- What is left of a report when it was written and read. -/
def settled (r : Report) : Report := { r with entries := r.entries.map (·.settled) }

structure Writable (r : Report) : Prop where
  entries : ∀ e ∈ r.entries, e.Writable
  summary : r.summary.Writable

theorem reads_toJson (r : Report) (h : r.Writable) : decoder.Reads r.toJson r.settled := by
  have hentries : TaskReport.decoder.list.Reads (.array (r.entries.map (·.toJson)))
      (r.entries.map (·.settled)) :=
    Decoder.reads_list (List.forall₂_map_left_iff.mpr (List.forall₂_map_right_iff.mpr
      (List.forall₂_same.mpr fun e he => e.reads_toJson (h.entries e he))))
  refine RecordShape.reads_object ⟨.refl _, by decide, by decide⟩ fun m hm => ?_
  unfold read
  rw [hm.required rfl (Decoder.reads_string r.runId), hm.required rfl hentries,
    hm.required rfl (r.summary.reads_toJson h.summary),
    hm.required rfl (Decoder.reads_bool r.cancelled)]
  rfl

theorem settled_eq_self_iff (r : Report) :
    r.settled = r ↔ ∀ e ∈ r.entries, e.payload ≠ some .null := by
  have hentries : r.settled = r ↔ r.entries.map (·.settled) = r.entries :=
    ⟨congrArg Report.entries, fun h => congrArg (fun es => { r with entries := es }) h⟩
  have hentry (e : TaskReport) : e.settled = e ↔ e.payload ≠ some .null := by
    obtain ⟨_, _, payload, _⟩ := e
    cases payload with
    | none => simp [TaskReport.settled]
    | some p => simp [TaskReport.settled, Option.filter_eq_some_iff]
  have hmap : r.entries.map (·.settled) = r.entries ↔ ∀ e ∈ r.entries, e.settled = e := by
    rw [← List.map_inj_left, List.map_id']
  rw [hentries, hmap]
  exact forall₂_congr fun e _ => hentry e

end Report

-- ---------------------------------------------------------------------------
-- Reports of sessions
-- ---------------------------------------------------------------------------

/-- What was answered are values whose keys ascend. -/
def CanonicalResult.Ordered (c : CanonicalResult) : Prop :=
  c.payload.Ordered ∧ ∀ conflict ∈ c.conflict, conflict.Ordered

instance : DecidablePred CanonicalResult.Ordered := fun c =>
  inferInstanceAs (Decidable (c.payload.Ordered ∧ ∀ conflict ∈ c.conflict, conflict.Ordered))

/-- What a session counts fits its words, and what it took for answers are ordered. -/
structure Session.Fits (s : Session) : Prop where
  tasks : s.graph.size < Nat.pow 2 64
  totalAttempts : (s.rows.map fun row => row.2.attempts).sum < Nat.pow 2 64
  totalRetries : (s.rows.map fun row => row.2.retriesUsed).sum < Nat.pow 2 64
  peak : s.peakInFlight < Nat.pow 2 64
  duration : s.duration < Nat.pow 2 64
  attempts : ∀ row ∈ s.rows, row.2.attempts < Nat.pow 2 32
  answers : ∀ row ∈ s.rows, ∀ c ∈ row.2.canonical, c.Ordered

instance (s : Session) : Decidable s.Fits :=
  decidable_of_iff
    ((s.graph.size < Nat.pow 2 64 ∧
      (s.rows.map fun row => row.2.attempts).sum < Nat.pow 2 64 ∧
      (s.rows.map fun row => row.2.retriesUsed).sum < Nat.pow 2 64 ∧
      s.peakInFlight < Nat.pow 2 64 ∧ s.duration < Nat.pow 2 64) ∧
      ∀ row ∈ s.rows, row.2.attempts < Nat.pow 2 32 ∧ ∀ c ∈ row.2.canonical, c.Ordered)
    ⟨fun ⟨⟨ht, ha, hr, hp, hd⟩, hrows⟩ =>
      ⟨ht, ha, hr, hp, hd, fun row hrow => (hrows row hrow).1, fun row hrow => (hrows row hrow).2⟩,
      fun h => ⟨⟨h.tasks, h.totalAttempts, h.totalRetries, h.peak, h.duration⟩, fun row hrow =>
        ⟨h.attempts row hrow, h.answers row hrow⟩⟩⟩

namespace Report

variable {s : Session}

theorem averageTask_lt (s : Session) : (ofSession s).summary.averageTask < Nat.pow 2 64 := by
  change (averageDuration s.results).getD 0 < _
  rw [averageDuration_eq]
  split
  next hw => exact Nat.lt_of_le_of_lt (Nat.div_le_self _ _) hw
  · exact Nat.two_pow_pos 64

theorem length_entries_le (s : Session) : (ofSession s).entries.length ≤ s.graph.size := by
  rw [entries_ofSession, List.length_map]
  exact (List.length_filterMap_le _ _).trans (Nat.le_of_eq (List.length_map _))

theorem writable_ofSession (h : s.Fits) : (ofSession s).Writable := by
  have hsize {n : Nat} (hn : n ≤ (ofSession s).entries.length) : n < Nat.pow 2 64 :=
    Nat.lt_of_le_of_lt (hn.trans (length_entries_le s)) h.tasks
  refine ⟨fun e he => ?_, ?_, fun row hrow => ?_, keys_countResolutions _⟩
  · rw [entries_ofSession] at he
    obtain ⟨row, hrow, rfl⟩ := List.mem_map.mp he
    refine ⟨h.attempts row hrow, fun payload hpayload => ?_, fun conflict hconflict => ?_⟩
    · obtain ⟨c, hc, rfl⟩ := Option.map_eq_some_iff.mp hpayload
      exact (h.answers row hrow c hc).1
    · obtain ⟨c, hc, hconflict⟩ := Option.bind_eq_some_iff.mp hconflict
      exact (h.answers row hrow c hc).2 conflict hconflict
  · have hattempts : (ofSession s).summary.totalAttempts < Nat.pow 2 64 :=
      (Session.foldl_rows _).trans_lt h.totalAttempts
    have hretries : (ofSession s).summary.totalRetries < Nat.pow 2 64 :=
      (Session.foldl_rows _).trans_lt h.totalRetries
    simp only [List.forall_mem_cons, List.not_mem_nil, false_imp_iff, implies_true, and_true]
    exact ⟨h.tasks, hsize (List.length_filter_le _ _), hsize (List.length_filter_le _ _),
      hsize (List.length_filter_le _ _), hattempts, hretries, hsize (List.length_filter_le _ _),
      averageTask_lt s, h.peak, h.duration⟩
  · obtain ⟨-, hn⟩ := mem_countResolutions.mp hrow
    rw [hn]
    exact hsize (List.length_filter_le _ _)

theorem decodeText_ofSession (h : s.Fits) (hl : (ofSession s).toJson.Legible) :
    Decoder.decodeText decoder (ofSession s).toJson.compact = .ok (ofSession s).settled :=
  ((ofSession s).reads_toJson (writable_ofSession h)).decodeText hl

/-- The text of a session's report is read as that report exactly if no payload in it is
`null`. -/
theorem written_and_read (s : Session) (h : s.Fits) (hl : (ofSession s).toJson.Legible) :
    Decoder.decodeText decoder (ofSession s).toJson.compact = .ok (ofSession s).settled ∧
      (Decoder.decodeText decoder (ofSession s).toJson.compact = .ok (ofSession s) ↔
        ∀ e ∈ (ofSession s).entries, e.payload ≠ some .null) := by
  have hread := decodeText_ofSession h hl
  refine ⟨hread, ?_⟩
  rw [hread, Except.ok.injEq]
  exact settled_eq_self_iff _

end Report

namespace Opening

def relayServed (payload : Json) : Course :=
  ((relayStart.pass.complete 1 (.success payload)).pass.complete 2 (.success (.string "done"))).pass

def tally : Json := .object [("count", .number (.int 42)), ("share", .number (.real 0.5))]

theorem tally_read :
    let report := Report.ofSession (relayServed tally).run.session
    (relayServed tally).run.session.Fits ∧ report.toJson.Legible ∧
      Decoder.decodeText Report.decoder report.toJson.compact = .ok report := by
  have hfits : (relayServed tally).run.session.Fits := by decide +kernel
  have hlegible : (Report.ofSession (relayServed tally).run.session).toJson.Legible := by
    decide +kernel
  exact ⟨hfits, hlegible, (Report.written_and_read _ hfits hlegible).2.mpr (by decide +kernel)⟩

/-- A relay can be answered with `null`, and then its report is not read as it was written. -/
theorem null_lost :
    let report := Report.ofSession (relayServed .null).run.session
    relay.Reaches (relayServed .null) ∧ (relayServed .null).run.session.Fits ∧
      report.toJson.Legible ∧
      Decoder.decodeText Report.decoder report.toJson.compact ≠ .ok report := by
  have hreaches : relayStart.Steps (relayServed .null) :=
    ((((relay_sends.tail (.own (.complete (by decide +kernel) 1 _))).tail
      (.own (.pass rfl rfl))).tail (.own (.complete (by decide +kernel) 2 _))).tail
      (.own (.pass rfl rfl)))
  have hfits : (relayServed .null).run.session.Fits := by decide +kernel
  have hlegible : (Report.ofSession (relayServed .null).run.session).toJson.Legible := by
    decide +kernel
  refine ⟨⟨_, course_relay, hreaches⟩, hfits, hlegible, fun h => ?_⟩
  rw [Report.decodeText_ofSession hfits hlegible, Except.ok.injEq, Report.settled_eq_self_iff] at h
  exact absurd h (by decide +kernel)

end Opening

end Crew
